import Mathlib
import SelectForm.Proofs.Lexis.CellMatch

/-!
# Texts that are cut again

A text is cut at the keywords in it, and readers cut the parts by themselves.  A part is read
apart from what was in front of it and behind it, and still no keyword comes up in it that the
whole text did not show there.
-/

namespace SelectForm

/-! ## Keywords among cells -/

namespace Cell

/-- The character of a cell and its kind, whether a span begins there or not. -/
def face (cell : Cell) : Char × SpanKind := (cell.char, cell.kind)

variable {cells cells' : List Cell}

theorem text_append (front back : List Cell) : text (front ++ back) = text front ++ text back :=
  List.map_append

theorem text_of_faces (hcells : cells.map face = cells'.map face) : text cells = text cells' := by
  have htext := congrArg (List.map Prod.fst) hcells
  rwa [List.map_map, List.map_map] at htext

theorem isTopLevel_of_isAlpha {cell : Cell} (hcode : cell.isCode = true)
    (hletter : cell.char.isAlpha = true) : cell.isTopLevel 0 = true := by
  obtain ⟨char, kind, opens⟩ := cell
  have hnesting := nesting_of_isWordChar kind opens (Text.isWordChar_of_isAlpha hletter)
  simp [isTopLevel, hcode, hnesting]

theorem isCode_of_faces (hcells : cells.map face = cells'.map face)
    (hcode : ∀ cell ∈ cells, cell.isCode = true) : ∀ cell ∈ cells', cell.isCode = true := by
  have hkinds : ∀ pair ∈ cells.map face, (pair.2 == .code) = true := List.forall_mem_map.mpr hcode
  rw [hcells] at hkinds
  exact List.forall_mem_map.mp hkinds

end Cell

namespace Keyword

variable {keyword : Keyword} {before before' : Option Char} {cells cells' front rest back : List Cell}

/-- Whether a keyword is a phrase of words in capitals. -/
def isPhrase (keyword : Keyword) : Bool :=
  keyword.isPlain &&
    match keyword.form with
    | .phrase _ => true
    | .symbol _ => false

theorem exists_of_isPhrase (hphrase : keyword.isPhrase = true) :
    ∃ word words, keyword.form = .phrase (word :: words) ∧
      ∀ other ∈ word :: words, other ≠ [] ∧ ∀ c ∈ other, c.isUpper = true := by
  simp only [isPhrase, isPlain] at hphrase
  cases hform : keyword.form with
  | symbol _ => simp [hform] at hphrase
  | phrase words =>
      cases words with
      | nil => simp [hform] at hphrase
      | cons word words =>
          refine ⟨word, words, rfl, ?_⟩
          simpa [hform, List.isEmpty_iff] using hphrase

theorem isFilled_of_isPhrase (hphrase : keyword.isPhrase = true) : keyword.IsFilled := by
  obtain ⟨word, words, hform, hwords⟩ := exists_of_isPhrase hphrase
  rw [IsFilled, hform]
  refine ⟨List.cons_ne_nil _ _, fun other hmem => ⟨(hwords other hmem).1, fun c hc => ?_⟩⟩
  have hupper := (hwords other hmem).2 c hc
  apply isAsciiBlank_of_toUpper
  rw [Text.toUpper_of_isUpper hupper]
  exact Text.isAsciiBlank_eq_false_of_isWordChar
    (Text.isWordChar_of_isAlpha (by rw [Char.isAlpha, hupper]; rfl))

/-! ## The letters at the ends of a keyword -/

theorem getLast?_of_spellsWords {words : List Text} {text : Text} (hne : words ≠ [])
    (hwords : ∀ word ∈ words, word ≠ [] ∧ ∀ c ∈ word, c.isUpper = true)
    (hspells : SpellsWords words text) : ∃ c, text.getLast? = some c ∧ c.isAlpha = true := by
  induction hspells with
  | nil => exact absurd rfl hne
  | @cons word gap letters rest words _ _ hupper hrest ih =>
      obtain ⟨hword, hwords⟩ := List.forall_mem_cons.mp hwords
      cases hrest with
      | nil =>
          have hletters : letters ≠ [] := fun hnil => hword.1 (by rw [← hupper, hnil]; rfl)
          refine ⟨letters.getLast hletters, ?_,
            isAlpha_of_map_toUpper hword.2 hupper _ (List.getLast_mem hletters)⟩
          rw [List.append_nil, List.getLast?_append, List.getLast?_eq_some_getLast hletters]
          rfl
      | cons =>
          obtain ⟨c, hlast, hletter⟩ := ih (List.cons_ne_nil _ _) hwords
          refine ⟨c, ?_, hletter⟩
          rw [List.getLast?_append, List.getLast?_append, hlast]
          rfl

/-- A phrase begins and ends with a letter. -/
theorem ends_of_spells {text : Text} (hphrase : keyword.isPhrase = true)
    (hspells : keyword.Spells text) :
    (∃ c, text.head? = some c ∧ c.isAlpha = true) ∧
      ∃ c, text.getLast? = some c ∧ c.isAlpha = true := by
  obtain ⟨word, words, hform, hwords⟩ := exists_of_isPhrase hphrase
  obtain ⟨first, rest, rfl, hfirst, hspells⟩ : ∃ first rest, text = first ++ rest ∧
      first.map Char.toUpper = word ∧ SpellsWords words rest := by
    simpa only [Spells, hform] using hspells
  obtain ⟨hword, hwords⟩ := List.forall_mem_cons.mp hwords
  have hne : first ≠ [] := fun hnil => hword.1 (by rw [← hfirst, hnil]; rfl)
  have hletters := isAlpha_of_map_toUpper hword.2 hfirst
  constructor
  · refine ⟨first.head hne, ?_, hletters _ (List.head_mem hne)⟩
    rw [List.head?_append, List.head?_eq_some_head hne]
    rfl
  · cases words with
    | nil =>
        cases hspells
        rw [List.append_nil]
        exact ⟨_, List.getLast?_eq_some_getLast hne, hletters _ (List.getLast_mem hne)⟩
    | cons other words =>
        obtain ⟨c, hlast, hletter⟩ := getLast?_of_spellsWords (List.cons_ne_nil _ _) hwords hspells
        refine ⟨c, ?_, hletter⟩
        rw [List.getLast?_append, hlast]
        rfl

/-! ## What a search sees -/

/-- Only characters and their kinds matter to a keyword, and in front of it only whether a
character of a name stands there. -/
theorem length?_congr (hphrase : keyword.isPhrase = true)
    (hcells : cells.map Cell.face = cells'.map Cell.face)
    (hbefore : before.any Text.isWordChar = before'.any Text.isWordChar) :
    keyword.length? before cells = keyword.length? before' cells' := by
  have hhalf : ∀ {before before' : Option Char} {cells cells' : List Cell} {count : Nat},
      cells.map Cell.face = cells'.map Cell.face →
      before.any Text.isWordChar = before'.any Text.isWordChar →
      keyword.length? before cells = some count → keyword.length? before' cells' = some count := by
    intro before before' cells cells' count hcells hbefore hcount
    obtain ⟨front, rest, rfl, rfl, hcode, hfits⟩ := exists_of_length? hcount
    rw [List.map_append] at hcells
    obtain ⟨front', rest', rfl, hfront, hrest⟩ := List.map_eq_append_iff.mp hcells.symm
    have hlength := congrArg List.length hfront
    rw [List.length_map, List.length_map] at hlength
    refine (length?_eq_some_iff (isFilled_of_isPhrase hphrase)).mpr
      ⟨front', rest', rfl, hlength, Cell.isCode_of_faces hfront.symm hcode, ?_⟩
    rw [Cell.text_of_faces hfront, Cell.text_of_faces hrest]
    exact ⟨hfits.spells, fun words hform => hbefore ▸ hfits.bounded words hform⟩
  exact Option.ext fun count => ⟨hhalf hcells hbefore, hhalf hcells.symm hbefore.symm⟩

theorem length?_append {count : Nat} (hphrase : keyword.isPhrase = true)
    (hlast : (Cell.text front).getLast?.any Text.isWordChar = false)
    (hcount : keyword.length? before front = some count) :
    keyword.length? before (front ++ back) = some count := by
  obtain ⟨mark, rest, rfl, rfl, hcode, hfits⟩ := exists_of_length? hcount
  refine (length?_eq_some_iff (isFilled_of_isPhrase hphrase)).mpr
    ⟨mark, rest ++ back, List.append_assoc _ _ _, rfl, hcode, ?_⟩
  cases rest with
  | nil =>
      -- A keyword ends with a letter.
      obtain ⟨-, c, hc, hletter⟩ := ends_of_spells hphrase hfits.spells
      rw [List.append_nil, hc, Option.any_some, Text.isWordChar_of_isAlpha hletter] at hlast
      contradiction
  | cons cell rest =>
      rw [Cell.text_append]
      exact (fits_append_iff (List.cons_ne_nil _ _) _).mpr hfits

end Keyword

/-! ## Reading a part by itself -/

namespace Text

/-- A character that is never read together with the character in front of it. -/
def isInert (c : Char) : Bool :=
  (Quote.ofChar? c).isNone && c != '-' && c != '*' && c != '/'

variable {c : Char}

theorem isInert_iff :
    isInert c = true ↔ Quote.ofChar? c = none ∧ c ≠ '-' ∧ c ≠ '*' ∧ c ≠ '/' := by
  simp [isInert, and_assoc]

/-- A class of characters without the quotation marks, the hyphen, the star and the slash. -/
theorem isInert_of_class {test : Char → Bool} (hc : test c = true)
    (hmarks : ['\'', '"', '-', '*', '/'].any test = false) : isInert c = true := by
  have hne : ∀ d ∈ ['\'', '"', '-', '*', '/'], c ≠ d := by
    rintro d hd rfl
    exact List.any_eq_false.mp hmarks c hd hc
  simp only [List.forall_mem_cons] at hne
  obtain ⟨hsingle, hdouble, hdash, hstar, hslash, -⟩ := hne
  exact isInert_iff.mpr ⟨by simp [Quote.ofChar?, hsingle, hdouble], hdash, hstar, hslash⟩

theorem isInert_of_isAlpha (hletter : c.isAlpha = true) : isInert c = true :=
  isInert_of_class hletter (by decide)

theorem isInert_of_isBlank (hblank : isBlank c = true) : isInert c = true :=
  isInert_of_class hblank (by decide)

theorem plain_of_isBlank (hblank : isBlank c = true) :
    Quote.ofChar? c = none ∧ c ≠ '-' ∧ c ≠ '/' := by
  obtain ⟨hquote, hdash, -, hslash⟩ := isInert_iff.mp (isInert_of_isBlank hblank)
  exact ⟨hquote, hdash, hslash⟩

end Text

namespace Mode

variable {mode : Mode} {text : Text} {front back : List Cell}

/-- An inert character in code is read from code on, and more code is read behind it. -/
theorem step_code {c : Char} {next : Option Char} (hinert : Text.isInert c = true)
    (hline : c ≠ '\n') (hcode : (mode.step c next).1.isCode = true) :
    (mode = between ∨ mode = code) ∧ (mode.step c next).2 = code := by
  obtain ⟨hquote, hdash, -, hslash⟩ := Text.isInert_iff.mp hinert
  cases mode <;> simp_all [step, enter, Cell.isCode]

theorem step_letter {c : Char} {next : Option Char} (hletter : c.isAlpha = true)
    (hcode : (mode.step c next).1.isCode = true) :
    (mode = between ∨ mode = code) ∧ (mode.step c next).2 = code := by
  refine step_code (Text.isInert_of_isAlpha hletter) ?_ hcode
  rintro rfl
  exact absurd hletter (by decide)

/-- An inert character behind a character is no part of what is read together with it. -/
theorem step_inert {d : Char} (hinert : Text.isInert d = true) (mode : Mode) (c : Char) :
    mode.step c (some d) = mode.step c none := by
  obtain ⟨hquote, hdash, hstar, hslash⟩ := Text.isInert_iff.mp hinert
  have hchar : ∀ quote : Quote, d ≠ quote.char := by
    rintro quote rfl
    cases quote <;> exact absurd hquote (by decide)
  cases mode <;> simp [step, enter, hdash, hstar, hslash, hchar]

theorem run_inert {d : Char} (hinert : Text.isInert d = true) (mode : Mode) (text : Text) :
    mode.run (some d) text = mode.run none text := by
  induction text generalizing mode with
  | nil => rfl
  | cons c rest ih =>
      rw [run_cons, run_cons]
      cases rest with
      | nil => rw [List.head?_nil, Option.none_or, Option.none_or, step_inert hinert, ih]
      | cons e rest => simp only [List.head?_cons, Option.some_or, ih]

/-- Behind characters that open no literal and no comment code is read. -/
theorem behind_plain {next : Option Char} (hmode : mode = between ∨ mode = code)
    (hplain : ∀ c ∈ text, Quote.ofChar? c = none ∧ c ≠ '-' ∧ c ≠ '/') :
    (mode.run next text).2 = between ∨ (mode.run next text).2 = code := by
  cases text with
  | nil => exact hmode
  | cons c rest =>
      obtain ⟨hc, hrest⟩ := List.forall_mem_cons.mp hplain
      have hstep : ∀ next, (mode.step c next).2 = code := by
        intro next
        rcases hmode with rfl | rfl <;> simp [step, enter, hc]
      right
      rw [run_cons, hstep, run_plain next hrest]

/-- The cells of a text that is taken apart are those of its parts, the second of which is read
in the mode behind the first. -/
theorem exists_of_cells (hcells : mode.cells text = front ++ back) :
    ∃ behind, front = (mode.run (Cell.text back).head? (Cell.text front)).1 ∧
      behind = (mode.run (Cell.text back).head? (Cell.text front)).2 ∧
      back = behind.cells (Cell.text back) := by
  have htext := congrArg Cell.text hcells
  rw [text_cells] at htext
  have hrun := @run_append none mode (Cell.text front) (Cell.text back)
  rw [Option.or_none, run_none, run_none, Prod.mk.injEq, ← Cell.text_append, ← htext, hcells] at hrun
  have hlength : front.length =
      (mode.run (Cell.text back).head? (Cell.text front)).1.length := by
    rw [length_run, Cell.text, List.length_map]
  obtain ⟨hfront, hback⟩ := List.append_inj hrun.1 hlength
  exact ⟨_, hfront, rfl, hback⟩

/-- Where code is read, a text is read as it is at its beginning. -/
theorem faces_eq (hmode : mode = between ∨ mode = code) (text : Text) :
    (mode.cells text).map Cell.face = text.cells.map Cell.face := by
  rcases hmode with rfl | rfl
  · rfl
  · cases text with
    | nil => rfl
    | cons c rest =>
        have henter : ∀ next, (enter false c next).1.face = (enter true c next).1.face ∧
            (enter false c next).2 = (enter true c next).2 := by
          intro next
          unfold enter
          split
          · exact ⟨rfl, rfl⟩
          · split
            · exact ⟨rfl, rfl⟩
            · split <;> exact ⟨rfl, rfl⟩
        obtain ⟨hface, hmode⟩ := henter rest.head?
        simp only [Text.cells, cells, step, List.map_cons, hface, hmode]

/-- A part in front of an inert character is read as it is by itself. -/
theorem faces_front (hmode : mode = between ∨ mode = code) (hcells : mode.cells text = front ++ back)
    (hinert : ∀ c ∈ (Cell.text back).head?, Text.isInert c = true) :
    front.map Cell.face = (Cell.text front).cells.map Cell.face := by
  obtain ⟨behind, hfront, -, -⟩ := exists_of_cells hcells
  have hrun :
      (mode.run (Cell.text back).head? (Cell.text front)).1 = mode.cells (Cell.text front) := by
    cases hhead : (Cell.text back).head? with
    | none => rw [run_none]
    | some c => rw [run_inert (hinert c hhead), run_none]
  rw [← faces_eq hmode, ← hrun, ← hfront]

/-- A keyword is read from code on, and more code is read behind it. -/
theorem exists_of_mark {keyword : Keyword} {mark : List Cell} (hphrase : keyword.isPhrase = true)
    (hcells : mode.cells text = mark ++ back) (hcode : ∀ cell ∈ mark, cell.isCode = true)
    (hspells : keyword.Spells (Cell.text mark)) :
    (mode = between ∨ mode = code) ∧ back = code.cells (Cell.text back) := by
  obtain ⟨⟨first, hfirst, hfirstLetter⟩, last, hlast, hlastLetter⟩ :=
    Keyword.ends_of_spells hphrase hspells
  constructor
  · cases mark with
    | nil => simp [Cell.text] at hfirst
    | cons cell mark =>
        obtain rfl : cell.char = first := by simpa [Cell.text] using hfirst
        cases text with
        | nil => simp [cells] at hcells
        | cons c rest =>
            rw [cells, List.cons_append, List.cons.injEq] at hcells
            obtain ⟨hcell, -⟩ := hcells
            have hchar : c = cell.char := by rw [← hcell, char_step]
            have hstep := @step_letter mode c rest.head? (hchar ▸ hfirstLetter)
              (hcell ▸ hcode cell List.mem_cons_self)
            exact hstep.1
  · obtain ⟨front, cell, rfl⟩ : ∃ front cell, mark = front ++ [cell] := by
      rcases List.eq_nil_or_concat mark with rfl | ⟨front, cell, rfl⟩
      · simp [Cell.text] at hlast
      · exact ⟨front, cell, List.concat_eq_append⟩
    obtain rfl : cell.char = last := by simpa [Cell.text] using hlast
    rw [List.append_assoc] at hcells
    obtain ⟨behind, -, -, hback⟩ := exists_of_cells hcells
    rw [List.singleton_append] at hback
    have hcons : cell :: back = behind.cells (cell.char :: Cell.text back) := hback
    rw [cells, List.cons.injEq] at hcons
    obtain ⟨hcell, hrest⟩ := hcons
    have hstep := @step_letter behind cell.char (Cell.text back).head? hlastLetter
      (hcell ▸ hcode cell (by simp))
    rw [hstep.2] at hrest
    exact hrest

end Mode

/-! ## Cutting a part by itself -/

/-- Whether no mark is found in a text outside parentheses. -/
def Text.IsUncut {α : Type} (find : Finder α) (text : Text) : Prop :=
  (cutCells find 0 0 none text.cells).2 = []

section

variable {α : Type} {keywords : List (Keyword × α)} {before before' : Option Char}
  {cells cells' front back : List Cell}

namespace Finder

/-- The keywords of a finder are phrases. -/
def ArePhrases (keywords : List (Keyword × α)) : Prop :=
  ∀ entry ∈ keywords, entry.1.isPhrase = true

theorem ofKeywords_congr (hphrases : ArePhrases keywords)
    (hcells : cells.map Cell.face = cells'.map Cell.face)
    (hbefore : before.any Text.isWordChar = before'.any Text.isWordChar) :
    ofKeywords keywords before cells = ofKeywords keywords before' cells' := by
  rw [ofKeywords_apply, ofKeywords_apply]
  induction keywords with
  | nil => rfl
  | cons entry keywords ih =>
      obtain ⟨hentry, hothers⟩ := List.forall_mem_cons.mp hphrases
      rw [List.findSome?_cons, List.findSome?_cons, ih hothers,
        Keyword.length?_congr hentry hcells hbefore]

/-- What is found is written in code, with no character of a name at its ends. -/
theorem exists_of_found {label : α} {count : Nat} (hphrases : ArePhrases keywords)
    (hfound : ofKeywords keywords before cells = some (label, count)) :
    ∃ keyword first mark rest, (keyword, label) ∈ keywords ∧ keyword.isPhrase = true ∧
      cells = first :: (mark ++ rest) ∧ mark.length + 1 = count ∧
      (∀ cell ∈ first :: mark, cell.isCode = true) ∧ first.char.isAlpha = true ∧
      keyword.Fits before (Cell.text (first :: mark)) (Cell.text rest) := by
  obtain ⟨keyword, mark, rest, hmem, rfl, rfl, hcode, hfits⟩ := exists_of_ofKeywords hfound
  have hphrase := hphrases _ hmem
  obtain ⟨⟨c, hc, hletter⟩, -⟩ := Keyword.ends_of_spells hphrase hfits.spells
  cases mark with
  | nil => simp [Cell.text] at hc
  | cons first mark =>
      obtain rfl : first.char = c := by simpa [Cell.text] using hc
      exact ⟨keyword, first, mark, rest, hmem, hphrase, rfl, rfl, hcode, hletter, hfits⟩

theorem ofKeywords_of_not_isWordChar {cell : Cell} (hphrases : ArePhrases keywords)
    (hcell : Text.isWordChar cell.char = false) :
    ofKeywords keywords before (cell :: cells) = none := by
  cases hfound : ofKeywords keywords before (cell :: cells) with
  | none => rfl
  | some found =>
      obtain ⟨_, first, mark, rest, -, -, hcells, -, -, hletter, -⟩ := exists_of_found hphrases hfound
      rw [(List.cons.inj hcells).1, Text.isWordChar_of_isAlpha hletter] at hcell
      contradiction

/-- A place at which nothing is found holds nothing without the cells far behind it either. -/
theorem ofKeywords_front (hphrases : ArePhrases keywords)
    (hlast : (Cell.text front).getLast?.any Text.isWordChar = false)
    (hnone : ofKeywords keywords before (front ++ back) = none) :
    ofKeywords keywords before front = none := by
  rw [ofKeywords_apply, List.findSome?_eq_none_iff] at hnone ⊢
  intro entry hmem
  cases hcount : entry.1.length? before front with
  | none => rfl
  | some count =>
      have hfound := hnone entry hmem
      rw [Keyword.length?_append (hphrases entry hmem) hlast hcount] at hfound
      contradiction

end Finder

open Finder

variable {skip : Nat} {depth : Int} {text head : Text} {mode : Mode} {cuts : List (Cut α)}

/-- Cells with the same faces are cut in the same way. -/
theorem cutCells_congr (hphrases : ArePhrases keywords)
    (hcells : cells.map Cell.face = cells'.map Cell.face)
    (hbefore : before.any Text.isWordChar = before'.any Text.isWordChar) :
    cutCells (ofKeywords keywords) skip depth before cells =
      cutCells (ofKeywords keywords) skip depth before' cells' := by
  induction cells generalizing skip depth before before' cells' with
  | nil =>
      obtain rfl := List.map_eq_nil_iff.mp hcells.symm
      rfl
  | cons cell rest ih =>
      cases cells' with
      | nil => simp at hcells
      | cons cell' rest' =>
          have hfound := ofKeywords_congr hphrases hcells hbefore
          have htexts : ∀ count, Cell.text ((cell :: rest).take count) =
              Cell.text ((cell' :: rest').take count) := fun count =>
            Cell.text_of_faces (by rw [List.map_take, List.map_take, hcells])
          rw [List.map_cons, List.map_cons, List.cons.injEq] at hcells
          obtain ⟨hface, hrest⟩ := hcells
          obtain ⟨char, kind, opens⟩ := cell
          obtain ⟨char', kind', opens'⟩ := cell'
          obtain ⟨rfl, rfl⟩ : char = char' ∧ kind = kind' := Prod.mk.inj hface
          have hsame := fun skip depth => @ih (some char) (some char) rest' skip depth hrest rfl
          have htop : Cell.isTopLevel depth ⟨char, kind, opens⟩ =
              Cell.isTopLevel depth ⟨char, kind, opens'⟩ := rfl
          have hnesting : Cell.nesting ⟨char, kind, opens⟩ = Cell.nesting ⟨char, kind, opens'⟩ := rfl
          cases skip with
          | succ count => exact hsame count depth
          | zero => simp only [cutCells, hfound, htop, hnesting, hsame, htexts]

theorem cutCells_blanks (hphrases : ArePhrases keywords)
    (hblanks : ∀ c ∈ Cell.text front, Text.isAsciiBlank c = true) :
    cutCells (ofKeywords keywords) 0 depth before (front ++ back) =
      Cut.inFront (Cell.text front)
        (cutCells (ofKeywords keywords) 0 depth ((Cell.text front).getLast?.or before) back) := by
  induction front generalizing before with
  | nil => rfl
  | cons cell front ih =>
      have htext : Cell.text (cell :: front) = cell.char :: Cell.text front := rfl
      rw [htext, List.forall_mem_cons] at hblanks
      have hnesting : cell.nesting = 0 := by
        obtain ⟨char, kind, opens⟩ := cell
        have hblank := hblanks.1
        simp only [Text.isAsciiBlank, Bool.or_eq_true, beq_iff_eq] at hblank
        rcases hblank with (((rfl | rfl) | rfl) | rfl) | rfl <;>
          simp [Cell.nesting, Cell.isCodeChar]
      rw [List.cons_append, cutCells_cons fun _ => ofKeywords_of_not_isWordChar hphrases
        (Text.not_isWordChar_of_isAsciiBlank hblanks.1), hnesting, add_zero, ih hblanks.2,
        Cut.inFront_inFront, htext, Text.getLast?_cons_or, List.singleton_append]

/-- What is in front of a part does not matter if no name goes on into it. -/
theorem cutCells_edge (hphrases : ArePhrases keywords)
    (hcells : cells.map Cell.face = cells'.map Cell.face)
    (hedge : before.any Text.isWordChar = false ∨
      (Cell.text cells).head?.any Text.isWordChar = false) :
    cutCells (ofKeywords keywords) 0 depth before cells =
      cutCells (ofKeywords keywords) 0 depth none cells' := by
  rcases hedge with hbefore | hhead
  · exact cutCells_congr hphrases hcells hbefore
  · rw [← cutCells_congr hphrases hcells (show (none : Option Char).any Text.isWordChar = _ from rfl)]
    cases cells with
    | nil => rfl
    | cons cell rest =>
        rw [cutCells_cons fun _ => ofKeywords_of_not_isWordChar hphrases hhead,
          cutCells_cons fun _ => ofKeywords_of_not_isWordChar hphrases hhead]

/-- Up to the first mark nothing is found, also if the mark is not there. -/
theorem cutCells_front (hphrases : ArePhrases keywords)
    (hlast : (Cell.text front).getLast?.any Text.isWordChar = false)
    (hhead : (cutCells (ofKeywords keywords) 0 depth before (front ++ back)).1 = Cell.text front) :
    (cutCells (ofKeywords keywords) 0 depth before front).2 = [] := by
  induction front generalizing depth before with
  | nil => rfl
  | cons cell front ih =>
      have hnone : cell.isTopLevel depth = true →
          ofKeywords keywords before (cell :: (front ++ back)) = none := by
        intro htop
        by_contra hfound
        obtain ⟨⟨label, count⟩, hfound⟩ := Option.ne_none_iff_exists'.mp hfound
        obtain ⟨-, -, mark, -, -, -, -, rfl, -⟩ := exists_of_found hphrases hfound
        rw [List.cons_append, cutCells, if_pos htop, hfound] at hhead
        simp [Cell.text] at hhead
      rw [List.cons_append, cutCells_cons hnone, Cut.inFront] at hhead
      rw [cutCells_cons fun htop =>
        @ofKeywords_front _ keywords before (cell :: front) back hphrases hlast (hnone htop)]
      refine ih ?_ (List.cons.inj hhead).2
      cases front with
      | nil => rfl
      | cons next front => exact hlast

/-- The first mark, written in code between the part before it and the rest. -/
theorem exists_of_firstCut {cut : Cut α} (hphrases : ArePhrases keywords)
    (hcuts : cutCells (ofKeywords keywords) 0 depth before cells = (head, cut :: cuts)) :
    ∃ keyword front mark back, (keyword, cut.label) ∈ keywords ∧ cells = front ++ (mark ++ back) ∧
      Cell.text front = head ∧ Cell.text mark = cut.mark ∧ (∀ cell ∈ mark, cell.isCode = true) ∧
      keyword.Fits (head.getLast?.or before) cut.mark (Cell.text back) ∧
      cutCells (ofKeywords keywords) 0 0 (head.getLast?.or before) (mark ++ back) =
        ([], cut :: cuts) ∧
      cutCells (ofKeywords keywords) 0 0 cut.mark.getLast? back = (cut.body, cuts) := by
  obtain ⟨front, behind, count, rfl, hfront, hfound, hmark, hrest⟩ := exists_of_cutCells_cons hcuts
  obtain ⟨keyword, first, mark, back, hmem, -, rfl, hcount, hcode, hletter, hfits⟩ :=
    exists_of_found hphrases hfound
  obtain rfl : mark.length = count := Nat.add_right_cancel hcount
  have htake : (first :: (mark ++ back)).take (mark.length + 1) = first :: mark := by
    rw [List.take_succ_cons, List.take_left]
  rw [htake] at hmark
  rw [← hmark] at hfits
  have hbody : cutCells (ofKeywords keywords) mark.length 0 (some first.char) (mark ++ back) =
      (cut.body, cuts) := hrest
  have htop := Cell.isTopLevel_of_isAlpha (hcode first List.mem_cons_self) hletter
  refine ⟨keyword, front, first :: mark, back, hmem, rfl, hfront, hmark.symm, hcode, hfits, ?_, ?_⟩
  · rw [List.cons_append, cutCells, if_pos htop, hfound]
    simp only [hbody, htake, ← hmark]
  · rw [cutCells_skip] at hbody
    have hlast : cut.mark.getLast? = (Cell.text mark).getLast?.or (some first.char) := by
      rw [hmark, ← Text.getLast?_cons_or, Option.or_none]
      rfl
    rw [hlast]
    exact hbody

/-- What is in front of the first mark holds no mark by itself. -/
theorem head_isUncut {keyword : Keyword} {front mark back : List Cell}
    (hphrases : ArePhrases keywords) (hmode : mode = .between ∨ mode = .code)
    (hedge : before.any Text.isWordChar = false ∨ text.head?.any Text.isWordChar = false)
    (hcuts : cutCells (ofKeywords keywords) 0 0 before (mode.cells text) = (Cell.text front, cuts))
    (hcells : mode.cells text = front ++ (mark ++ back)) (hphrase : keyword.isPhrase = true)
    (hspells : keyword.Spells (Cell.text mark))
    (hbefore : ((Cell.text front).getLast?.or before).any Text.isWordChar = false) :
    (Cell.text front).IsUncut (ofKeywords keywords) := by
  have hinert : ∀ c ∈ (Cell.text (mark ++ back)).head?, Text.isInert c = true := by
    obtain ⟨⟨c, hc, hletter⟩, -⟩ := Keyword.ends_of_spells hphrase hspells
    rw [Cell.text_append, List.head?_append, hc]
    simpa using Text.isInert_of_isAlpha hletter
  have hlast : (Cell.text front).getLast?.any Text.isWordChar = false := by
    cases hlast : (Cell.text front).getLast? with
    | none => rfl
    | some c => rwa [hlast, Option.some_or] at hbefore
  have hfrontEdge : before.any Text.isWordChar = false ∨
      (Cell.text front).head?.any Text.isWordChar = false := by
    cases front with
    | nil => exact .inr rfl
    | cons cell front =>
        have htext := congrArg Cell.text hcells
        rw [Mode.text_cells] at htext
        rwa [htext] at hedge
  rw [Text.IsUncut, ← cutCells_edge hphrases (Mode.faces_front hmode hcells hinert) hfrontEdge]
  exact cutCells_front hphrases hlast (by rw [← hcells, hcuts])

/-- Where a text is cut, its parts by themselves hold no more marks, and what begins with a mark
is cut at the same marks by itself. -/
theorem cutCells_parts (hphrases : ArePhrases keywords)
    (hmode : mode = .between ∨ mode = .code)
    (hedge : before.any Text.isWordChar = false ∨ text.head?.any Text.isWordChar = false)
    (hcuts : cutCells (ofKeywords keywords) 0 0 before (mode.cells text) = (head, cuts)) :
    head.IsUncut (ofKeywords keywords) ∧ (∀ cut ∈ cuts, cut.body.IsUncut (ofKeywords keywords)) ∧
      ∀ suffix, suffix <:+ cuts →
        cutCells (ofKeywords keywords) 0 0 none (Cut.textOf suffix).cells = ([], suffix) := by
  induction cuts generalizing before mode text head with
  | nil =>
      have htext := text_cutCells (ofKeywords keywords) 0 0 before (mode.cells text)
      rw [hcuts, List.drop_zero, Mode.text_cells] at htext
      obtain rfl : head = text := by simpa [Cut.textOf] using htext
      rw [cutCells_edge hphrases (Mode.faces_eq hmode head) (by rwa [Mode.text_cells])] at hcuts
      refine ⟨congrArg Prod.snd hcuts, List.forall_mem_nil _, fun suffix hsuffix => ?_⟩
      rw [List.suffix_nil] at hsuffix
      rw [hsuffix]
      rfl
  | cons cut cuts ih =>
      obtain ⟨keyword, front, mark, back, hmem, hcells, hfront, hmark, hcode, hfits, hwhole, hbody⟩ :=
        exists_of_firstCut hphrases hcuts
      have hphrase := hphrases _ hmem
      have hspells : keyword.Spells (Cell.text mark) := hmark ▸ hfits.spells
      obtain ⟨word, words, hform, -⟩ := Keyword.exists_of_isPhrase hphrase
      obtain ⟨hbefore, hbehind⟩ := hfits.bounded _ hform
      obtain ⟨behind, -, -, hrest⟩ := Mode.exists_of_cells hcells
      obtain ⟨hbehindMode, hback⟩ := Mode.exists_of_mark hphrase hrest.symm hcode hspells
      rw [hback] at hbody
      obtain ⟨hbodyUncut, hbodies, hsuffixes⟩ := ih (.inr rfl) (.inr hbehind) hbody
      refine ⟨?_, List.forall_mem_cons.mpr ⟨hbodyUncut, hbodies⟩, fun suffix hsuffix => ?_⟩
      · subst hfront
        exact head_isUncut hphrases hmode hedge hcuts hcells hphrase hspells hbefore
      · rcases List.suffix_cons_iff.mp hsuffix with rfl | hsuffix
        · have htext :=
            text_cutCells (ofKeywords keywords) 0 0 (head.getLast?.or before) (mark ++ back)
          rw [hwhole, List.drop_zero, List.nil_append] at htext
          rw [hrest, cutCells_edge hphrases (Mode.faces_eq hbehindMode _) (.inl hbefore)] at hwhole
          rw [htext]
          exact hwhole
        · exact hsuffixes suffix hsuffix

end

end SelectForm

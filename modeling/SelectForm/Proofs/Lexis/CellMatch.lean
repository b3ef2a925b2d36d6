import Mathlib
import SelectForm.Proofs.Lexis.RowMatch
import SelectForm.Proofs.Lexis.RowCut

/-!
# Keywords and marks among the cells of any text

A text may hold comments and may be left open, and still a keyword that is found in it is
written out in code, with no character of a name at either end.  So it is with each mark
at which the cells of a text are cut.
-/

namespace SelectForm

namespace Keyword

variable {keyword : Keyword} {before : Option Char} {cells rest : List Cell}

theorem exists_of_afterWords? {words : List Text} (hafter : afterWords? words cells = some rest) :
    ∃ front, cells = front ++ rest ∧ (∀ cell ∈ front, cell.isCode = true) ∧
      SpellsWords words (Cell.text front) := by
  induction words generalizing cells with
  | nil => exact ⟨[], Option.some.inj hafter, List.forall_mem_nil _, .nil⟩
  | cons word words ih =>
      unfold afterWords? at hafter
      split at hafter
      · rename_i hgap
        split at hafter
        · rename_i middle hword
          obtain ⟨text, hdrop, hupper, htext⟩ := afterWord?_eq_some_iff.mp hword
          obtain ⟨back, rfl, hback, hspells⟩ := ih hafter
          have hcells := @List.takeWhile_append_dropWhile _ isGap cells
          have hblank : ∀ cell ∈ cells.takeWhile isGap, isGap cell = true :=
            fun cell hmem => List.mem_takeWhile_imp hmem
          have hne : cells.takeWhile isGap ≠ [] := by
            cases cells with
            | nil => simp at hgap
            | cons cell cells =>
                rw [List.head?_cons, Option.any_some] at hgap
                rw [List.takeWhile_cons_of_pos hgap]
                exact List.cons_ne_nil _ _
          rw [hdrop] at hcells
          generalize cells.takeWhile isGap = gap at hcells hblank hne
          simp only [isGap, Bool.and_eq_true] at hblank
          refine ⟨gap ++ (text ++ back), ?_, ?_, ?_⟩
          · rw [← hcells, List.append_assoc, List.append_assoc]
          · simp only [List.forall_mem_append]
            exact ⟨fun cell hmem => (hblank cell hmem).1, htext, hback⟩
          · simp only [Cell.text, List.map_append]
            apply SpellsWords.cons
            · simpa using hne
            · exact List.forall_mem_map.mpr fun cell hmem => (hblank cell hmem).2
            · rw [List.map_map]
              exact hupper
            · exact hspells
        · exact absurd hafter (by simp)
      · exact absurd hafter (by simp)

theorem exists_of_afterSymbol? {symbol : Text} (hafter : afterSymbol? symbol cells = some rest) :
    ∃ front, cells = front ++ rest ∧ (∀ cell ∈ front, cell.isCode = true) ∧
      Cell.text front = symbol := by
  induction symbol generalizing cells with
  | nil => exact ⟨[], Option.some.inj hafter, List.forall_mem_nil _, rfl⟩
  | cons c symbol ih =>
      cases cells with
      | nil => exact absurd hafter (by simp [afterSymbol?])
      | cons cell cells =>
          unfold afterSymbol? at hafter
          split at hafter
          · rename_i hcell
            simp only [Cell.isCodeChar, Bool.and_eq_true, beq_iff_eq] at hcell
            obtain ⟨front, rfl, hfront, rfl⟩ := ih hafter
            refine ⟨cell :: front, rfl, List.forall_mem_cons.mpr ⟨hcell.1, hfront⟩, ?_⟩
            rw [← hcell.2]
            rfl
          · exact absurd hafter (by simp)

/-- A keyword may be written as a text between a character and another text: no character of a
name touches it. -/
structure Fits (keyword : Keyword) (before : Option Char) (text behind : Text) : Prop where
  spells : keyword.Spells text
  bounded : ∀ words, keyword.form = .phrase words →
    before.any Text.isWordChar = false ∧ behind.head?.any Text.isWordChar = false

/-- Only the next character behind a keyword matters. -/
theorem fits_append_iff {text behind : Text} (hne : behind ≠ []) (rest : Text) :
    keyword.Fits before text (behind ++ rest) ↔ keyword.Fits before text behind := by
  have hhead : (behind ++ rest).head? = behind.head? := List.head?_append_of_ne_nil _ hne
  constructor
  · exact fun hfits => ⟨hfits.spells, hhead ▸ hfits.bounded⟩
  · exact fun hfits => ⟨hfits.spells, hhead.symm ▸ hfits.bounded⟩

/-- A keyword of one word is found in a row where it fits. -/
theorem Fits.rest?_eq {word text : Text} {back : List Lexeme} (hform : keyword.form = .phrase [word])
    (hfits : keyword.Fits before text (Lexeme.textOf back)) :
    keyword.rest? before (Lexeme.marks text ++ back) = some back := by
  obtain ⟨hbefore, hbehind⟩ := hfits.bounded _ hform
  have htext := (spells_iff_of_word hform).mp hfits.spells
  rw [rest?_of_word hform, restWord?_eq_some_iff.mpr ⟨text, rfl, htext⟩, hbefore]
  simp [hbehind]

theorem exists_of_after? (hafter : keyword.after? before cells = some rest) :
    ∃ front, cells = front ++ rest ∧ (∀ cell ∈ front, cell.isCode = true) ∧
      keyword.Fits before (Cell.text front) (Cell.text rest) := by
  unfold after? at hafter
  split at hafter
  · rename_i symbol hform
    obtain ⟨front, hcells, hcode, htext⟩ := exists_of_afterSymbol? hafter
    refine ⟨front, hcells, hcode, ?_, fun words hwords => ?_⟩
    · rw [Spells, hform]
      exact htext
    · rw [hform] at hwords
      contradiction
  · rename_i words hform
    split at hafter
    · exact absurd hafter (by simp)
    · rename_i hbefore
      split at hafter
      · rename_i behind hphrase
        split at hafter
        · exact absurd hafter (by simp)
        · rename_i hbehind
          obtain rfl := Option.some.inj hafter
          have hbounded : before.any Text.isWordChar = false ∧
              (Cell.text behind).head?.any Text.isWordChar = false := by
            refine ⟨Bool.of_not_eq_true hbefore, ?_⟩
            rw [Cell.text, List.head?_map, Option.any_map]
            exact Bool.of_not_eq_true hbehind
          cases words with
          | nil =>
              obtain rfl := Option.some.inj hphrase
              refine ⟨[], rfl, List.forall_mem_nil _, ?_, fun _ _ => hbounded⟩
              rw [Spells, hform]
              rfl
          | cons word words =>
              rw [afterPhrase?] at hphrase
              cases hword : afterWord? word cells with
              | none => simp [hword] at hphrase
              | some middle =>
                  rw [hword] at hphrase
                  obtain ⟨text, rfl, hupper, htext⟩ := afterWord?_eq_some_iff.mp hword
                  obtain ⟨back, rfl, hback, hspells⟩ := exists_of_afterWords? hphrase
                  refine ⟨text ++ back, by simp, List.forall_mem_append.mpr ⟨htext, hback⟩, ?_,
                    fun _ _ => hbounded⟩
                  rw [Spells, hform]
                  refine ⟨Cell.text text, Cell.text back, by simp [Cell.text], ?_, hspells⟩
                  rw [Cell.text, List.map_map]
                  exact hupper
      · exact absurd hafter (by simp)

theorem exists_of_length? {count : Nat} (hcount : keyword.length? before cells = some count) :
    ∃ front rest, cells = front ++ rest ∧ front.length = count ∧
      (∀ cell ∈ front, cell.isCode = true) ∧
      keyword.Fits before (Cell.text front) (Cell.text rest) := by
  obtain ⟨rest, hafter, rfl⟩ := Option.map_eq_some_iff.mp hcount
  obtain ⟨front, rfl, hcode, hfits⟩ := exists_of_after? hafter
  exact ⟨front, rest, rfl, by simp, hcode, hfits⟩

/-! ### Keywords that are found where they are written -/

/-- A keyword with something to write: a symbol, or a phrase whose words hold no blanks. -/
def IsFilled (keyword : Keyword) : Prop :=
  match keyword.form with
  | .symbol symbol => symbol ≠ []
  | .phrase words =>
    words ≠ [] ∧ ∀ word ∈ words, word ≠ [] ∧ ∀ c ∈ word, Text.isAsciiBlank c = false

variable {front : List Cell}

theorem isAsciiBlank_of_toUpper {c : Char} (hupper : Text.isAsciiBlank c.toUpper = false) :
    Text.isAsciiBlank c = false := by
  rw [Bool.eq_false_iff]
  intro hblank
  simp only [Text.isAsciiBlank, Bool.or_eq_true, beq_iff_eq] at hblank
  rcases hblank with (((rfl | rfl) | rfl) | rfl) | rfl <;> exact absurd hupper (by decide)

theorem afterWords?_of_spells {words : List Text}
    (hwords : ∀ word ∈ words, word ≠ [] ∧ ∀ c ∈ word, Text.isAsciiBlank c = false)
    (hcode : ∀ cell ∈ front, cell.isCode = true) (hspells : SpellsWords words (Cell.text front)) :
    afterWords? words (front ++ rest) = some rest := by
  generalize htext : Cell.text front = text at hspells
  induction hspells generalizing front with
  | nil =>
      obtain rfl := List.map_eq_nil_iff.mp htext
      rfl
  | @cons word gap text back words hne hgap hupper _ ih =>
      obtain ⟨hword, hwords⟩ := List.forall_mem_cons.mp hwords
      obtain ⟨blanks, others, rfl, rfl, hothers⟩ := List.map_eq_append_iff.mp htext
      obtain ⟨letters, others, rfl, rfl, rfl⟩ := List.map_eq_append_iff.mp hothers
      simp only [List.forall_mem_append] at hcode
      obtain ⟨hblanks, hletters, hothers⟩ := hcode
      have hgaps : ∀ cell ∈ blanks, isGap cell = true := fun cell hmem => by
        rw [isGap, hblanks cell hmem, hgap _ (List.mem_map_of_mem hmem)]
        rfl
      have hnone : (letters ++ (others ++ rest)).dropWhile isGap = letters ++ (others ++ rest) := by
        cases letters with
        | nil => exact absurd hupper.symm hword.1
        | cons cell letters =>
            refine List.dropWhile_cons_of_neg fun hcell => ?_
            have hfirst := isAsciiBlank_of_toUpper
              (hword.2 cell.char.toUpper (hupper ▸ List.mem_cons_self))
            simp [isGap, hfirst] at hcell
      have hfound : afterWord? word (letters ++ (others ++ rest)) = some (others ++ rest) :=
        afterWord?_eq_some_iff.mpr ⟨letters, rfl, by rw [← hupper, List.map_map]; rfl, hletters⟩
      have hhead : (blanks ++ (letters ++ (others ++ rest))).head?.any isGap = true := by
        cases blanks with
        | nil => exact absurd rfl hne
        | cons cell blanks => exact hgaps cell List.mem_cons_self
      rw [List.append_assoc, List.append_assoc, afterWords?, if_pos hhead,
        List.dropWhile_append_of_pos hgaps, hnone, hfound]
      exact ih hwords hothers rfl

theorem afterSymbol?_of_text (hcode : ∀ cell ∈ front, cell.isCode = true) :
    afterSymbol? (Cell.text front) (front ++ rest) = some rest := by
  induction front with
  | nil => rfl
  | cons cell front ih =>
      obtain ⟨hcell, hfront⟩ := List.forall_mem_cons.mp hcode
      have hchar : cell.isCodeChar cell.char = true := by simp [Cell.isCodeChar, hcell]
      have htext : Cell.text (cell :: front) = cell.char :: Cell.text front := rfl
      rw [htext, List.cons_append, afterSymbol?, if_pos hchar, ih hfront]

theorem after?_of_fits (hfilled : keyword.IsFilled) (hcode : ∀ cell ∈ front, cell.isCode = true)
    (hfits : keyword.Fits before (Cell.text front) (Cell.text rest)) :
    keyword.after? before (front ++ rest) = some rest := by
  have hspelled := hfits.spells
  unfold Spells at hspelled
  unfold IsFilled at hfilled
  cases hform : keyword.form with
  | symbol symbol =>
      rw [hform] at hspelled
      simp only at hspelled
      rw [after?, hform, ← hspelled]
      exact afterSymbol?_of_text hcode
  | phrase words =>
      rw [hform] at hspelled hfilled
      obtain ⟨hnonempty, hwords⟩ := hfilled
      obtain ⟨word, words, rfl⟩ := List.exists_cons_of_ne_nil hnonempty
      obtain ⟨first, others, htext, hfirst, hspells⟩ := hspelled
      obtain ⟨hbefore, hbehind⟩ := hfits.bounded _ hform
      obtain ⟨letters, others, rfl, rfl, rfl⟩ := List.map_eq_append_iff.mp htext
      obtain ⟨hletters, hothers⟩ := List.forall_mem_append.mp hcode
      have hfound : afterWord? word (letters ++ (others ++ rest)) = some (others ++ rest) :=
        afterWord?_eq_some_iff.mpr ⟨letters, rfl, by rw [← hfirst, List.map_map]; rfl, hletters⟩
      have hrest := @afterWords?_of_spells rest others words
        (fun other hmem => hwords other (List.mem_cons_of_mem word hmem)) hothers hspells
      rw [Cell.text, List.head?_map, Option.any_map] at hbehind
      rw [List.append_assoc, after?, hform]
      simp only [hbefore, Bool.false_eq_true, if_false, afterPhrase?, hfound, hrest]
      rw [if_neg]
      rw [Bool.not_eq_true]
      exact hbehind

/-- A keyword is found at the front of some cells if it is written there in code and, if it is a
phrase, no character of a name touches it. -/
theorem length?_eq_some_iff (hfilled : keyword.IsFilled) {count : Nat} :
    keyword.length? before cells = some count ↔
      ∃ front rest, cells = front ++ rest ∧ front.length = count ∧
        (∀ cell ∈ front, cell.isCode = true) ∧
        keyword.Fits before (Cell.text front) (Cell.text rest) := by
  constructor
  · exact exists_of_length?
  · rintro ⟨front, rest, rfl, rfl, hcode, hfits⟩
    rw [length?, after?_of_fits hfilled hcode hfits, Option.map_some, List.length_append,
      Nat.add_sub_cancel]

end Keyword

namespace Finder

variable {α : Type} {before : Option Char} {cells : List Cell}

theorem exists_of_ofKeywords {keywords : List (Keyword × α)} {label : α} {count : Nat}
    (hfound : ofKeywords keywords before cells = some (label, count)) :
    ∃ keyword front rest, (keyword, label) ∈ keywords ∧ cells = front ++ rest ∧
      front.length = count ∧ (∀ cell ∈ front, cell.isCode = true) ∧
      keyword.Fits before (Cell.text front) (Cell.text rest) := by
  unfold ofKeywords at hfound
  obtain ⟨⟨keyword, other⟩, hmem, hfound⟩ := List.exists_of_findSome?_eq_some hfound
  obtain ⟨_, hcount, hpair⟩ := Option.map_eq_some_iff.mp hfound
  obtain ⟨rfl, rfl⟩ := Prod.mk.inj hpair
  obtain ⟨front, rest, hcells, hlength, hcode, hfits⟩ := Keyword.exists_of_length? hcount
  exact ⟨keyword, front, rest, hmem, hcells, hlength, hcode, hfits⟩

end Finder

/-! ## Marks -/

/-- Where the first mark of some cells stands. -/
theorem exists_of_cutCells_cons {α : Type} {find : Finder α} {depth : Int} {before : Option Char}
    {cells : List Cell} {head : Text} {cut : Cut α} {cuts : List (Cut α)}
    (hcuts : cutCells find 0 depth before cells = (head, cut :: cuts)) :
    ∃ front back count, cells = front ++ back ∧ Cell.text front = head ∧
      find (head.getLast?.or before) back = some (cut.label, count + 1) ∧
      cut.mark = Cell.text (back.take (count + 1)) ∧
      cutCells find count 0 (back.head?.map Cell.char) back.tail = (cut.body, cuts) := by
  induction cells generalizing depth before head with
  | nil => simp [cutCells] at hcuts
  | cons cell rest ih =>
      rw [cutCells] at hcuts
      dsimp only at hcuts
      split at hcuts
      · rename_i label count hfound
        rw [Option.ite_none_right_eq_some] at hfound
        obtain ⟨htop, hfound⟩ := hfound
        simp only [Prod.mk.injEq, List.cons.injEq] at hcuts
        obtain ⟨rfl, rfl, rfl⟩ := hcuts
        have hdepth : depth = 0 := by
          simp only [Cell.isTopLevel, Bool.and_eq_true, beq_iff_eq] at htop
          exact htop.1.1
        subst hdepth
        exact ⟨[], cell :: rest, count, rfl, rfl, hfound, rfl, rfl⟩
      · obtain ⟨rfl, hrest⟩ := Prod.mk.inj hcuts
        obtain ⟨front, back, count, rfl, hfront, hfound, hmark, hback⟩ :=
          ih (Prod.ext rfl hrest)
        refine ⟨cell :: front, back, count, rfl, ?_, ?_, hmark, hback⟩
        · exact congrArg (cell.char :: ·) hfront
        · rw [Text.getLast?_cons_or]
          exact hfound

end SelectForm

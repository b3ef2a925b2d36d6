import Mathlib
import SelectForm.Proofs.Lexis.FineRow

/-!
# Keywords in a row of characters and literals

A text whose comments are masked is a row of characters of code and literals.  What
is behind a keyword in such a row is again a row, so the search for a keyword can be
followed on rows alone.

A keyword that was found has a text of its own.  `Keyword.Spells` says which texts
that can be: the words of a phrase in any case with blanks between them, or the
symbol.
-/

namespace SelectForm

namespace Lexeme

variable {row : List Lexeme}

/-- A character of code that passes a test. -/
def isMark (test : Char → Bool) : Lexeme → Bool
  | mark c => test c
  | _ => false

theorem isGap_eq (lexeme : Lexeme) : lexeme.isGap = lexeme.isMark Text.isAsciiBlank := by
  cases lexeme <;> rfl

theorem cellsOf_literal (fresh : Bool) (quote : Quote) (content : Text) (row : List Lexeme) :
    ∃ others, cellsOf fresh (literal quote content :: row) =
      ⟨quote.char, .quoted quote, true⟩ :: others := by
  unfold cellsOf cells
  simp [text, Quote.enclose, kind, isCode]

theorem Atomic.head?_cellsOf_isGap (hatomic : Atomic row) (fresh : Bool) :
    (cellsOf fresh row).head?.any Keyword.isGap = row.head?.any isGap := by
  cases row with
  | nil => rfl
  | cons lexeme row =>
      cases lexeme with
      | mark c =>
          rw [cellsOf_mark]
          rfl
      | literal quote content =>
          obtain ⟨others, hcells⟩ := cellsOf_literal fresh quote content row
          rw [hcells]
          rfl
      | word _ | lineComment _ | blockComment _ => simp [Lexeme.IsAtom] at hatomic

theorem Atomic.dropWhile_cellsOf_isGap (hatomic : Atomic row) :
    (cellsOf false row).dropWhile Keyword.isGap = cellsOf false (row.dropWhile isGap) := by
  induction row with
  | nil => rfl
  | cons lexeme row ih =>
      rw [atomic_cons] at hatomic
      cases lexeme with
      | mark c =>
          have hgap : Keyword.isGap ⟨c, .code, false⟩ = isGap (mark c) := rfl
          rw [cellsOf_mark, List.dropWhile_cons, List.dropWhile_cons, hgap, ih hatomic.2]
          split
          · rfl
          · rw [cellsOf_mark]
      | literal quote content =>
          obtain ⟨others, hcells⟩ := cellsOf_literal false quote content row
          rw [List.dropWhile_cons_of_neg (by simp [isGap]), hcells]
          rw [List.dropWhile_cons_of_neg (by simp [Keyword.isGap, Cell.isCode])]
      | word _ | lineComment _ | blockComment _ => exact hatomic.1.elim

theorem Atomic.dropWhile (hatomic : Atomic row) (skip : Lexeme → Bool) :
    Atomic (row.dropWhile skip) :=
  fun lexeme hmem => hatomic lexeme ((List.dropWhile_suffix skip).subset hmem)

end Lexeme

namespace Keyword

/-! ## Matching -/

/-- What is behind the letters of a word. -/
def restWord? : Text → List Lexeme → Option (List Lexeme)
  | [], row => some row
  | c :: word, .mark d :: row => if d.toUpper = c then restWord? word row else none
  | _ :: _, _ => none

/-- What is behind some words, each with a gap in front of it. -/
def restWords? : List Text → List Lexeme → Option (List Lexeme)
  | [], row => some row
  | word :: words, row =>
    if row.head?.any Lexeme.isGap then
      (restWord? word (row.dropWhile Lexeme.isGap)).bind (restWords? words)
    else
      none

/-- What is behind a phrase. -/
def restPhrase? : List Text → List Lexeme → Option (List Lexeme)
  | [], row => some row
  | word :: words, row => (restWord? word row).bind (restWords? words)

/-- What is behind a keyword that stands at the front of a row. -/
def rest? (keyword : Keyword) (before : Option Char) (row : List Lexeme) :
    Option (List Lexeme) :=
  match keyword.form with
  | .symbol text => behindSymbol? text row
  | .phrase words =>
    if before.any Text.isWordChar then none
    else (restPhrase? words row).filter fun rest => !(Lexeme.textOf rest).head?.any Text.isWordChar

variable {keyword : Keyword} {before : Option Char} {row back : List Lexeme}

theorem afterWord?_cellsOf_row (word : Text) (fresh : Bool) (hatomic : Lexeme.Atomic row) :
    afterWord? word (Lexeme.cellsOf fresh row) =
      (restWord? word row).map (Lexeme.cellsOf (fresh && word.isEmpty)) := by
  induction word generalizing fresh row with
  | nil => simp [afterWord?, restWord?]
  | cons c word ih =>
      cases row with
      | nil => rfl
      | cons lexeme row =>
          rw [Lexeme.atomic_cons] at hatomic
          cases lexeme with
          | mark d =>
              have hrest := ih false hatomic.2
              rw [Bool.false_and] at hrest
              rw [Lexeme.cellsOf_mark, afterWord?, restWord?, List.isEmpty_cons, Bool.and_false]
              by_cases hd : d.toUpper = c
              · simpa [Cell.isCode, hd] using hrest
              · simp [hd]
          | literal quote content =>
              obtain ⟨others, hcells⟩ := Lexeme.cellsOf_literal fresh quote content row
              rw [hcells, afterWord?]
              simp [Cell.isCode, restWord?]
          | word _ | lineComment _ | blockComment _ => exact hatomic.1.elim

theorem atomic_of_restWord? {word : Text} (hatomic : Lexeme.Atomic row)
    (hrest : restWord? word row = some back) : Lexeme.Atomic back := by
  induction word generalizing row with
  | nil => exact Option.some.inj hrest ▸ hatomic
  | cons c word ih =>
      cases row with
      | nil => simp [restWord?] at hrest
      | cons lexeme row =>
          rw [Lexeme.atomic_cons] at hatomic
          cases lexeme with
          | mark d =>
              simp only [restWord?, Option.ite_none_right_eq_some] at hrest
              exact ih hatomic.2 hrest.2
          | literal _ _ => simp [restWord?] at hrest
          | word _ | lineComment _ | blockComment _ => exact hatomic.1.elim

theorem afterWords?_cellsOf_row {words : List Text} (hatomic : Lexeme.Atomic row)
    (hwords : ∀ word ∈ words, word ≠ []) :
    afterWords? words (Lexeme.cellsOf false row) = (restWords? words row).map (Lexeme.cellsOf false) := by
  induction words generalizing row with
  | nil => rfl
  | cons word words ih =>
      have hdrop := hatomic.dropWhile Lexeme.isGap
      have hword := afterWord?_cellsOf_row word false hdrop
      rw [Bool.false_and] at hword
      rw [afterWords?, restWords?, hatomic.head?_cellsOf_isGap, hatomic.dropWhile_cellsOf_isGap,
        hword]
      split
      · cases hrest : restWord? word (row.dropWhile Lexeme.isGap) with
        | none => rfl
        | some back =>
            exact ih (atomic_of_restWord? hdrop hrest) fun other hmem =>
              hwords other (List.mem_cons_of_mem word hmem)
      · rfl

theorem afterPhrase?_cellsOf_row {words : List Text} (fresh : Bool) (hatomic : Lexeme.Atomic row)
    (hne : words ≠ []) (hwords : ∀ word ∈ words, word ≠ []) :
    afterPhrase? words (Lexeme.cellsOf fresh row) = (restPhrase? words row).map (Lexeme.cellsOf false) := by
  cases words with
  | nil => exact absurd rfl hne
  | cons word words =>
      have hword := afterWord?_cellsOf_row word fresh hatomic
      rw [List.isEmpty_eq_false_iff.mpr (hwords word List.mem_cons_self), Bool.and_false] at hword
      rw [afterPhrase?, restPhrase?, hword]
      cases hrest : restWord? word row with
      | none => rfl
      | some back =>
          exact afterWords?_cellsOf_row (atomic_of_restWord? hatomic hrest) fun other hmem =>
            hwords other (List.mem_cons_of_mem word hmem)

theorem afterSymbol?_cellsOf_row (symbol : Text) (fresh : Bool) (hatomic : Lexeme.Atomic row) :
    afterSymbol? symbol (Lexeme.cellsOf fresh row) =
      (behindSymbol? symbol row).map (Lexeme.cellsOf (fresh && symbol.isEmpty)) := by
  induction symbol generalizing fresh row with
  | nil => simp [afterSymbol?, behindSymbol?]
  | cons c symbol ih =>
      cases row with
      | nil => rfl
      | cons lexeme row =>
          rw [Lexeme.atomic_cons] at hatomic
          cases lexeme with
          | mark d =>
              have hrest := ih false hatomic.2
              rw [Bool.false_and] at hrest
              rw [Lexeme.cellsOf_mark, afterSymbol?, behindSymbol?, List.isEmpty_cons, Bool.and_false]
              by_cases hd : d = c
              · simpa [Cell.isCodeChar, Cell.isCode, hd] using hrest
              · simp [Cell.isCodeChar, hd]
          | literal quote content =>
              obtain ⟨others, hcells⟩ := Lexeme.cellsOf_literal fresh quote content row
              rw [hcells, afterSymbol?]
              simp [Cell.isCodeChar, Cell.isCode, behindSymbol?]
          | word _ | lineComment _ | blockComment _ => exact hatomic.1.elim

/-- A keyword is found among the cells of a row where it is found in the row. -/
theorem after?_cellsOf_row (fresh : Bool) (hplain : keyword.isPlain = true)
    (hatomic : Lexeme.Atomic row) :
    keyword.after? before (Lexeme.cellsOf fresh row) =
      (keyword.rest? before row).map (Lexeme.cellsOf false) := by
  unfold isPlain at hplain
  unfold after? rest?
  cases hform : keyword.form with
  | symbol symbol =>
      simp only [hform, Bool.and_eq_true, Bool.not_eq_true'] at hplain
      have hsymbol := afterSymbol?_cellsOf_row symbol fresh hatomic
      rwa [hplain.1, Bool.and_false] at hsymbol
  | phrase words =>
      simp only [hform, Bool.and_eq_true, Bool.not_eq_true', List.isEmpty_eq_false_iff,
        List.all_eq_true] at hplain
      have hphrase := afterPhrase?_cellsOf_row fresh hatomic hplain.1 fun word hmem =>
        (hplain.2 word hmem).1
      simp only [hphrase]
      split
      · rfl
      · cases restPhrase? words row with
        | none => rfl
        | some back =>
            have hhead : (Lexeme.cellsOf false back).head?.any (fun cell => Text.isWordChar cell.char) =
                (Lexeme.textOf back).head?.any Text.isWordChar := by
              rw [← Lexeme.head?_textOf_cellsOf false, Option.any_map]
            rw [Option.map_some, Option.filter_some]
            simp only [hhead]
            cases (Lexeme.textOf back).head?.any Text.isWordChar <;> rfl

theorem length?_cellsOf_row (fresh : Bool) (hplain : keyword.isPlain = true)
    (hatomic : Lexeme.Atomic row) :
    keyword.length? before (Lexeme.cellsOf fresh row) =
      (keyword.rest? before row).map fun back =>
        (Lexeme.textOf row).length - (Lexeme.textOf back).length := by
  rw [length?, after?_cellsOf_row fresh hplain hatomic, Option.map_map]
  simp only [Function.comp_def, Lexeme.length_cellsOf]

/-! ## The text of a keyword that was found -/

/-- Some words in any case, each with blanks in front of it. -/
inductive SpellsWords : List Text → Text → Prop
  | nil : SpellsWords [] []
  | cons {word gap text rest : Text} {words : List Text} (hne : gap ≠ [])
      (hgap : ∀ c ∈ gap, Text.isAsciiBlank c = true) (htext : text.map Char.toUpper = word)
      (hrest : SpellsWords words rest) : SpellsWords (word :: words) (gap ++ (text ++ rest))

/-- A text that writes a keyword. -/
def Spells (keyword : Keyword) (text : Text) : Prop :=
  match keyword.form with
  | .symbol symbol => text = symbol
  | .phrase [] => text = []
  | .phrase (word :: words) =>
    ∃ first rest, text = first ++ rest ∧ first.map Char.toUpper = word ∧ SpellsWords words rest

/-- What is written in any case of capitals are letters. -/
theorem isAlpha_of_map_toUpper {word text : Text} (hword : ∀ c ∈ word, c.isUpper = true)
    (htext : text.map Char.toUpper = word) : ∀ c ∈ text, c.isAlpha = true := by
  subst htext
  intro c hc
  rw [← Char.isUpper_toUpper_eq_isAlpha]
  exact hword _ (List.mem_map_of_mem hc)

theorem restWord?_eq_some_iff {word : Text} :
    restWord? word row = some back ↔
      ∃ text, row = Lexeme.marks text ++ back ∧ text.map Char.toUpper = word := by
  induction word generalizing row with
  | nil => simp [restWord?, Lexeme.marks]
  | cons c word ih =>
      constructor
      · intro hrest
        cases row with
        | nil => simp [restWord?] at hrest
        | cons lexeme row =>
            cases lexeme with
            | mark d =>
                simp only [restWord?, Option.ite_none_right_eq_some] at hrest
                obtain ⟨text, rfl, htext⟩ := ih.mp hrest.2
                exact ⟨d :: text, rfl, by rw [List.map_cons, hrest.1, htext]⟩
            | literal _ _ | word _ | lineComment _ | blockComment _ => simp [restWord?] at hrest
      · rintro ⟨text, rfl, htext⟩
        cases text with
        | nil => simp at htext
        | cons d text =>
            rw [List.map_cons, List.cons.injEq] at htext
            rw [Lexeme.marks, List.map_cons, List.cons_append, restWord?, if_pos htext.1]
            exact ih.mpr ⟨text, rfl, htext.2⟩

theorem exists_gap (row : List Lexeme) :
    ∃ gap, row = Lexeme.marks gap ++ row.dropWhile Lexeme.isGap ∧ ∀ c ∈ gap, Text.isAsciiBlank c = true := by
  induction row with
  | nil => exact ⟨[], rfl, List.forall_mem_nil _⟩
  | cons lexeme row ih =>
      rw [List.dropWhile_cons]
      cases hgap : lexeme.isGap with
      | false => exact ⟨[], rfl, List.forall_mem_nil _⟩
      | true =>
          cases lexeme with
          | mark c =>
              obtain ⟨gap, hrow, hblank⟩ := ih
              refine ⟨c :: gap, ?_, List.forall_mem_cons.mpr ⟨hgap, hblank⟩⟩
              rw [if_pos rfl, Lexeme.marks, List.map_cons, List.cons_append]
              exact congrArg _ hrow
          | literal _ _ | word _ | lineComment _ | blockComment _ => simp [Lexeme.isGap] at hgap

theorem exists_of_restWords? {words : List Text} (hrest : restWords? words row = some back) :
    ∃ text, row = Lexeme.marks text ++ back ∧ SpellsWords words text := by
  induction words generalizing row with
  | nil => exact ⟨[], Option.some.inj hrest, .nil⟩
  | cons word words ih =>
      rw [restWords?] at hrest
      split at hrest
      · rename_i hhead
        rw [Option.bind_eq_some_iff] at hrest
        obtain ⟨middle, hword, hwords⟩ := hrest
        obtain ⟨gap, hrow, hblank⟩ := exists_gap row
        obtain ⟨text, hdrop, htext⟩ := restWord?_eq_some_iff.mp hword
        obtain ⟨rest, rfl, hspells⟩ := ih hwords
        have hne : gap ≠ [] := by
          rintro rfl
          -- The row begins with a gap, and so does not equal what is behind its gap.
          have hfirst := List.head?_dropWhile_not Lexeme.isGap row
          rw [Lexeme.marks, List.map_nil, List.nil_append] at hrow
          rw [← hrow] at hfirst
          cases row with
          | nil => simp at hhead
          | cons lexeme row =>
              simp only [List.head?_cons, Option.any_some] at hfirst hhead
              rw [hhead] at hfirst
              exact absurd hfirst (by simp)
        refine ⟨gap ++ (text ++ rest), ?_, .cons hne hblank htext hspells⟩
        rw [hrow, hdrop]
        simp [Lexeme.marks]
      · exact absurd hrest (by simp)

/-- What was found of a keyword is a text that writes it. -/
theorem exists_of_rest? (hrest : keyword.rest? before row = some back) :
    ∃ text, row = Lexeme.marks text ++ back ∧ keyword.Spells text := by
  unfold rest? at hrest
  unfold Spells
  cases hform : keyword.form with
  | symbol symbol =>
      simp only [hform] at hrest
      refine ⟨symbol, ?_, rfl⟩
      clear hform
      induction symbol generalizing row with
      | nil => exact Option.some.inj hrest
      | cons c symbol ih =>
          cases row with
          | nil => simp [behindSymbol?] at hrest
          | cons lexeme row =>
              cases lexeme with
              | mark d =>
                  simp only [behindSymbol?, Option.ite_none_right_eq_some] at hrest
                  rw [hrest.1, ih hrest.2]
                  rfl
              | literal _ _ | word _ | lineComment _ | blockComment _ =>
                  simp [behindSymbol?] at hrest
  | phrase words =>
      simp only [hform, Option.ite_none_left_eq_some, Option.filter_eq_some_iff] at hrest
      cases words with
      | nil => exact ⟨[], Option.some.inj hrest.2.1, rfl⟩
      | cons word words =>
          obtain ⟨middle, hword, hwords⟩ := Option.bind_eq_some_iff.mp hrest.2.1
          obtain ⟨first, rfl, hfirst⟩ := restWord?_eq_some_iff.mp hword
          obtain ⟨others, rfl, hothers⟩ := exists_of_restWords? hwords
          refine ⟨first ++ others, ?_, first, others, rfl, hfirst, hothers⟩
          simp [Lexeme.marks]

theorem bounded_of_rest? {words : List Text} (hform : keyword.form = .phrase words)
    (hrest : keyword.rest? before row = some back) :
    before.any Text.isWordChar = false ∧ (Lexeme.textOf back).head?.any Text.isWordChar = false := by
  simp only [rest?, hform, Option.ite_none_left_eq_some, Option.filter_eq_some_iff] at hrest
  exact ⟨by simpa using hrest.1, by simpa using hrest.2.2⟩

theorem spells_iff_of_word {word text : Text} (hform : keyword.form = .phrase [word]) :
    keyword.Spells text ↔ text.map Char.toUpper = word := by
  rw [Spells, hform]
  constructor
  · rintro ⟨first, rest, rfl, hfirst, hrest⟩
    cases hrest
    rwa [List.append_nil]
  · exact fun htext => ⟨text, [], (List.append_nil text).symm, htext, .nil⟩

theorem rest?_of_word {word : Text} (hform : keyword.form = .phrase [word]) :
    keyword.rest? before row =
      if before.any Text.isWordChar then none
      else (restWord? word row).filter fun rest =>
        !(Lexeme.textOf rest).head?.any Text.isWordChar := by
  have hwords : ∀ row, restWords? [] row = some row := fun _ => rfl
  simp only [rest?, hform, restPhrase?, hwords, Option.bind_fun_some]

/-- A word in front of a row is not found where another one stands. -/
theorem restWord?_of_ne {word other text : Text} (hne : ¬ other <+: word) (hne' : ¬ word <+: other)
    (htext : text.map Char.toUpper = word) : restWord? other (Lexeme.marks text ++ back) = none := by
  induction other generalizing word text with
  | nil => exact absurd (List.nil_prefix) hne
  | cons c other ih =>
      cases text with
      | nil => exact absurd (htext ▸ List.nil_prefix) hne'
      | cons d text =>
          subst htext
          rw [Lexeme.marks, List.map_cons, List.cons_append, ← Lexeme.marks, restWord?]
          split
          · rename_i hd
            subst hd
            exact ih (fun h => hne (List.cons_prefix_cons.mpr ⟨rfl, h⟩))
              (fun h => hne' (List.cons_prefix_cons.mpr ⟨rfl, h⟩)) rfl
          · rfl

/-- The texts of a keyword are not empty. -/
theorem Spells.ne_nil {text : Text} (hspells : keyword.Spells text)
    (hplain : keyword.isPlain = true) : text ≠ [] := by
  unfold isPlain at hplain
  unfold Spells at hspells
  cases hform : keyword.form with
  | symbol symbol =>
      simp only [hform, Bool.and_eq_true, Bool.not_eq_true', List.isEmpty_eq_false_iff]
        at hplain hspells
      exact hspells ▸ hplain.1
  | phrase words =>
      simp only [hform] at hplain hspells
      cases words with
      | nil => simp at hplain
      | cons word words =>
          obtain ⟨first, rest, rfl, hfirst, -⟩ := hspells
          have hword : word ≠ [] := by
            simp only [List.isEmpty_cons, Bool.not_false, List.all_cons, Bool.true_and,
              Bool.and_eq_true, Bool.not_eq_true', List.isEmpty_eq_false_iff] at hplain
            exact hplain.1.1
          rintro heq
          obtain ⟨rfl, -⟩ := List.append_eq_nil_iff.mp heq
          exact hword hfirst.symm

theorem exists_marks_of_rest? (hplain : keyword.isPlain = true)
    (hrest : keyword.rest? before row = some back) :
    ∃ c text, row = Lexeme.marks (c :: text) ++ back := by
  obtain ⟨text, hrow, hspells⟩ := exists_of_rest? hrest
  obtain ⟨c, text, rfl⟩ := List.exists_cons_of_ne_nil (hspells.ne_nil hplain)
  exact ⟨c, text, hrow⟩

theorem length_lt_of_rest? (hplain : keyword.isPlain = true)
    (hrest : keyword.rest? before row = some back) : back.length < row.length := by
  obtain ⟨c, text, rfl⟩ := exists_marks_of_rest? hplain hrest
  simp [Lexeme.marks]

theorem length_textOf_lt_of_rest? (hplain : keyword.isPlain = true)
    (hrest : keyword.rest? before row = some back) :
    (Lexeme.textOf back).length < (Lexeme.textOf row).length := by
  obtain ⟨c, text, rfl⟩ := exists_marks_of_rest? hplain hrest
  simp [Lexeme.textOf_append, Lexeme.textOf_marks]

/-- A plain keyword whose symbol has no blanks. -/
def isFirm (keyword : Keyword) : Bool :=
  keyword.isPlain &&
    match keyword.form with
    | .phrase _ => true
    | .symbol symbol => !symbol.any Text.isAsciiBlank

theorem isPlain_of_isFirm (hfirm : keyword.isFirm = true) : keyword.isPlain = true := by
  unfold isFirm at hfirm
  rw [Bool.and_eq_true] at hfirm
  exact hfirm.1

/-- No keyword stands at a blank. -/
theorem rest?_of_isAsciiBlank {c : Char} (hfirm : keyword.isFirm = true)
    (hblank : Text.isAsciiBlank c = true) : keyword.rest? before (.mark c :: row) = none := by
  simp only [isFirm, isPlain, Bool.and_eq_true] at hfirm
  unfold rest?
  cases hform : keyword.form with
  | symbol symbol =>
      simp only [hform] at hfirm ⊢
      cases symbol with
      | nil => simp at hfirm
      | cons d symbol =>
          have hne : c ≠ d := by
            rintro rfl
            simp [hblank] at hfirm
          simp [behindSymbol?, hne]
  | phrase words =>
      simp only [hform, List.isEmpty_eq_false_iff, List.all_eq_true, Bool.and_eq_true,
        Bool.not_eq_true'] at hfirm ⊢
      cases words with
      | nil => exact absurd rfl hfirm.1.1
      | cons word words =>
          obtain ⟨hword, hupper⟩ := hfirm.1.2 word List.mem_cons_self
          cases word with
          | nil => exact absurd rfl hword
          | cons d word =>
              have hne : c.toUpper ≠ d := by
                rintro rfl
                have hletter := Text.isWordChar_of_isUpper_toUpper
                  (hupper c.toUpper List.mem_cons_self)
                rw [Text.not_isWordChar_of_isAsciiBlank hblank] at hletter
                exact absurd hletter Bool.false_ne_true
              simp [restPhrase?, restWord?, hne]

end Keyword

/-! ## Finders on rows -/

/-- Recognises a mark at the front of a row, and tells what is behind it. -/
abbrev RowFinder (α : Type) := Option Char → List Lexeme → Option (α × List Lexeme)

namespace RowFinder

open Lexeme

/-- Finds the first of some labelled keywords that stands at a place. -/
def ofKeywords {α : Type} (keywords : List (Keyword × α)) : RowFinder α :=
  fun before row =>
    keywords.findSome? fun entry => (entry.1.rest? before row).map fun back => (entry.2, back)

/-- Finds commas. -/
def comma : RowFinder Unit
  | _, mark ',' :: row => some ((), row)
  | _, _ => none

end RowFinder

namespace Finder

open Lexeme

/-- A finder that finds the same marks in a row and among its cells. -/
structure Follows {α : Type} (find : Finder α) (seek : RowFinder α) : Prop where
  found : ∀ (before : Option Char) (fresh : Bool) (row : List Lexeme), Atomic row →
    find before (cellsOf fresh row) =
      (seek before row).map fun found =>
        (found.1, (textOf row).length - (textOf found.2).length)
  /-- A mark is written with characters of code. -/
  spelled : ∀ (before : Option Char) (row : List Lexeme) (label : α) (back : List Lexeme),
    seek before row = some (label, back) → ∃ text, text ≠ [] ∧ row = marks text ++ back
  /-- No mark begins with a blank. -/
  silent : ∀ (before : Option Char) (c : Char) (row : List Lexeme),
    Text.isAsciiBlank c = true → seek before (mark c :: row) = none

theorem ofKeywords_follows {α : Type} {keywords : List (Keyword × α)}
    (hfirm : ∀ entry ∈ keywords, entry.1.isFirm = true) :
    (ofKeywords keywords).Follows (RowFinder.ofKeywords keywords) := by
  constructor
  · intro before fresh row hatomic
    rw [ofKeywords_apply, RowFinder.ofKeywords]
    induction keywords with
    | nil => rfl
    | cons entry keywords ih =>
        have hothers := ih fun other hmem => hfirm other (List.mem_cons_of_mem entry hmem)
        have hplain := Keyword.isPlain_of_isFirm (hfirm entry List.mem_cons_self)
        rw [List.findSome?_cons, List.findSome?_cons,
          Keyword.length?_cellsOf_row fresh hplain hatomic]
        cases entry.1.rest? before row with
        | none => exact hothers
        | some back => rfl
  · intro before row label back hseek
    obtain ⟨entry, hmem, hfound⟩ := List.exists_of_findSome?_eq_some hseek
    obtain ⟨found, hrest, hpair⟩ := Option.map_eq_some_iff.mp hfound
    obtain ⟨text, hrow, hspells⟩ := Keyword.exists_of_rest? hrest
    rw [← (Prod.mk.inj hpair).2]
    exact ⟨text, hspells.ne_nil (Keyword.isPlain_of_isFirm (hfirm entry hmem)), hrow⟩
  · intro before c row hblank
    rw [RowFinder.ofKeywords, List.findSome?_eq_none_iff]
    intro entry hmem
    rw [Keyword.rest?_of_isAsciiBlank (hfirm entry hmem) hblank]
    rfl

theorem comma_follows : comma.Follows RowFinder.comma := by
  constructor
  · intro before fresh row hatomic
    cases row with
    | nil => rfl
    | cons lexeme row =>
        cases lexeme with
        | mark c =>
            rw [cellsOf_mark]
            by_cases hc : c = ','
            · subst hc
              simp [comma, RowFinder.comma, Lexeme.text]
            · simp [comma, RowFinder.comma, hc]
        | literal quote content =>
            obtain ⟨others, hcells⟩ := cellsOf_literal fresh quote content row
            rw [hcells]
            cases quote <;> rfl
        | word _ | lineComment _ | blockComment _ => simp [Lexeme.IsAtom] at hatomic
  · intro before row label back hseek
    unfold RowFinder.comma at hseek
    split at hseek
    · obtain ⟨-, rfl⟩ := Prod.mk.inj (Option.some.inj hseek)
      exact ⟨[','], by simp, rfl⟩
    · exact absurd hseek (by simp)
  · intro before c row hblank
    have hc : c ≠ ',' := by
      rintro rfl
      exact absurd hblank (by decide)
    simp [RowFinder.comma, hc]

end Finder

end SelectForm

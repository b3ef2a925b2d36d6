import Mathlib
import SelectForm.Proofs.Lexis.MaskedRow
import SelectForm.Proofs.Text.Respelled

/-!
# Texts with their code recased

The lexical automaton looks at no letter.  So a text whose code is recased is read in the same
modes as the text itself, character by character, and has literals and comments at the same
places.  Rows are recased piece by piece.
-/

namespace SelectForm

/-- The character of a cell, recased if it is code. -/
def Cell.recased (f : Char → Char) (cell : Cell) : Char := if cell.isCode then f cell.char else cell.char

/-- A text with a function applied to the characters of its code. -/
def Text.recaseCode (f : Char → Char) (text : Text) : Text := text.cells.map (Cell.recased f)

open Lexeme

variable {f : Char → Char}

/-! ## The automaton -/

namespace Mode

/-- A text that is read from a mode on, with its code recased. -/
def recase (f : Char → Char) (mode : Mode) (text : Text) : Text := (mode.cells text).map (Cell.recased f)

/-- A cell with its character recased. -/
def recaseCell (f : Char → Char) (cell : Cell) : Cell := { cell with char := cell.recased f }

/-- What may stand behind a character in a text that is recased. -/
def SameNext (f : Char → Char) (next next' : Option Char) : Prop :=
  Option.Rel (fun c d => d = c ∨ d = f c) next next'

theorem SameNext.eq_iff {next next' : Option Char} {c : Char} (hrecase : Text.KeepsLetters f)
    (hletter : c.isAlpha = false) (hnext : SameNext f next next') : next' = some c ↔ next = some c := by
  cases hnext with
  | none => rfl
  | @some d e hsame =>
      rw [Option.some_inj, Option.some_inj]
      rcases hsame with rfl | rfl
      · rfl
      · exact hrecase.eq_iff hletter

theorem ofChar?_recase (hrecase : Text.KeepsLetters f) (c : Char) :
    Quote.ofChar? (f c) = Quote.ofChar? c := by
  simp only [Quote.ofChar?, hrecase.eq_iff (show '\''.isAlpha = false by decide),
    hrecase.eq_iff (show '"'.isAlpha = false by decide)]

theorem isAlpha_char (quote : Quote) : quote.char.isAlpha = false := by cases quote <;> rfl

/-- One step reads a character of code and the character recased in the same way. -/
theorem enter_recase {next next' : Option Char} (fresh : Bool) (c : Char)
    (hrecase : Text.KeepsLetters f) (hnext : SameNext f next next') :
    enter fresh ((enter fresh c next).1.recased f) next' =
      (recaseCell f (enter fresh c next).1, (enter fresh c next).2) := by
  have hhyphen := hnext.eq_iff hrecase (show '-'.isAlpha = false by decide)
  have hstar := hnext.eq_iff hrecase (show '*'.isAlpha = false by decide)
  have hfirst := hrecase.eq_iff (c := c) (show '-'.isAlpha = false by decide)
  have hslash := hrecase.eq_iff (c := c) (show '/'.isAlpha = false by decide)
  have hquote := ofChar?_recase hrecase c
  unfold enter
  cases hopen : Quote.ofChar? c with
  | some quote => simp [recaseCell, Cell.recased, Cell.isCode, hopen]
  | none =>
      by_cases hline : c = '-' ∧ next = some '-'
      · obtain ⟨rfl, hline⟩ := hline
        simp [recaseCell, Cell.recased, Cell.isCode, hopen, hline, hhyphen]
      · by_cases hblock : c = '/' ∧ next = some '*'
        · obtain ⟨rfl, hblock⟩ := hblock
          simp [recaseCell, Cell.recased, Cell.isCode, hopen, hblock, hstar]
        · simp [recaseCell, Cell.recased, Cell.isCode, hopen, hline, hblock, hquote, hfirst, hslash,
            hhyphen, hstar]

theorem step_recase {next next' : Option Char} (mode : Mode) (c : Char)
    (hrecase : Text.KeepsLetters f) (hnext : SameNext f next next') :
    mode.step ((mode.step c next).1.recased f) next' =
      (recaseCell f (mode.step c next).1, (mode.step c next).2) := by
  cases mode with
  | between => exact enter_recase true c hrecase hnext
  | code => exact enter_recase false c hrecase hnext
  | quoted quote =>
      simp only [step, Cell.recased, Cell.isCode, hnext.eq_iff hrecase (isAlpha_char quote), recaseCell]
      rfl
  | doubled quote => rfl
  | line =>
      by_cases hc : c = '\n'
      · subst hc
        simp [step, Cell.recased, Cell.isCode, recaseCell, hrecase.eq_of_not_isAlpha]
      · simp [step, Cell.recased, Cell.isCode, recaseCell, hc]
  | blockHead => rfl
  | block =>
      simp only [step, Cell.recased, Cell.isCode, recaseCell,
        hnext.eq_iff hrecase (show '/'.isAlpha = false by decide)]
      rfl
  | blockTail => rfl

theorem sameNext_head? (mode : Mode) (text : Text) :
    SameNext f text.head? (mode.recase f text).head? := by
  cases text with
  | nil => exact .none
  | cons c rest =>
      refine .some ?_
      rw [Cell.recased, char_step]
      split
      · exact .inr rfl
      · exact .inl rfl

/-- A text with its code recased is read in the modes of the text. -/
theorem cells_recase (mode : Mode) (text : Text) (hrecase : Text.KeepsLetters f) :
    mode.cells (mode.recase f text) = (mode.cells text).map (recaseCell f) ∧
      mode.after (mode.recase f text) = mode.after text := by
  induction text generalizing mode with
  | nil => exact ⟨rfl, rfl⟩
  | cons c rest ih =>
      have hstep := step_recase mode c hrecase (sameNext_head? (mode.step c rest.head?).2 rest)
      have hrest := ih (mode.step c rest.head?).2
      have hcons : mode.recase f (c :: rest) = (mode.step c rest.head?).1.recased f ::
          (mode.step c rest.head?).2.recase f rest := rfl
      rw [hcons, cells, cells, after, after, hstep, List.map_cons]
      exact ⟨by rw [hrest.1], hrest.2⟩

end Mode

theorem Text.endsOpen_recaseCode (hrecase : Text.KeepsLetters f) (text : Text) :
    (text.recaseCode f).endsOpen = text.endsOpen :=
  congrArg Mode.isOpen (Mode.cells_recase .between text hrecase).2

/-! ## Rows -/

namespace Lexeme

variable {row : List Lexeme} {next next' : Option Char} {lexeme : Lexeme}

/-- A piece with a function applied to its characters if it is code. -/
def recase (f : Char → Char) : Lexeme → Lexeme
  | word text => word (text.map f)
  | mark c => mark (f c)
  | lexeme => lexeme

theorem map_recased_cellsOf (fresh : Bool) (row : List Lexeme) :
    (cellsOf fresh row).map (Cell.recased f) = textOf (row.map (recase f)) := by
  induction row generalizing fresh with
  | nil => rfl
  | cons lexeme row ih =>
      rw [cellsOf_cons, List.map_append, ih, List.map_cons, textOf_cons]
      congr 1
      have htext := text_cells fresh lexeme
      rw [Cell.text] at htext
      have hkind : ∀ cell ∈ lexeme.cells fresh, cell.isCode = lexeme.isCode := fun cell hmem => by
        rw [Cell.isCode, kind_of_mem_cells hmem, isCode]
      have hcells : (lexeme.cells fresh).map (Cell.recased f) =
          lexeme.text.map (if lexeme.isCode then f else id) := by
        rw [← htext, List.map_map]
        refine List.map_congr_left fun cell hmem => ?_
        rw [Cell.recased, hkind cell hmem, Function.comp_apply]
        split <;> rfl
      rw [hcells]
      cases lexeme with
      | word text => rfl
      | mark c => rfl
      | literal quote content => exact List.map_id _
      | lineComment content => exact List.map_id _
      | blockComment content => exact List.map_id _

/-- Recasing the code of the text of a row recases its pieces. -/
theorem Fine.recaseCode_textOf (hfine : Fine none row) :
    (textOf row).recaseCode f = textOf (row.map (recase f)) := by
  rw [Text.recaseCode, hfine.cells_textOf, map_recased_cellsOf]

theorem EndsBefore.recase (hrecase : Text.KeepsLetters f) (hfine : lexeme.IsFine)
    (hnext : Mode.SameNext f next next') (hends : lexeme.EndsBefore next) :
    (lexeme.recase f).EndsBefore next' := by
  cases lexeme with
  | word text => exact hfine.elim
  | mark c =>
      rw [Lexeme.recase, EndsBefore, hrecase.eq_iff (by decide), hrecase.eq_iff (by decide),
        hnext.eq_iff hrecase (by decide), hnext.eq_iff hrecase (by decide)]
      exact hends
  | literal quote content => exact mt (hnext.eq_iff hrecase (Mode.isAlpha_char quote)).mp hends
  | lineComment content =>
      rcases hends with hends | hends
      · subst hends
        cases hnext
        exact .inl rfl
      · exact .inr ((hnext.eq_iff hrecase (by decide)).mpr hends)
  | blockComment content => trivial

theorem sameNext_textOf (hfine : Fine none row) :
    Mode.SameNext f (textOf row).head? (textOf (row.map (recase f))).head? := by
  rw [← hfine.recaseCode_textOf]
  exact Mode.sameNext_head? .between (textOf row)

theorem Fine.recase (hrecase : Text.KeepsLetters f) (hfine : Fine none row) :
    Fine none (row.map (Lexeme.recase f)) := by
  induction row with
  | nil => trivial
  | cons lexeme row ih =>
      obtain ⟨hlexeme, hends, hrow⟩ := hfine
      refine ⟨?_, ?_, ih hrow⟩
      · cases lexeme with
        | mark c => exact (Mode.ofChar?_recase hrecase c).trans hlexeme
        | word _ | literal _ _ | lineComment _ | blockComment _ => exact hlexeme
      · rw [Option.or_none] at hends ⊢
        exact hends.recase hrecase hlexeme (sameNext_textOf hrow)

/-- A masked row and the row recased and masked are alike. -/
theorem Fine.covered_recase_alike (hrecase : Text.KeepsLetters f) (hfine : Fine none row) :
    Alike (Respelled f Eq) False (covered row) (covered (row.map (Lexeme.recase f))) := by
  induction row with
  | nil => exact .nil
  | cons lexeme row ih =>
      obtain ⟨hlexeme, -, hrow⟩ := hfine
      rw [List.map_cons, covered, covered, List.flatMap_cons, List.flatMap_cons]
      refine Alike.append ?_ (ih hrow)
      have hspaces : ∀ count : Nat, Alike (Respelled f Eq) False (marks (List.replicate count ' '))
          (marks (List.replicate count ' ')) := by
        intro count
        have hspace : f ' ' = ' ' := hrecase.eq_of_not_isAlpha (by decide)
        have halike := @Text.Respelled.map f False (List.replicate count ' ')
        rwa [Text.Respelled, List.map_replicate, hspace] at halike
      cases lexeme with
      | word _ => exact hlexeme.elim
      | mark c => exact .cons rfl .nil
      | literal quote content => exact .cons ⟨rfl, rfl⟩ .nil
      | lineComment content => exact hspaces _
      | blockComment content => exact hspaces _

end Lexeme

end SelectForm

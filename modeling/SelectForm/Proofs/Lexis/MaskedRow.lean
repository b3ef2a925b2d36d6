import Mathlib
import SelectForm.Lexis.Span
import SelectForm.Proofs.Lexis.FineRow
import SelectForm.Proofs.Lexis.RowText

/-!
# Masking comments

Masking puts spaces in the place of comments, as many as the comments have bytes.  So a
row whose comments are masked is a row of characters of code and literals, and it is read
as the pieces that it is made of.
-/

namespace SelectForm

open Lexeme

namespace Lexeme

/-- A piece with its text masked if it is a comment. -/
def masked (lexeme : Lexeme) : Text :=
  if lexeme.kind.isComment then List.replicate (Text.size lexeme.text) ' ' else lexeme.text

theorem eq_space_of_mem_masked {lexeme : Lexeme} {c : Char}
    (hcomment : lexeme.kind.isComment = true) (hmem : c ∈ lexeme.masked) : c = ' ' := by
  rw [masked, if_pos hcomment] at hmem
  exact List.eq_of_mem_replicate hmem

/-- What masking puts in the place of a character. -/
def maskedCell (cell : Cell) : Text :=
  if cell.kind.isComment then List.replicate cell.char.utf8Size ' ' else [cell.char]

theorem flatMap_maskedCell {kind : SpanKind} {cells : List Cell}
    (hkind : ∀ cell ∈ cells, cell.kind = kind) :
    cells.flatMap maskedCell =
      if kind.isComment then List.replicate (Text.size (Cell.text cells)) ' '
      else Cell.text cells := by
  induction cells with
  | nil => simp [Cell.text]
  | cons cell cells ih =>
      have hcell := hkind cell List.mem_cons_self
      rw [List.flatMap_cons, ih fun other hmem => hkind other (List.mem_cons_of_mem cell hmem),
        maskedCell, hcell]
      have htext : Cell.text (cell :: cells) = cell.char :: Cell.text cells := rfl
      rw [htext]
      split
      · rw [Text.size_cons, List.replicate_append_replicate]
      · rfl

theorem flatMap_maskedCell_cellsOf (fresh : Bool) (row : List Lexeme) :
    (cellsOf fresh row).flatMap maskedCell = row.flatMap masked := by
  induction row generalizing fresh with
  | nil => rfl
  | cons lexeme rest ih =>
      rw [cellsOf_cons, List.flatMap_append, ih, List.flatMap_cons,
        flatMap_maskedCell fun cell hmem => kind_of_mem_cells hmem, text_cells, masked]

theorem Lexed.maskComments_textOf {lexemes : List Lexeme} (hlexed : Lexed none lexemes) :
    (textOf lexemes).maskComments = lexemes.flatMap masked := by
  rw [Text.maskComments, hlexed.cells_textOf]
  exact flatMap_maskedCell_cellsOf true lexemes

/-! ## Rows without comments -/

/-- The pieces that masking puts in the place of a piece. -/
def cover (lexeme : Lexeme) : List Lexeme :=
  if lexeme.kind.isComment then marks (List.replicate (Text.size lexeme.text) ' ') else [lexeme]

/-- A row with spaces in the place of its comments. -/
def covered (row : List Lexeme) : List Lexeme := row.flatMap cover

variable {row : List Lexeme} {lexeme : Lexeme} {next : Option Char}

theorem textOf_cover (lexeme : Lexeme) : textOf (cover lexeme) = lexeme.masked := by
  rw [cover, masked]
  split
  · exact textOf_marks _
  · simp

theorem textOf_covered (row : List Lexeme) : textOf (covered row) = row.flatMap masked := by
  rw [covered, textOf, List.flatMap_assoc]
  exact List.flatMap_congr fun lexeme _ => textOf_cover lexeme

theorem Fine.maskComments_textOf (hfine : Fine none row) :
    (textOf row).maskComments = textOf (covered row) := by
  rw [Text.maskComments, hfine.cells_textOf, textOf_covered]
  exact flatMap_maskedCell_cellsOf true row

theorem endsBefore_space (hatom : lexeme.IsAtom) : lexeme.EndsBefore (some ' ') := by
  cases lexeme with
  | mark c => simp [EndsBefore]
  | literal quote content => cases quote <;> simp [EndsBefore, Quote.char]
  | word _ | lineComment _ | blockComment _ => exact hatom.elim

theorem IsFine.isAtom (hfine : lexeme.IsFine) (hcomment : lexeme.kind.isComment = false) :
    lexeme.IsAtom := by
  cases lexeme with
  | mark _ | literal _ _ => trivial
  | word _ => exact hfine.elim
  | lineComment _ | blockComment _ => simp [kind, SpanKind.isComment] at hcomment

theorem IsFine.size_pos (hfine : lexeme.IsFine) : 0 < Text.size lexeme.text := by
  obtain ⟨c, rest, htext⟩ := List.exists_cons_of_ne_nil hfine.text_ne_nil
  rw [htext, Text.size_cons]
  have hc := c.utf8Size_pos
  omega

/-- What is in front of a masked row is in front of the row, or a space. -/
theorem head?_covered (hfine : Fine next row) :
    (textOf (covered row)).head? = (textOf row).head? ∨
      (textOf (covered row)).head? = some ' ' := by
  cases row with
  | nil => exact .inl rfl
  | cons lexeme row =>
      have hne := hfine.1.text_ne_nil
      rw [covered, List.flatMap_cons, textOf_append, textOf_cover, textOf_cons, masked]
      split
      · obtain ⟨count, hcount⟩ := Nat.exists_eq_succ_of_ne_zero hfine.1.size_pos.ne'
        rw [hcount]
        exact .inr rfl
      · left
        rw [List.head?_append_of_ne_nil _ hne, List.head?_append_of_ne_nil _ hne]

theorem atomic_covered (hfine : ∀ lexeme ∈ row, lexeme.IsFine) : Atomic (covered row) := by
  intro piece hmem
  obtain ⟨lexeme, hlexeme, hpiece⟩ := List.mem_flatMap.mp hmem
  rw [cover] at hpiece
  split at hpiece
  · exact atomic_marks _ piece hpiece
  · rename_i hcomment
    rw [List.mem_singleton.mp hpiece]
    exact (hfine lexeme hlexeme).isAtom (Bool.eq_false_of_not_eq_true hcomment)

/-- A masked row is finely cut in front of what is behind the row, and in front of a space. -/
theorem Fine.fine_covered {other : Option Char} (hfine : Fine next row)
    (hother : other = next ∨ other = some ' ') : Fine other (covered row) := by
  induction row with
  | nil => trivial
  | cons lexeme row ih =>
      obtain ⟨hlexeme, hends, hrow⟩ := hfine
      have hrest := ih hrow
      rw [covered, List.flatMap_cons, cover]
      split
      · generalize Text.size lexeme.text = count
        induction count with
        | zero => exact hrest
        | succ count ih => exact ⟨rfl, by simp [EndsBefore], ih⟩
      · rename_i hcomment
        have hspace := endsBefore_space (hlexeme.isAtom (Bool.eq_false_of_not_eq_true hcomment))
        have hcovered : lexeme.EndsBefore ((textOf (covered row)).head?.or other) := by
          rcases head?_covered hrow with hhead | hhead
          · rw [hhead]
            cases hfirst : (textOf row).head? with
            | some c => rwa [hfirst] at hends
            | none =>
                rw [hfirst] at hends
                rcases hother with rfl | rfl
                · exact hends
                · exact hspace
          · rwa [hhead]
        exact ⟨hlexeme, hcovered, hrest⟩

theorem Fine.sound_covered (hfine : Fine none row) : Sound (covered row) :=
  ⟨hfine.fine_covered (.inl rfl), atomic_covered hfine.isFine⟩

end Lexeme

end SelectForm

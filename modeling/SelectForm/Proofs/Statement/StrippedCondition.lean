import Mathlib
import SelectForm.Proofs.Statement.RespelledRead
import SelectForm.Proofs.Statement.SettledCondition

/-!
# Conditions without their parentheses and `NOT`s

Taking parentheses and `NOT`s off a condition does not depend on the bound for their number, and
a `NOT` more only turns the answer around.  What is left decides how the condition is read, and
where a condition stands does not matter for it.
-/

namespace SelectForm

open Lexeme

namespace Condition

variable {clause : Clause} {fragment fragment' : Fragment} {bound bound' : Nat} {negated : Bool}

/-! ## Stripping -/

theorem stripWithin_trim :
    stripWithin bound negated fragment.trim = stripWithin bound negated fragment := by
  cases bound <;> simp only [stripWithin, Fragment.trim_trim]

theorem stripWithin_not :
    stripWithin bound (!negated) fragment =
      ((stripWithin bound negated fragment).1, !(stripWithin bound negated fragment).2) := by
  induction bound generalizing negated fragment with
  | zero => rfl
  | succ bound ih =>
      rw [stripWithin, stripWithin]
      cases fragment.trim.inside? with
      | some inner => exact ih
      | none =>
          cases Keyword.not_.length? none fragment.trim.text.cells with
          | some count => exact ih
          | none => rfl

theorem stripWithin_bound (hbound : fragment.text.length ≤ bound)
    (hbound' : fragment.text.length ≤ bound') :
    stripWithin bound negated fragment = stripWithin bound' negated fragment := by
  induction bound generalizing bound' negated fragment with
  | zero =>
      have hnil : fragment.text = [] := List.length_eq_zero_iff.mp (Nat.le_zero.mp hbound)
      rw [stripWithin_of_nil _ negated hnil, stripWithin_of_nil _ negated hnil]
  | succ bound ih =>
      cases bound' with
      | zero =>
          have hnil : fragment.text = [] := List.length_eq_zero_iff.mp (Nat.le_zero.mp hbound')
          rw [stripWithin_of_nil _ negated hnil, stripWithin_of_nil _ negated hnil]
      | succ bound' =>
          have hlength := fragment.length_trim_le
          rw [stripWithin, stripWithin]
          cases hinside : fragment.trim.inside? with
          | some inner =>
              have hshort := Fragment.length_inside? hinside
              exact ih (by omega) (by omega)
          | none =>
              cases hcount : Keyword.not_.length? none fragment.trim.text.cells with
              | some count =>
                  obtain ⟨mark, htext, hfits⟩ := Fragment.exists_of_length? hcount
                  have hpos := List.length_pos_of_ne_nil (hfits.spells.ne_nil rfl)
                  have hsum := congrArg List.length htext
                  rw [List.length_append] at hsum
                  exact ih (by omega) (by omega)
              | none => rfl

theorem strip_eq (hbound : fragment.text.length ≤ bound) :
    strip fragment = stripWithin bound false fragment :=
  stripWithin_bound le_rfl hbound

theorem strip_trim (fragment : Fragment) : strip fragment.trim = strip fragment := by
  rw [strip_eq fragment.length_trim_le, stripWithin_trim]
  rfl

/-! ## Reading what is left -/

/-- The condition that holds where another one does not. -/
def negation (condition : Condition) : Condition := { condition with negated := !condition.negated }

theorem readOperands_negation (clause : Clause) (body right : Fragment) (condition : Condition) :
    readOperands clause body right condition.negation =
      (readOperands clause body right condition).map negation := by
  unfold readOperands
  dsimp only [negation]
  split
  · split <;> rfl
  · split <;> rfl
  · split
    · rfl
    · rename_i split _
      cases Operand.read clause split.before with
      | error failed => rfl
      | ok low =>
          cases Operand.read clause split.after with
          | error failed => rfl
          | ok high => rfl
  · split
    · rfl
    · rename_i inner _
      split
      · rfl
      · cases inner.splitList.mapM (Operand.read clause) with
        | error failed => rfl
        | ok values => rfl
  · cases Operand.read clause right with
    | error failed => rfl
    | ok value => rfl

/-- A condition from which one `NOT` more is taken is read as its negation. -/
theorem read_of_strip_not (hstrip : strip fragment' = ((strip fragment).1, !(strip fragment).2)) :
    read clause fragment' = (read clause fragment).map negation := by
  unfold read
  rw [hstrip]
  generalize strip fragment = stripped
  obtain ⟨body, negated⟩ := stripped
  dsimp only
  split
  · rfl
  · cases splitOperator clause body with
    | error failed => rfl
    | ok split =>
        cases hterm : readTerm clause split.left with
        | error failed => simp [hterm, bind, Except.bind, Except.map]
        | ok term =>
            have hoperands := readOperands_negation clause body split.right
              { term, operator := split.operator, negated := negated ^^ split.negated }
            simp only [hterm, bind, Except.bind]
            rw [← hoperands, negation, Bool.not_xor]

theorem read_trim (clause : Clause) (fragment : Fragment) :
    read clause fragment.trim = read clause fragment := by
  unfold read
  rw [strip_trim]

/-- No blank text is read as a condition. -/
theorem trim_ne_nil_of_read {condition : Condition} (hread : read clause fragment = .ok condition) :
    Text.trim fragment.text ≠ [] := by
  intro hnil
  have hempty : ∀ start, ∃ failed, read clause ⟨[], start⟩ = .error failed := fun _ => ⟨_, rfl⟩
  obtain ⟨failed, herror⟩ := hempty fragment.trim.start
  rw [← read_trim, Fragment.trim, hnil] at hread
  exact absurd (herror.symm.trans hread) (by simp)

/-! ## Where a condition stands -/

/-- A condition that is read is read so wherever it stands. -/
theorem read_start {text : Text} {start start' : Nat} {condition : Condition}
    (hread : read clause ⟨text, start⟩ = .ok condition) :
    read clause ⟨text, start'⟩ = .ok condition := by
  have hid : Text.KeepsLetters id := fun _ => rfl
  obtain ⟨row, hrow, htext⟩ := (isSettled_of_read hread).isClosed
  have hsame : Lexeme.Alike (Lexeme.Respelled id Eq) False row row := by
    have hatomic := hrow.sound.atomic
    clear htext hrow
    induction row with
    | nil => exact .nil
    | cons lexeme row ih =>
        obtain ⟨hatom, hrow⟩ := atomic_cons.mp hatomic
        refine .cons ?_ (ih hrow)
        cases lexeme with
        | mark c => rfl
        | literal quote content => exact ⟨rfl, rfl⟩
        | word _ | lineComment _ | blockComment _ => exact hatom.elim
  have halike : (Fragment.mk text start).Alike (Lexeme.Respelled id Eq) False ⟨text, start'⟩ :=
    Fragment.alike_of_rows hrow.sound hrow.sound htext.symm htext.symm hsame
  have hagree : Agree (Condition.Like (.recased id Eq)) (read clause ⟨text, start⟩)
      (read clause ⟨text, start'⟩) :=
    read_alike (respelled_blind hid) (Likeness.recased_reads hid).toReadsConditions halike
  rw [hread] at hagree
  generalize read clause ⟨text, start'⟩ = read' at hagree ⊢
  cases hagree with
  | ok hlike => rw [hlike.eq_recase, recase_id, id]

end Condition

end SelectForm

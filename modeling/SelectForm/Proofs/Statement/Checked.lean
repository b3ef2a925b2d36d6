import Mathlib
import SelectForm.Statement.ParseError

/-!
# Checked readings

A checked reading gives a value or an error, or it has no result at all: it has looked at a byte
that is not there, or it has cut a text inside a character.  A reading that only fails with errors
is a checked one that always has a result.
-/

namespace SelectForm

/-- A reading that gives a value or an error, if it has a result. -/
abbrev Checked (α : Type) := ExceptT ParseError Option α

namespace Checked

variable {α β : Type}

/-- A reading that has a result. -/
def of (result : Except ParseError α) : Checked α := ExceptT.mk (some result)

theorem of_ok (value : α) : of (.ok value) = pure value := rfl

theorem of_pure (value : α) : of (pure value) = pure value := rfl

theorem liftM_some (value : α) : (liftM (some value) : Checked α) = pure value := rfl

theorem of_bind (result : Except ParseError α) (next : α → Except ParseError β) :
    of (result >>= next) = of result >>= fun value => of (next value) := by
  cases result <;> rfl

theorem mapM_of {checked : α → Checked β} {read : α → Except ParseError β}
    (hread : ∀ value, checked value = of (read value)) (list : List α) :
    list.mapM checked = of (list.mapM read) := by
  induction list with
  | nil => rfl
  | cons value rest ih =>
      rw [List.mapM_cons, List.mapM_cons, of_bind, hread, ih]
      simp only [of_bind, of_pure]

theorem foldlM_of {checked : β → α → Checked β} {step : β → α → Except ParseError β}
    {list : List α} (hstep : ∀ value ∈ list, ∀ first, checked first value = of (step first value))
    (first : β) : list.foldlM checked first = of (list.foldlM step first) := by
  induction list generalizing first with
  | nil => rfl
  | cons value rest ih =>
      obtain ⟨hvalue, hrest⟩ := List.forall_mem_cons.mp hstep
      rw [List.foldlM_cons, List.foldlM_cons, of_bind, hvalue]
      simp only [ih hrest]

end Checked

end SelectForm

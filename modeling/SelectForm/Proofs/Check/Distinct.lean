import Mathlib

/-!
# Lists without repetitions

Problems, warnings and names of parameters are listed once each.  The list that remains
keeps the order of the first occurrences.
-/

namespace SelectForm

variable {α : Type} [BEq α] [LawfulBEq α]

theorem eraseDups_append_singleton (entries : List α) (entry : α) :
    (entries ++ [entry]).eraseDups =
      if entry ∈ entries then entries.eraseDups else entries.eraseDups ++ [entry] := by
  rw [List.eraseDups_append]
  by_cases hmem : entry ∈ entries
  · simp [hmem, List.removeAll]
  · simp [hmem, List.removeAll, List.eraseDups_cons]

/-- A list without repetitions keeps the order of the first occurrences. -/
theorem pairwise_idxOf_eraseDups (entries : List α) :
    entries.eraseDups.Pairwise fun one other => entries.idxOf one < entries.idxOf other := by
  induction entries using List.reverseRecOn with
  | nil => simp
  | append_singleton entries entry ih =>
      have hkept : entries.eraseDups.Pairwise fun one other =>
          (entries ++ [entry]).idxOf one < (entries ++ [entry]).idxOf other := by
        refine ih.imp_of_mem fun {one other} hone hother hlt => ?_
        rwa [List.idxOf_append_of_mem (List.mem_eraseDups.mp hone),
          List.idxOf_append_of_mem (List.mem_eraseDups.mp hother)]
      rw [eraseDups_append_singleton]
      split
      next => exact hkept
      next hmem =>
        rw [List.pairwise_append]
        refine ⟨hkept, List.pairwise_singleton _ _, fun one hone other hother => ?_⟩
        have hbefore : one ∈ entries := List.mem_eraseDups.mp hone
        rw [List.mem_singleton.mp hother, List.idxOf_append_of_mem hbefore,
          List.idxOf_append_of_notMem hmem]
        exact Nat.lt_add_right _ (List.idxOf_lt_length_of_mem hbefore)

theorem nodup_eraseDups (entries : List α) : entries.eraseDups.Nodup :=
  (pairwise_idxOf_eraseDups entries).imp fun hlt heq => (heq ▸ hlt).false

end SelectForm

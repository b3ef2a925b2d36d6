import Mathlib
import SelectForm.Proofs.Lexis.Spans
import SelectForm.Proofs.Lexis.Piece

/-!
# Balanced texts

Parentheses are balanced if no closing one comes too early and none is left open.  A
count of open groups, character by character, shows both, and it follows the count over
the pieces of a text, whose literals and comments hold no parentheses of code.
-/

namespace SelectForm

namespace Text

/-- A text in which every parenthesis has a partner. -/
structure Balanced (text : Text) : Prop where
  /-- No closing parenthesis comes before its opening one. -/
  early : ∀ front, front <+: text → front.count ')' ≤ front.count '('
  /-- No opening parenthesis is left at the end. -/
  settled : text.count '(' = text.count ')'

/-- The number of open groups behind a text, if no group is closed too early. -/
def depthBehind (depth : Nat) : Text → Option Nat
  | [] => some depth
  | c :: rest =>
    if c = '(' then depthBehind (depth + 1) rest
    else if c = ')' then if depth = 0 then none else depthBehind (depth - 1) rest
    else depthBehind depth rest

theorem count_cons {c : Char} {rest : Text} {depth next behind : Nat}
    (hnext : next + [c].count ')' = depth + [c].count '(')
    (hrest : (∀ front, front <+: rest → front.count ')' ≤ next + front.count '(') ∧
      next + rest.count '(' = behind + rest.count ')') :
    (∀ front, front <+: c :: rest → front.count ')' ≤ depth + front.count '(') ∧
      depth + (c :: rest).count '(' = behind + (c :: rest).count ')' := by
  have hcount : ∀ (d : Char) (text : Text), (c :: text).count d = [c].count d + text.count d :=
    fun _ _ => @List.count_append Char _ _ [c] _
  obtain ⟨hearly, hsettled⟩ := hrest
  constructor
  · intro front hfront
    rcases List.prefix_cons_iff.mp hfront with rfl | ⟨others, rfl, hothers⟩
    · exact Nat.zero_le _
    · have hless := hearly others hothers
      rw [hcount ')' others, hcount '(' others]
      omega
  · rw [hcount '(' rest, hcount ')' rest]
    omega

/-- The number of open groups is counted by the parentheses. -/
theorem count_of_depthBehind {text : Text} {depth behind : Nat}
    (hdepth : depthBehind depth text = some behind) :
    (∀ front, front <+: text → front.count ')' ≤ depth + front.count '(') ∧
      depth + text.count '(' = behind + text.count ')' := by
  induction text generalizing depth with
  | nil =>
      obtain rfl := Option.some.inj hdepth
      refine ⟨fun front hfront => ?_, rfl⟩
      rw [List.prefix_nil.mp hfront]
      exact Nat.zero_le _
  | cons c rest ih =>
      rw [depthBehind] at hdepth
      split at hdepth
      next hopen =>
        subst hopen
        exact count_cons rfl (ih hdepth)
      next hopen =>
        split at hdepth
        next hclose =>
          subst hclose
          split at hdepth
          next => simp at hdepth
          next hne => exact count_cons (Nat.succ_pred_eq_of_ne_zero hne) (ih hdepth)
        next hclose => exact count_cons (by simp [hopen, hclose]) (ih hdepth)

theorem balanced_of_depthBehind {text : Text} (hdepth : depthBehind 0 text = some 0) :
    Balanced text := by
  obtain ⟨hearly, hsettled⟩ := count_of_depthBehind hdepth
  constructor
  · intro front hfront
    simpa using hearly front hfront
  · simpa using hsettled

theorem depthBehind_of_plain {front rest : Text} (depth : Nat)
    (hplain : ∀ c ∈ front, c ≠ '(' ∧ c ≠ ')') :
    depthBehind depth (front ++ rest) = depthBehind depth rest := by
  induction front with
  | nil => rfl
  | cons c front ih =>
      obtain ⟨hopen, hclose⟩ := hplain c List.mem_cons_self
      rw [List.cons_append, depthBehind, if_neg hopen, if_neg hclose]
      exact ih fun d hd => hplain d (List.mem_cons_of_mem c hd)

end Text

namespace Lexeme

/-- The code of some pieces is as deep as the pieces are. -/
theorem depthBehind_code {lexemes : List Lexeme} {depth behind : Nat}
    (hproper : ∀ lexeme ∈ lexemes, lexeme.IsProper)
    (hbalance : balance depth lexemes = some behind) :
    Text.depthBehind depth (textOf (lexemes.filter isCode)) = some behind := by
  induction lexemes generalizing depth with
  | nil => exact hbalance
  | cons lexeme rest ih =>
      obtain ⟨hfirst, hothers⟩ := List.forall_mem_cons.mp hproper
      rw [balance, Option.bind_eq_some_iff] at hbalance
      obtain ⟨middle, hopened, hbalance⟩ := hbalance
      have hrest := ih hothers hbalance
      cases lexeme with
      | word text =>
          obtain rfl := Option.some.inj hopened
          have hplain : ∀ c ∈ text, c ≠ '(' ∧ c ≠ ')' := by
            intro c hc
            have hword := hfirst.2 c hc
            constructor <;> rintro rfl <;> exact absurd hword (by decide)
          rw [List.filter_cons_of_pos rfl, textOf_cons]
          exact (Text.depthBehind_of_plain depth hplain).trans hrest
      | mark c =>
          rw [List.filter_cons_of_pos rfl, textOf_cons, text, List.singleton_append,
            Text.depthBehind]
          rw [openedBy] at hopened
          split_ifs at hopened ⊢ <;> simp_all
      | literal _ _ | lineComment _ | blockComment _ =>
          obtain rfl := Option.some.inj hopened
          rw [List.filter_cons_of_neg (by simp [isCode, kind])]
          exact hrest

end Lexeme

end SelectForm

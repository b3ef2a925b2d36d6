import Mathlib
import SelectForm.Proofs.Statement.AlikeCondition
import SelectForm.Proofs.Statement.HeldOperand

/-!
# What a condition holds

A condition holds its column and then its operands.  The parentheses and `NOT`s around it,
its operator and the marks between its operands hold no tokens.
-/

namespace SelectForm

open Lexeme

namespace Condition

variable {clause : Clause} {fragment body left right : Fragment} {held : List Token}

/-! ## Parentheses and negations -/

theorem holds_of_stripWithin {bound : Nat} {negated negated' : Bool}
    (hstrip : stripWithin bound negated fragment = (body, negated')) (hbody : body.Holds held) :
    fragment.Holds held := by
  induction bound generalizing fragment negated with
  | zero =>
      obtain ⟨rfl, -⟩ := Prod.mk.inj hstrip
      exact hbody.of_trim
  | succ bound ih =>
      rw [stripWithin] at hstrip
      apply Fragment.Holds.of_trim
      cases hinside : fragment.trim.inside? with
      | some inner =>
          simp only [hinside] at hstrip
          exact .of_inside? hinside (ih hstrip)
      | none =>
          cases hcount : Keyword.not_.length? none fragment.trim.text.cells with
          | some count =>
              simp only [hinside, hcount] at hstrip
              exact .of_length? rfl rfl hcount (ih hstrip)
          | none =>
              simp only [hinside, hcount] at hstrip
              obtain ⟨rfl, -⟩ := Prod.mk.inj hstrip
              exact hbody

/-! ## Operators -/

theorem operatorKeywords_passes : (RowFinder.ofKeywords operatorKeywords).Passes :=
  Lexeme.Holds.ofKeywords_passes (by decide) (by decide)

theorem negatedKeywords_passes : (RowFinder.ofKeywords negatedKeywords).Passes :=
  Lexeme.Holds.ofKeywords_passes (by decide) (by decide)

/-- What stands behind `NOT` and the operator that it negates. -/
theorem holds_of_negatedOperator? {front rest : List Lexeme} {operator : Operator} {count : Nat}
    (hsound : Sound (front ++ rest)) (htext : body.text = textOf (front ++ rest))
    (hfound : negatedOperator? body.text (textOf front).length = some (operator, count))
    (hdrop : (body.drop count).Holds held) : Lexeme.Holds rest held := by
  have hleading := hsound.right.atomic.leading_textOf
  have hsplit := @List.takeWhile_append_dropWhile _ isBlankMark rest
  obtain ⟨gap, hgap, hblank⟩ := exists_takeWhile_isMark Text.isBlank rest
  generalize hback : rest.dropWhile isBlankMark = back at hsplit
  rw [show rest.takeWhile isBlankMark = marks gap from hgap] at hleading hsplit
  subst hsplit
  rw [htext, negatedOperator?_textOf hsound hleading, Option.map_eq_some_iff] at hfound
  obtain ⟨⟨found, behind⟩, hseek, hpair⟩ := hfound
  obtain ⟨rfl, rfl⟩ := Prod.mk.inj hpair
  obtain ⟨text, rfl, hholds⟩ := negatedKeywords_passes _ _ _ _ hseek
  have hbehind : Lexeme.Holds behind held := by
    apply hdrop behind hsound.right.right.right
    rw [Fragment.drop, htext, ← List.append_assoc (marks gap), ← List.append_assoc front, drop_textOf]
  have hrow := hholds [] behind (.inl rfl) (List.prefix_refl _) [] held .nil hbehind
  exact hrow.pad_left (Lexeme.Holds.isSeparator_of_blanks hblank)

/-- A condition holds what stands on both sides of its operator. -/
theorem holds_of_splitOperator {split : OperatorSplit} {heldLeft heldRight : List Token}
    (hsplit : splitOperator clause body = .ok split) (hleft : split.left.Holds heldLeft)
    (hright : split.right.Holds heldRight) : body.Holds (heldLeft ++ heldRight) := by
  have hfirm : ∀ entry ∈ operatorKeywords, entry.1.isFirm = true := by decide
  have hfollows : operatorFinder.Follows (RowFinder.ofKeywords operatorKeywords) :=
    Finder.ofKeywords_follows hfirm
  intro row hsound htext
  obtain ⟨head, cuts, hcuts⟩ := Cuts.exists_cuts hfollows 0 none hsound.atomic
  have hfragment := hsound.follows hfollows htext hcuts
  unfold splitOperator at hsplit
  cases cuts with
  | nil =>
      rw [hfragment.splitFirst?_nil] at hsplit
      exact absurd hsplit (by simp)
  | cons cut cuts =>
      obtain ⟨found, hfound, hlabel, hhead, hmark, hback⟩ := hfragment.splitFirst?_cons
      rw [hfound] at hsplit
      dsimp only at hsplit
      have hsides : split.left = found.before ∧
          Lexeme.Holds (cut.body ++ cuts.flatMap RowCut.row) heldRight := by
        cases hmarkLabel : found.label with
        | operator operator =>
            rw [hmarkLabel] at hsplit
            obtain rfl := Except.ok.inj hsplit
            exact ⟨rfl, hright _ hfragment.sound_after hback⟩
        | not =>
            rw [hmarkLabel] at hsplit
            dsimp only at hsplit
            split at hsplit
            · exact absurd hsplit (by simp)
            · rename_i operator count hnegated
              obtain rfl := Except.ok.inj hsplit
              have hrow := hcuts.row_eq
              rw [List.flatMap_cons, RowCut.row, List.append_assoc, ← List.append_assoc head] at hrow
              rw [hhead, hmark, ← List.length_append, ← textOf_append] at hnegated
              exact ⟨rfl, holds_of_negatedOperator? (hrow ▸ hsound) (hrow ▸ htext) hnegated hright⟩
      rw [hsides.1] at hleft
      have hrow : Lexeme.Holds ([] ++ row) (heldLeft ++ heldRight) :=
        .of_cuts_cons operatorKeywords_passes hsound.atomic hcuts (.inl rfl)
          (hleft head hfragment.sound.left hhead) hsides.2
      exact hrow

/-! ## The sides of a condition -/

theorem holds_of_readTerm {term : ColumnTerm} (hread : readTerm clause left = .ok term) :
    left.Holds (term.tokens) := by
  unfold readTerm at hread
  rw [bind_eq_ok] at hread
  obtain ⟨column, hcolumn, hread⟩ := hread
  split at hread
  · exact absurd hread (by simp)
  · split at hread
    · exact absurd hread (by simp)
    · obtain rfl := Except.ok.inj hread
      exact Fragment.holds_of_text (ColumnTerm.holds_of_read hcolumn)

theorem holds_of_readOperands {term : ColumnTerm} {operator : Operator} {negated : Bool}
    {condition : Condition}
    (hread : readOperands clause body right { term, operator, negated } = .ok condition) :
    right.Holds (condition.operands.flatMap Operand.tokens) := by
  unfold readOperands at hread
  cases operator with
  | isNull | isNotNull =>
      dsimp only at hread
      split at hread
      · rename_i hblank
        obtain rfl := Except.ok.inj hread
        apply Fragment.holds_of_text
        exact .separators (Lexeme.Holds.isSeparator_of_blanks (List.all_eq_true.mp hblank))
      · exact absurd hread (by simp)
  | between =>
      have hfirm : ∀ entry ∈ [(Keyword.and_, ())], entry.1.isFirm = true := by decide
      have hpasses : (RowFinder.ofKeywords [(Keyword.and_, ())]).Passes :=
        Lexeme.Holds.ofKeywords_passes hfirm (by decide)
      cases hsplit : right.splitFirst? (.ofKeyword .and_) with
      | none => simp [hsplit] at hread
      | some split =>
          simp only [hsplit, bind_eq_ok, Except.ok.injEq] at hread
          obtain ⟨low, hlow, high, hhigh, rfl⟩ := hread
          have hsides := Fragment.Holds.of_splitFirst? (Finder.ofKeywords_follows hfirm) hpasses hsplit
            (Operand.holds_of_read hlow) (Operand.holds_of_read hhigh)
          simpa [operands] using hsides
  | inList =>
      cases hinside : right.inside? with
      | none => simp [hinside] at hread
      | some inner =>
          simp only [hinside] at hread
          split at hread
          · exact absurd hread (by simp)
          · rw [bind_eq_ok] at hread
            obtain ⟨values, hvalues, hread⟩ := hread
            obtain rfl := Except.ok.inj hread
            have hitems := (forall₂_of_mapM hvalues).imp fun _ _ =>
              @Operand.holds_of_read clause _ _
            simpa [operands] using (Fragment.Holds.of_splitList hitems).of_inside? hinside
  | _ =>
      dsimp only at hread
      rw [bind_eq_ok] at hread
      obtain ⟨value, hvalue, hread⟩ := hread
      obtain rfl := Except.ok.inj hread
      simpa [operands] using Operand.holds_of_read hvalue

/-! ## Conditions -/

theorem holds_of_read {condition : Condition} (hread : read clause fragment = .ok condition) :
    fragment.Holds condition.tokens := by
  unfold read strip at hread
  split at hread
  next body negated hstrip =>
    split at hread
    · exact absurd hread (by simp)
    · rw [bind_eq_ok] at hread
      obtain ⟨split, hsplit, hread⟩ := hread
      rw [bind_eq_ok] at hread
      obtain ⟨term, hterm, hread⟩ := hread
      obtain ⟨hsame, -⟩ := carriesOperands_of_readOperands hread
      have hsides := holds_of_splitOperator hsplit (holds_of_readTerm hterm)
        (holds_of_readOperands hread)
      rw [← hsame] at hsides
      exact holds_of_stripWithin hstrip hsides

theorem holds_of_readChain {conditions : List Condition}
    (hread : readChain clause fragment = .ok conditions) :
    fragment.Holds (conditions.flatMap Condition.tokens) := by
  apply Fragment.Holds.of_splitChain
  refine (forall₂_of_mapM hread).imp fun part condition hpart => ?_
  unfold readPart at hpart
  dsimp only at hpart
  split at hpart
  · exact absurd hpart (by simp)
  · rw [bind_eq_ok] at hpart
    obtain ⟨bare, hbare, hpart⟩ := hpart
    obtain rfl := Except.ok.inj hpart
    have hholds := holds_of_read hbare
    exact hholds

end Condition

end SelectForm

import Mathlib
import SelectForm.Statement.Condition
import SelectForm.Statement.Table
import SelectForm.Proofs.Query.Likeness
import SelectForm.Proofs.Statement.AlikeFragment

/-!
# Reading alike conditions

Alike conditions lose the same parentheses and negations, have the same operator at the
same place, and fall into alike sides.  So if their columns and operands are read alike,
then the conditions are.

What it means that columns or operands are read alike is left open: it is told by a
`Likeness`.
-/

namespace SelectForm

open Lexeme

/-! ## Lengths -/

namespace Text

theorem length_trimEnd_le (text : Text) : (trimEnd text).length ≤ text.length := by
  induction text with
  | nil => exact le_rfl
  | cons c rest ih =>
      rw [trimEnd]
      split
      · split <;> simp
      · rename_i htrim
        rw [htrim] at ih
        simpa using ih

theorem length_trim_le (text : Text) : (trim text).length ≤ text.length := by
  have hstart : (trimStart text).length ≤ text.length := (List.dropWhile_suffix _).length_le
  exact (length_trimEnd_le _).trans hstart

end Text

namespace Fragment

variable {fragment inner : Fragment}

theorem length_trim_le (fragment : Fragment) :
    fragment.trim.text.length ≤ fragment.text.length := Text.length_trim_le fragment.text

theorem length_inside? (hinside : fragment.inside? = some inner) :
    inner.text.length < fragment.text.length := by
  have hgroup := congrArg List.length (trim_of_inside? hinside)
  have htrim := Text.length_trim_le fragment.text
  rw [List.length_cons, List.length_append] at hgroup
  omega

end Fragment

/-! ## Parentheses and negations -/

section

variable {R : Lexeme → Lexeme → Prop} {stretch : Prop} {fragment fragment' : Fragment}

namespace Condition

theorem stripWithin_of_nil (bound : Nat) (negated : Bool) (hnil : fragment.text = []) :
    stripWithin bound negated fragment = (fragment.trim, negated) := by
  have htrim : fragment.trim.text = [] := by rw [Fragment.trim, hnil]; rfl
  cases bound with
  | zero => rfl
  | succ bound =>
      have htwice : fragment.trim.trim.text = [] := by rw [Fragment.trim, htrim]; rfl
      rw [stripWithin, Fragment.inside?, htwice, htrim]
      rfl

theorem stripWithin_alike {bound bound' : Nat} (negated : Bool) (hblind : Blind R)
    (hbound : fragment.text.length ≤ bound) (hbound' : fragment'.text.length ≤ bound')
    (halike : fragment.Alike R stretch fragment') :
    (stripWithin bound negated fragment).1.Alike R stretch (stripWithin bound' negated fragment').1 ∧
      (stripWithin bound negated fragment).2 = (stripWithin bound' negated fragment').2 := by
  induction bound generalizing bound' negated fragment fragment' with
  | zero =>
      have hnil : fragment.text = [] := List.length_eq_zero_iff.mp (Nat.le_zero.mp hbound)
      rw [stripWithin_of_nil _ negated hnil, stripWithin_of_nil _ negated (halike.text_eq_nil_iff.mp hnil)]
      exact ⟨halike.trim hblind, rfl⟩
  | succ bound ih =>
      cases bound' with
      | zero =>
          have hnil : fragment'.text = [] := List.length_eq_zero_iff.mp (Nat.le_zero.mp hbound')
          rw [stripWithin_of_nil _ negated hnil,
            stripWithin_of_nil _ negated (halike.text_eq_nil_iff.mpr hnil)]
          exact ⟨halike.trim hblind, rfl⟩
      | succ bound' =>
          have htrim := halike.trim hblind
          have hlength := fragment.length_trim_le
          have hlength' := fragment'.length_trim_le
          have hinside := htrim.inside? hblind
          have hnot := @Fragment.Alike.length? R stretch _ _ Keyword.not_ hblind rfl htrim
          rw [stripWithin, stripWithin]
          generalize hopen : fragment.trim.inside? = found at hinside
          generalize hopen' : fragment'.trim.inside? = found' at hinside
          cases hinside with
          | some hinner =>
              have hshort := Fragment.length_inside? hopen
              have hshort' := Fragment.length_inside? hopen'
              exact ih negated (by omega) (by omega) hinner
          | none =>
              simp only
              generalize Keyword.not_.length? none fragment.trim.text.cells = count at hnot
              generalize Keyword.not_.length? none fragment'.trim.text.cells = count' at hnot
              cases hnot with
              | none => exact ⟨htrim, rfl⟩
              | some hdrop =>
                  obtain ⟨hdrop, hshort, hshort'⟩ := hdrop
                  exact ih (!negated) (by omega) (by omega) hdrop

/-! ## Operators -/

/-- The operators that may stand behind `NOT`. -/
def negatedKeywords : List (Keyword × Operator) :=
  [(.between, .between), (.in_, .inList), (.like, .like)]

/-- The marks of operators. -/
def operatorKeywords : List (Keyword × OperatorMark) :=
  [(.isNotNull, .operator .isNotNull), (.isNull, .operator .isNull), (.not_, .not),
    (.between, .operator .between), (.in_, .operator .inList), (.like, .operator .like),
    (.notEqual, .operator .notEqual), (.notEqualBang, .operator .notEqual),
    (.greaterOrEqual, .operator .greaterOrEqual), (.lessOrEqual, .operator .lessOrEqual),
    (.equal, .operator .equal), (.greater, .operator .greater), (.less, .operator .less)]

theorem negatedKeywords_follows :
    negatedFinder.Follows (RowFinder.ofKeywords negatedKeywords) :=
  @Finder.ofKeywords_follows _ negatedKeywords (by decide)

/-- The operator behind a `NOT` and some blanks, as it is found on a row. -/
theorem negatedOperator?_textOf {front gap back : List Lexeme}
    (hsound : Sound (front ++ (gap ++ back)))
    (hgap : Text.leading (textOf (gap ++ back)) = textOf gap) :
    negatedOperator? (textOf (front ++ (gap ++ back))) (textOf front).length =
      (RowFinder.ofKeywords negatedKeywords (lastOf none (front ++ gap)) back).map
        fun found => (found.1, (textOf (front ++ (gap ++ back))).length - (textOf found.2).length) := by
  have hatomic : Atomic back := hsound.right.right.atomic
  have hstart : (textOf front).length + (textOf gap).length = (textOf (front ++ gap)).length := by
    rw [textOf_append, List.length_append]
  have hdrop : (textOf (front ++ (gap ++ back))).drop (textOf front).length =
      textOf (gap ++ back) := by
    rw [textOf_append front, List.drop_left]
  have hcells := hsound.cells_textOf
  rw [← List.append_assoc] at hcells
  unfold negatedOperator?
  rw [hdrop, hgap, hstart, ← List.append_assoc, hcells]
  dsimp only
  rw [drop_cellsOf, textOf_append (front ++ gap), List.take_left, negatedKeywords_follows.found _ _ _ hatomic,
    Option.map_map, lastOf_eq, Option.or_none]
  cases hseek : RowFinder.ofKeywords negatedKeywords (textOf (front ++ gap)).getLast? back with
  | none => rfl
  | some found =>
      obtain ⟨operator, behind⟩ := found
      obtain ⟨text, -, rfl⟩ := negatedKeywords_follows.spelled _ _ _ _ hseek
      simp only [Option.map_some, Function.comp_apply, textOf_append, List.length_append]
      congr 2
      omega

/-- Behind alike `NOT`s stands the same operator, and what is behind it is alike. -/
theorem negatedOperator?_alike {front rest front' rest' : List Lexeme} (hblind : Blind R)
    (hsound : Sound (front ++ rest)) (hsound' : Sound (front' ++ rest'))
    (htext : fragment.text = textOf (front ++ rest))
    (htext' : fragment'.text = textOf (front' ++ rest'))
    (hfront : Lexeme.Alike R stretch front front') (hrest : Lexeme.Alike R stretch rest rest') :
    Option.Rel (fun found found' => found.1 = found'.1 ∧
        (fragment.drop found.2).Alike R stretch (fragment'.drop found'.2))
      (negatedOperator? fragment.text (textOf front).length)
      (negatedOperator? fragment'.text (textOf front').length) := by
  obtain ⟨hgap, hback⟩ := hrest.dropWhile (fun _ _ hlexeme => (hblind _ _ hlexeme).isBlankMark_eq)
    fun _ hblank => Text.isBlank_of_isAsciiBlank hblank
  have hleading := hsound.right.atomic.leading_textOf
  have hleading' := hsound'.right.atomic.leading_textOf
  have hsplit := @List.takeWhile_append_dropWhile _ isBlankMark rest
  have hsplit' := @List.takeWhile_append_dropWhile _ isBlankMark rest'
  generalize rest.takeWhile isBlankMark = gap at *
  generalize rest.dropWhile isBlankMark = back at *
  generalize rest'.takeWhile isBlankMark = gap' at *
  generalize rest'.dropWhile isBlankMark = back' at *
  subst hsplit
  subst hsplit'
  have hfirm : ∀ entry ∈ negatedKeywords, entry.1.isFirm = true := by decide
  have hlast := @Alike.lastOf_isWordChar R stretch _ _ none none hblind (hfront.append hgap) rfl
  have hseek := RowFinder.ofKeywords_steady hblind hfirm _ _ _ _ hlast hback
  rw [htext, htext', negatedOperator?_textOf hsound hleading, negatedOperator?_textOf hsound' hleading']
  generalize RowFinder.ofKeywords negatedKeywords (lastOf none (front ++ gap)) back = found at hseek
  generalize RowFinder.ofKeywords negatedKeywords (lastOf none (front' ++ gap')) back' = found'
    at hseek
  cases hseek with
  | none => exact .none
  | @some found found' hfound =>
      obtain ⟨hoperator, taken, taken', hrow, hrow', -, hbehind⟩ := hfound
      obtain ⟨operator, behind⟩ := found
      obtain ⟨operator', behind'⟩ := found'
      dsimp only at hrow hrow' hbehind
      subst hrow
      subst hrow'
      refine .some ⟨hoperator, Fragment.alike_of_rows hsound.right.right.right
        hsound'.right.right.right ?_ ?_ hbehind⟩
      · rw [Fragment.drop, htext, ← List.append_assoc gap, ← List.append_assoc front, drop_textOf]
      · rw [Fragment.drop, htext', ← List.append_assoc gap', ← List.append_assoc front', drop_textOf]

/-- Two ways to split alike conditions at their operators. -/
structure OperatorSplit.Alike (R : Lexeme → Lexeme → Prop) (stretch : Prop)
    (split split' : OperatorSplit) : Prop where
  left : split.left.Alike R stretch split'.left
  operator : split.operator = split'.operator
  negated : split.negated = split'.negated
  right : split.right.Alike R stretch split'.right

theorem splitOperator_alike {clause : Clause} (hblind : Blind R)
    (halike : fragment.Alike R stretch fragment') :
    Agree (OperatorSplit.Alike R stretch) (splitOperator clause fragment)
      (splitOperator clause fragment') := by
  have hfirm : ∀ entry ∈ operatorKeywords, entry.1.isFirm = true := by decide
  have hnegated : ∀ entry ∈ negatedKeywords, entry.1.isFirm = true := by decide
  obtain ⟨head, head', cuts, cuts', hcuts, hcuts', hhead, hforall⟩ :=
    halike.exists_cuts hblind (Finder.ofKeywords_follows hfirm)
      (RowFinder.ofKeywords_steady hblind hfirm)
  unfold splitOperator
  rw [show operatorFinder = Finder.ofKeywords operatorKeywords from rfl]
  cases hforall with
  | nil =>
      rw [hcuts.splitFirst?_nil, hcuts'.splitFirst?_nil]
      exact .error
  | @cons cut cut' cuts cuts' hcut hrest =>
      obtain ⟨split, hsplit, hlabel, hbefore, hmark, hafter⟩ := hcuts.splitFirst?_cons
      obtain ⟨split', hsplit', hlabel', hbefore', hmark', hafter'⟩ := hcuts'.splitFirst?_cons
      have hleft : split.before.Alike R stretch split'.before :=
        Fragment.alike_of_rows hcuts.sound.left hcuts'.sound.left hbefore hbefore' hhead
      have hbacks : Lexeme.Alike R stretch (cut.body ++ cuts.flatMap RowCut.row)
          (cut'.body ++ cuts'.flatMap RowCut.row) :=
        hcut.body.append (RowCut.flatMap_row_alike hrest)
      rw [hsplit, hsplit']
      dsimp only
      rw [hlabel, hlabel', hcut.label]
      cases cut'.label with
      | operator operator =>
          exact .ok ⟨hleft, rfl, rfl, Fragment.alike_of_rows hcuts.sound_after hcuts'.sound_after
            hafter hafter' hbacks⟩
      | not =>
          have hwhole := hcuts.text_eq
          have hwhole' := hcuts'.text_eq
          have hsound := hcuts.sound
          have hsound' := hcuts'.sound
          rw [List.flatMap_cons, RowCut.row, List.append_assoc, ← List.append_assoc] at hwhole hsound
          rw [List.flatMap_cons, RowCut.row, List.append_assoc, ← List.append_assoc]
            at hwhole' hsound'
          have hfound := negatedOperator?_alike hblind hsound hsound' hwhole hwhole'
            (hhead.append hcut.mark) hbacks
          rw [hbefore, hbefore', hmark, hmark', ← List.length_append, ← List.length_append,
            ← textOf_append, ← textOf_append]
          generalize negatedOperator? fragment.text (textOf (head ++ cut.mark)).length = found at hfound
          generalize negatedOperator? fragment'.text (textOf (head' ++ cut'.mark)).length = found'
            at hfound
          cases hfound with
          | none => exact .error
          | some hfound => exact .ok ⟨hleft, hfound.1, rfl, hfound.2⟩

end Condition

end

/-! ## Conditions -/

/-- Columns and operands that are read alike from alike texts. -/
structure Likeness.ReadsConditions (like : Likeness) (R : Lexeme → Lexeme → Prop) (stretch : Prop) :
    Prop where
  term : ∀ (clause : Clause) (left left' : Fragment), left.Alike R stretch left' →
    Agree like.term (Condition.readTerm clause left) (Condition.readTerm clause left')
  operand : ∀ (clause : Clause) (side side' : Fragment), side.Alike R stretch side' →
    Agree like.operand (Operand.read clause side) (Operand.read clause side')

namespace Condition

variable {R : Lexeme → Lexeme → Prop} {stretch : Prop} {like : Likeness} {clause : Clause}
  {fragment fragment' : Fragment}

theorem readOperands_alike {body body' : Fragment} {condition condition' : Condition}
    (hblind : Blind R) (hreads : like.ReadsConditions R stretch)
    (halike : fragment.Alike R stretch fragment') (hlike : condition.Like like condition') :
    Agree (Condition.Like like) (readOperands clause body fragment condition)
      (readOperands clause body' fragment' condition') := by
  have hread := hreads.operand clause
  have hfirm : ∀ entry ∈ [(Keyword.and_, ())], entry.1.isFirm = true := by decide
  have hsingle : Agree (Condition.Like like)
      ((do
        let value ← Operand.read clause fragment
        .ok { condition with value := some value }) : Except ParseError Condition)
      ((do
        let value ← Operand.read clause fragment'
        .ok { condition' with value := some value }) : Except ParseError Condition) :=
    (hread _ _ halike).bind fun _ _ hvalue => .ok { hlike with value := .some hvalue }
  obtain ⟨term, operator, value, values, minValue, maxValue, negated, connector⟩ := condition
  obtain ⟨term', operator', value', values', minValue', maxValue', negated', connector'⟩ :=
    condition'
  obtain rfl : operator = operator' := hlike.operator
  unfold readOperands
  cases operator with
  | isNull | isNotNull =>
      dsimp only
      rw [halike.isBlank_eq hblind]
      split
      · exact .ok hlike
      · exact .error
  | between =>
      have hsplit := halike.splitFirst? hblind (Finder.ofKeywords_follows hfirm)
        (RowFinder.ofKeywords_steady hblind hfirm)
      rw [show Finder.ofKeyword Keyword.and_ = Finder.ofKeywords [(Keyword.and_, ())] from rfl]
      dsimp only
      generalize fragment.splitFirst? (Finder.ofKeywords [(Keyword.and_, ())]) = split at hsplit
      generalize fragment'.splitFirst? (Finder.ofKeywords [(Keyword.and_, ())]) = split' at hsplit
      cases hsplit with
      | none => exact .error
      | some hsides =>
          refine (hread _ _ hsides.2.1).bind fun low low' hlow => ?_
          refine (hread _ _ hsides.2.2).bind fun high high' hhigh => ?_
          exact .ok { hlike with minValue := .some hlow, maxValue := .some hhigh }
  | inList =>
      have hinside := halike.inside? hblind
      dsimp only
      generalize fragment.inside? = inner at hinside
      generalize fragment'.inside? = inner' at hinside
      cases hinside with
      | none => exact .error
      | @some inner inner' hinner =>
          have hitems := hinner.splitList hblind
          have hempty : inner.splitList.all (fun item => item.text.isEmpty) =
              inner'.splitList.all (fun item => item.text.isEmpty) := by
            generalize inner.splitList = items at hitems
            generalize inner'.splitList = items' at hitems
            induction hitems with
            | nil => rfl
            | cons hitem _ ih => rw [List.all_cons, List.all_cons, hitem.isEmpty_eq, ih]
          dsimp only
          rw [hempty]
          refine Agree.ite Iff.rfl fun _ => ?_
          exact (Agree.mapM hitems hread).bind fun values values' hvalues =>
            .ok { hlike with values := hvalues }
  | equal | notEqual | less | greater | lessOrEqual | greaterOrEqual | like => exact hsingle

theorem read_alike (hblind : Blind R) (hreads : like.ReadsConditions R stretch)
    (halike : fragment.Alike R stretch fragment') :
    Agree (Condition.Like like) (read clause fragment) (read clause fragment') := by
  have hstrip := @stripWithin_alike R stretch fragment fragment' _ _ false hblind le_rfl le_rfl halike
  unfold read strip
  obtain ⟨hbody, hnegated⟩ := hstrip
  generalize stripWithin fragment.text.length false fragment = stripped at hbody hnegated
  generalize stripWithin fragment'.text.length false fragment' = stripped' at hbody hnegated
  obtain ⟨body, negated⟩ := stripped
  obtain ⟨body', negated'⟩ := stripped'
  dsimp only at hbody hnegated ⊢
  subst hnegated
  have hchain := @Fragment.Alike.splitChain R stretch body body' [.and, .or] hblind hbody
  rw [hchain.length_eq]
  refine Agree.ite Iff.rfl fun _ => ?_
  refine (splitOperator_alike hblind hbody).bind fun split split' hsplit => ?_
  refine (hreads.term clause _ _ hsplit.left).bind fun term term' hterm => ?_
  refine readOperands_alike hblind hreads hsplit.right ?_
  exact ⟨hterm, hsplit.operator, .none, .nil, .none, .none, by rw [hsplit.negated], rfl⟩

theorem readChain_alike (hblind : Blind R) (hreads : like.ReadsConditions R stretch)
    (halike : fragment.Alike R stretch fragment') :
    Agree (List.Forall₂ (Condition.Like like)) (readChain clause fragment)
      (readChain clause fragment') := by
  refine Agree.mapM (halike.splitChain hblind) fun part part' hpart => ?_
  unfold readPart
  rw [hpart.1]
  dsimp only
  refine Agree.ite (by rw [hpart.2.isEmpty_eq]) fun _ => ?_
  refine (read_alike hblind hreads hpart.2).bind fun condition condition' hcondition => ?_
  exact .ok { hcondition with connector := rfl }

end Condition

end SelectForm

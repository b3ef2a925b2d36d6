import Mathlib
import SelectForm.Proofs.Statement.ByteSplit
import SelectForm.Proofs.Statement.Checked
import SelectForm.Proofs.Statement.ReadCondition

/-!
# Reading conditions byte by byte

A condition is read by cutting its text: parentheses and negations are taken off its front and its
ends, and its operator is cut out of the middle.  All cuts fall between two characters of the text
that is cut, and what is read is the condition.
-/

namespace SelectForm

namespace Bytewise

/-! ## Parentheses and negations -/

/-- Takes parentheses and `NOT`s off a condition, at most as many as `bound` says, and tells whether
it is then negated. -/
def stripWithin (bound : Nat) (negated : Bool) (fragment : Fragment) : Option (Fragment × Bool) :=
  let body := fragment.trim
  match bound with
  | 0 => some (body, negated)
  | bound + 1 => do
    match ← inside body with
    | some inner => stripWithin bound negated inner
    | none => do
      let mask ← codeMask body.text
      match ← matchAt body.text mask .not_ 0 with
      | some count => do
        let rest ← body.between? (body.start + count) body.stop
        stripWithin bound (!negated) rest
      | none => some (body, negated)

/-- Takes all parentheses and `NOT`s off a condition. -/
def strip (fragment : Fragment) : Option (Fragment × Bool) :=
  stripWithin fragment.text.length false fragment

/-! ## Operators -/

/-- The operator behind a `NOT` that ends at an offset, and the offset of its end. -/
def negatedOperator (body behind : Fragment) : Option (Option (Operator × Nat)) := do
  let mask ← codeMask body.text
  let start := behind.start + Text.size (Text.leading behind.text)
  let found ← firstAt body.text mask Condition.negatedEntries (start - body.start)
  some (found.map fun (operator, count) => (operator, start + count))

/-- Splits a condition at its operator. -/
def splitOperator (clause : Clause) (body : Fragment) : Checked Condition.OperatorSplit := do
  match ← splitFirst Condition.operatorEntries body with
  | none => throw (body.error .missingOperator clause)
  | some split =>
    match split.label with
    | .operator operator => pure ⟨split.before, operator, false, split.after⟩
    | .not => do
      match ← negatedOperator body split.after with
      | none => throw (body.error .unsupportedNot clause)
      | some (operator, stop) => do
        let right ← body.between? stop body.stop
        pure ⟨split.before, operator, true, right⟩

/-! ## Conditions -/

/-- Whether some spans are those of one literal in quotation marks that is closed. -/
def isLiteral : List Span → Bool
  | [span] =>
    match span.kind with
    | .quoted _ => span.terminated
    | _ => false
  | _ => false

/-- The literal that a text writes. -/
def literal (text : Text) : Option (Option Literal) := do
  let found ← spans text
  some <|
    if isLiteral found then some (.string (String.ofList text.unquote))
    else if text.isNumber then some (.number (String.ofList text))
    else if text.isWord "TRUE" then some (.boolean true)
    else if text.isWord "FALSE" then some (.boolean false)
    else if text.isWord "NULL" then some .null
    else none

/-- Reads an operand. -/
def operand (clause : Clause) (fragment : Fragment) : Checked Operand :=
  let trimmed := fragment.trim
  if trimmed.text.isEmpty then
    throw ((Fragment.mk fragment.text trimmed.start).error .missingValue clause)
  else if trimmed.text = ['?'] then
    throw (trimmed.error .positionalParameter clause)
  else
    match Text.parameterName? trimmed.text with
    | some name => pure (.parameter (String.ofList name))
    | none => do
      match ← literal trimmed.text with
      | some value => pure (.literal value)
      | none =>
        match ColumnTerm.read clause trimmed with
        | .ok term =>
          if term.aggregate.isNone && !term.isWildcard then
            pure (.column term.table term.column)
          else
            throw (trimmed.error .unsupportedValue clause)
        | .error _ => throw (trimmed.error .unsupportedValue clause)

/-- Reads the right side of a condition into the operands that its operator uses. -/
def operands (clause : Clause) (body right : Fragment) (condition : Condition) :
    Checked Condition :=
  let trimmed : Fragment := ⟨Text.trim right.text, right.start⟩
  match condition.operator with
  | .isNull | .isNotNull =>
    if right.isBlank then pure condition else throw (trimmed.error .textAfterNullTest clause)
  | .between => do
    match ← splitFirst [(Keyword.and_, ())] right with
    | none => throw (body.error .missingBounds clause)
    | some split => do
      let low ← operand clause split.before
      let high ← operand clause split.after
      pure { condition with minValue := some low, maxValue := some high }
  | .inList => do
    match ← inside right with
    | none => throw (trimmed.error .missingList clause)
    | some inner => do
      let items ← splitList inner
      if items.all fun item => item.text.isEmpty then
        throw (trimmed.error .emptyInList clause)
      else do
        let values ← items.mapM (operand clause)
        pure { condition with values }
  | _ => do
    let value ← operand clause right
    pure { condition with value := some value }

/-- Reads one condition. -/
def condition (clause : Clause) (fragment : Fragment) : Checked Condition := do
  let (body, negated) ← strip fragment
  let parts ← splitChain [.and, .or] body
  if 1 < parts.length then
    throw (body.error .nestedGroup clause)
  else do
    let split ← splitOperator clause body
    let term ← .of (Condition.readTerm clause split.left)
    operands clause body split.right
      { term, operator := split.operator, negated := negated ^^ split.negated }

/-- Reads one part of a chain. -/
def chainPart (clause : Clause) (chain : Fragment) (part : ChainPart) : Checked Condition :=
  let connector := part.connector.getD .and
  if part.expression.text.isEmpty then
    throw (chain.trim.error (.missingCondition connector) clause)
  else do
    let read ← condition clause part.expression
    pure { read with connector }

/-- Reads the conditions of WHERE or HAVING. -/
def chain (clause : Clause) (fragment : Fragment) : Checked (List Condition) := do
  let parts ← splitChain [.and, .or] fragment
  parts.mapM (chainPart clause fragment)

/-! ## What is read -/

section Strip

variable {bound : Nat} {negated : Bool} {fragment : Fragment}

/-- A keyword at the front of a text is found in bytes as it is found in cells. -/
theorem matchAt_front {keyword : Keyword} (hplain : keyword.isPlain = true) (text : Text) :
    matchAt text text.codeMask keyword 0 =
      some ((keyword.length? none text.cells).map fun count => Text.size (text.take count)) := by
  have hmatch := matchAt_of_cells (List.nil_append text.cells).symm
    (Keyword.isCapital_of_isPlain hplain)
  have htake : ∀ count, Cell.text (text.cells.take count) = text.take count := by
    intro count
    rw [Cell.text, List.map_take]
    exact congrArg (List.take count) (Mode.text_cells _ _)
  simp only [htake] at hmatch
  exact hmatch

theorem stripWithin_eq (bound : Nat) (negated : Bool) (fragment : Fragment) :
    stripWithin bound negated fragment = some (Condition.stripWithin bound negated fragment) := by
  have hnot := @matchAt_front .not_ rfl
  induction bound generalizing negated fragment with
  | zero => rfl
  | succ bound ih =>
      rw [stripWithin, Condition.stripWithin, inside_eq]
      simp only [Option.bind_eq_bind, Option.bind_some]
      cases fragment.trim.inside? with
      | some inner => exact ih negated inner
      | none =>
          simp only [codeMask_eq, Option.bind_some, hnot]
          cases Keyword.not_.length? none fragment.trim.text.cells with
          | none => rfl
          | some count =>
              simp only [Option.map_some, Fragment.between?_drop, Option.bind_some]
              exact ih (!negated) _

theorem strip_eq (fragment : Fragment) : strip fragment = some (Condition.strip fragment) :=
  stripWithin_eq _ _ _

end Strip

section Operators

variable {body : Fragment}

/-- What is behind the first mark of a fragment is the fragment without what is before it. -/
theorem after_splitFirst? {α : Type} {find : Finder α} {split : Fragment.Split α}
    (hsplit : body.splitFirst? find = some split) :
    split.after = body.drop (split.before.text.length + split.mark.text.length) := by
  obtain ⟨whole, hbody⟩ := body.exists_liesIn
  obtain ⟨-, htile⟩ := hbody.segment find
  have htext := Fragment.text_segment find body
  obtain ⟨first, others, htail, rfl⟩ := Fragment.exists_segment_of_splitFirst? hsplit
  rw [htail] at htile htext
  obtain ⟨-, hmarkStart, -, hbodyStart, -⟩ := htile
  rw [List.flatMap_cons, List.append_assoc] at htext
  have hstart : (body.segment find).head.start = body.start := rfl
  have hfront : ∀ front mark rest : Text,
      (front ++ (mark ++ rest)).take (front.length + mark.length) = front ++ mark ∧
        (front ++ (mark ++ rest)).drop (front.length + mark.length) = rest := by
    intro front mark rest
    rw [← List.append_assoc, ← List.length_append]
    exact ⟨List.take_left, List.drop_left⟩
  rw [Fragment.drop, ← htext]
  simp only [(hfront _ _ _).1, (hfront _ _ _).2, Fragment.mk.injEq, true_and]
  rw [hbodyStart, Fragment.stop, hmarkStart, Fragment.stop, hstart, Text.size_append,
    Nat.add_assoc]

theorem isPlain_negatedEntries : ∀ entry ∈ Condition.negatedEntries, entry.1.isPlain = true := by
  decide

/-- The operator behind a `NOT` is found in bytes as it is found in cells. -/
theorem negatedOperator_eq (body : Fragment) (count : Nat) :
    negatedOperator body (body.drop count) =
      some ((Condition.negatedOperator? body.text count).map fun found =>
        (found.1, body.start + Text.size (body.text.take found.2))) := by
  have hcut : ∀ count, Cell.text (body.text.cells.take count) = body.text.take count := by
    intro count
    rw [Cell.text, List.map_take]
    exact congrArg (List.take count) (Mode.text_cells _ _)
  have hsize : ∀ first length : Nat, Text.size (body.text.take first) +
        Text.size ((body.text.drop first).take length) =
      Text.size (body.text.take (first + length)) := by
    intro first length
    rw [← Text.size_append, ← List.take_add]
  have hleading : ∀ text : Text, Text.leading text = text.take (Text.leading text).length :=
    fun text => List.prefix_iff_eq_take.mp (List.takeWhile_prefix _)
  generalize hstart : count + (Text.leading (body.text.drop count)).length = start
  have hplace : Text.size (body.text.take count) +
      Text.size (Text.leading (body.text.drop count)) = Text.size (body.text.take start) := by
    rw [hleading, hsize, hstart]
  have hfound := @firstAt_of_cells body.text (body.text.cells.take start)
    (body.text.cells.drop start) _ Condition.negatedEntries (List.take_append_drop _ _).symm
    fun entry hentry => Keyword.isCapital_of_isPlain (isPlain_negatedEntries entry hentry)
  have hrest : ∀ length : Nat,
      Cell.text ((body.text.cells.drop start).take length) =
        (body.text.drop start).take length := by
    intro length
    rw [Cell.text, List.map_take, List.map_drop]
    exact congrArg (fun text => (text.drop start).take length) (Mode.text_cells _ _)
  simp only [hcut, hrest] at hfound
  rw [negatedOperator, codeMask_eq, Condition.negatedOperator?, hstart]
  simp only [Fragment.drop, Option.bind_eq_bind, Option.bind_some]
  rw [Nat.add_assoc, hplace, Nat.add_sub_cancel_left, hfound, Condition.negatedFinder,
    ← Condition.negatedEntries]
  simp only [Option.bind_some, Option.map_map, Function.comp_def, Nat.add_assoc, hsize]

theorem splitOperator_eq (clause : Clause) (body : Fragment) :
    splitOperator clause body = .of (Condition.splitOperator clause body) := by
  rw [splitOperator, splitFirst_eq Condition.isPlain_operatorEntries, Condition.splitOperator,
    Condition.operatorFinder, ← Condition.operatorEntries]
  simp only [Checked.liftM_some, pure_bind]
  cases hsplit : body.splitFirst? (.ofKeywords Condition.operatorEntries) with
  | none => rfl
  | some split =>
      dsimp only
      cases hlabel : split.label with
      | operator operator => rfl
      | not =>
          dsimp only
          rw [after_splitFirst? hsplit, negatedOperator_eq]
          simp only [Checked.liftM_some, pure_bind]
          cases Condition.negatedOperator? body.text
              (split.before.text.length + split.mark.text.length) with
          | none => rfl
          | some found =>
              obtain ⟨operator, count⟩ := found
              simp only [Option.map_some, Fragment.between?_drop, Checked.liftM_some, pure_bind]
              rfl

end Operators

/-! ### Conditions -/

section Conditions

variable (clause : Clause)

theorem literal_eq (text : Text) : literal text = some (Operand.literalOf? text) := by
  have hquoted : isLiteral text.spans = text.isQuotedLiteral := by
    rw [Text.isQuotedLiteral]
    split
    · rename_i span hspan
      rw [hspan]
      rfl
    · rename_i hmany
      rw [isLiteral]
      exact hmany
  rw [literal, spans_eq, Operand.literalOf?]
  simp only [Option.bind_eq_bind, Option.bind_some, hquoted]

theorem operand_eq (fragment : Fragment) :
    operand clause fragment = .of (Operand.read clause fragment) := by
  rw [operand, Operand.read]
  split
  · rfl
  split
  · rfl
  cases Text.parameterName? fragment.trim.text with
  | some name => rfl
  | none =>
      simp only [literal_eq, Checked.liftM_some, pure_bind]
      cases Operand.literalOf? fragment.trim.text with
      | some value => rfl
      | none =>
          cases ColumnTerm.read clause fragment.trim with
          | error _ => rfl
          | ok term =>
              dsimp only
              split <;> rfl

theorem operands_eq (body right : Fragment) (condition : Condition) :
    operands clause body right condition =
      .of (Condition.readOperands clause body right condition) := by
  have hand : ∀ entry ∈ [(Keyword.and_, ())], entry.1.isPlain = true := by decide
  rw [operands, Condition.readOperands]
  cases condition.operator with
  | isNull | isNotNull =>
      dsimp only
      split <;> rfl
  | between =>
      dsimp only
      rw [splitFirst_eq hand, Finder.ofKeyword]
      simp only [Checked.liftM_some, pure_bind]
      cases right.splitFirst? (.ofKeywords [(Keyword.and_, ())]) with
      | none => rfl
      | some split =>
          simp only [operand_eq, Checked.of_bind, Checked.of_ok]
  | inList =>
      dsimp only
      rw [inside_eq]
      simp only [Checked.liftM_some, pure_bind]
      cases right.inside? with
      | none => rfl
      | some inner =>
          simp only [splitList_eq, Checked.liftM_some, pure_bind]
          split
          · rfl
          · rw [Checked.mapM_of (operand_eq clause), Checked.of_bind]
            rfl
  | equal | notEqual | greater | greaterOrEqual | less | lessOrEqual | like =>
      simp only [operand_eq, Checked.of_bind, Checked.of_ok]

theorem condition_eq (fragment : Fragment) :
    condition clause fragment = .of (Condition.read clause fragment) := by
  rw [condition, strip_eq, Condition.read]
  simp only [Checked.liftM_some, pure_bind, splitChain_eq]
  split
  · rfl
  · simp only [splitOperator_eq, operands_eq, Checked.of_bind]

theorem chainPart_eq (chain : Fragment) (part : ChainPart) :
    chainPart clause chain part = .of (Condition.readPart clause chain part) := by
  rw [chainPart, Condition.readPart]
  split
  · rfl
  · simp only [condition_eq, Checked.of_bind, Checked.of_ok]

/-- The conditions of a chain are read by cuts as they are read by cells. -/
theorem chain_eq (fragment : Fragment) :
    chain clause fragment = .of (Condition.readChain clause fragment) := by
  rw [chain, splitChain_eq, Condition.readChain]
  exact Checked.mapM_of (chainPart_eq clause fragment) _

end Conditions

end Bytewise

end SelectForm

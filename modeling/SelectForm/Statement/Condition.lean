import SelectForm.Statement.Operand
import SelectForm.Statement.Split

/-!
# Reading conditions

WHERE and HAVING are chains of conditions joined by `AND` and `OR`, without
groups.  A condition may stand in parentheses and behind any number of `NOT`s;
an odd number of them, together with the one inside `NOT BETWEEN`, `NOT IN` or
`NOT LIKE`, negates it.  Its operator is the first one that stands outside inner
parentheses.
-/

namespace SelectForm

namespace Condition

/-! ## Parentheses and negations around a condition -/

/-- Takes parentheses and `NOT`s off a condition, at most as many as `bound` says,
and tells whether it is then negated. -/
def stripWithin (bound : Nat) (negated : Bool) (fragment : Fragment) : Fragment × Bool :=
  match bound with
  | 0 => (fragment.trim, negated)
  | bound + 1 =>
    let body := fragment.trim
    match body.inside? with
    | some inner => stripWithin bound negated inner
    | none =>
      match Keyword.not_.length? none body.text.cells with
      | some count => stripWithin bound (!negated) (body.drop count)
      | none => (body, negated)

/-- Takes all parentheses and `NOT`s off a condition.  Each takes a character, so
the length of the text bounds their number. -/
def strip (fragment : Fragment) : Fragment × Bool :=
  stripWithin fragment.text.length false fragment

/-! ## The operator of a condition -/

/-- What may mark the operator of a condition. -/
inductive OperatorMark
  | operator (operator : Operator)
  | not
deriving DecidableEq, Repr

/-- Finds the operator of a condition; a longer symbol comes before one that it
begins with. -/
def operatorFinder : Finder OperatorMark :=
  .ofKeywords
    [(.isNotNull, .operator .isNotNull), (.isNull, .operator .isNull), (.not_, .not),
      (.between, .operator .between), (.in_, .operator .inList), (.like, .operator .like),
      (.notEqual, .operator .notEqual), (.notEqualBang, .operator .notEqual),
      (.greaterOrEqual, .operator .greaterOrEqual),
      (.lessOrEqual, .operator .lessOrEqual), (.equal, .operator .equal),
      (.greater, .operator .greater), (.less, .operator .less)]

/-- Finds an operator that may stand behind `NOT`. -/
def negatedFinder : Finder Operator :=
  .ofKeywords [(.between, .between), (.in_, .inList), (.like, .like)]

/-- The operator behind a `NOT` that ends behind the first `count` characters of a
condition, and the number of characters up to its end. -/
def negatedOperator? (body : Text) (count : Nat) : Option (Operator × Nat) :=
  let start := count + (Text.leading (body.drop count)).length
  (negatedFinder (body.take start).getLast? (body.cells.drop start)).map
    fun (operator, length) => (operator, start + length)

/-- A condition split at its operator. -/
structure OperatorSplit where
  left : Fragment
  operator : Operator
  /-- `NOT` stands in front of the operator. -/
  negated : Bool
  right : Fragment

/-- Splits a condition at its operator. -/
def splitOperator (clause : Clause) (body : Fragment) : Except ParseError OperatorSplit :=
  match body.splitFirst? operatorFinder with
  | none => .error (body.error .missingOperator clause)
  | some split =>
    match split.label with
    | .operator operator => .ok ⟨split.before, operator, false, split.after⟩
    | .not =>
      let count := split.before.text.length + split.mark.text.length
      match negatedOperator? body.text count with
      | none => .error (body.error .unsupportedNot clause)
      | some (operator, count) => .ok ⟨split.before, operator, true, body.drop count⟩

/-! ## The sides of a condition -/

/-- Reads the column on the left side of a condition. -/
def readTerm (clause : Clause) (left : Fragment) : Except ParseError ColumnTerm := do
  let term ← ColumnTerm.read clause left
  let trimmed : Fragment := ⟨Text.trim left.text, left.start⟩
  if term.isBareWildcard then
    .error (trimmed.error .comparedWildcard clause)
  else if clause = .where_ ∧ term.aggregate.isSome then
    .error (trimmed.error .aggregateInWhere clause)
  else
    .ok term

/-- Reads the right side of a condition into the operands that its operator uses. -/
def readOperands (clause : Clause) (body right : Fragment) (condition : Condition) :
    Except ParseError Condition :=
  let trimmed : Fragment := ⟨Text.trim right.text, right.start⟩
  match condition.operator with
  | .isNull | .isNotNull =>
    if right.isBlank then .ok condition else .error (trimmed.error .textAfterNullTest clause)
  | .between =>
    match right.splitFirst? (.ofKeyword .and_) with
    | none => .error (body.error .missingBounds clause)
    | some split => do
      let low ← Operand.read clause split.before
      let high ← Operand.read clause split.after
      .ok { condition with minValue := some low, maxValue := some high }
  | .inList =>
    match right.inside? with
    | none => .error (trimmed.error .missingList clause)
    | some inner =>
      if inner.splitList.all fun item => item.text.isEmpty then
        .error (trimmed.error .emptyInList clause)
      else do
        let values ← inner.splitList.mapM (Operand.read clause)
        .ok { condition with values }
  | _ => do
    let value ← Operand.read clause right
    .ok { condition with value := some value }

/-- Reads one condition. -/
def read (clause : Clause) (fragment : Fragment) : Except ParseError Condition :=
  let (body, negated) := strip fragment
  if 1 < (body.splitChain [.and, .or]).length then
    .error (body.error .nestedGroup clause)
  else do
    let split ← splitOperator clause body
    let term ← readTerm clause split.left
    readOperands clause body split.right
      { term, operator := split.operator, negated := negated ^^ split.negated }

/-! ## Chains of conditions -/

/-- Reads one part of a chain. -/
def readPart (clause : Clause) (chain : Fragment) (part : ChainPart) :
    Except ParseError Condition :=
  let connector := part.connector.getD .and
  if part.expression.text.isEmpty then
    .error (chain.trim.error (.missingCondition connector) clause)
  else do
    let condition ← read clause part.expression
    .ok { condition with connector }

/-- Reads the conditions of WHERE or HAVING. -/
def readChain (clause : Clause) (fragment : Fragment) :
    Except ParseError (List Condition) :=
  (fragment.splitChain [.and, .or]).mapM (readPart clause fragment)

end Condition

end SelectForm

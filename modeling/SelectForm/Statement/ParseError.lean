import SelectForm.Text.Fragment
import SelectForm.Query.Vocabulary

/-!
# Errors of reading a statement

A statement is read as a whole or not at all, and an error tells why: its cause,
the clause in which it was found, and the text and the byte offsets to which it
points.
-/

namespace SelectForm

/-- Why a statement cannot be read. -/
inductive ParseError.Cause
  | unterminatedComment
  | unterminatedIdentifier
  | unterminatedString
  | multipleStatements
  | unbalancedParentheses
  | commonTableExpression
  | notSelect
  | setOperation
  | windowFunction
  | subquery
  | positionalParameter
  | repeatedClause (name : String)
  | misplacedClause (name : String)
  | emptyClause (name : String)
  | missingFrom
  | emptySelectItem
  | emptyGroupItem
  | emptyOrderItem
  | invalidAlias (name : String)
  | aliasedWildcard
  | unsupportedFunction (name : String)
  | unsupportedArgument
  | aggregatedWildcard (function : Aggregate)
  | unsupportedColumn
  | missingValue
  | unsupportedValue
  | nestedGroup
  | missingOperator
  | unsupportedNot
  | comparedWildcard
  | aggregateInWhere
  | textAfterNullTest
  | missingBounds
  | missingList
  | emptyInList
  | missingCondition (connector : Connector)
  | derivedTable
  | invalidTable
  | invalidTableName (name : String)
  | missingTable
  | textBeforeJoin
  | crossJoin
  | naturalJoin
  | joinUsing
  | joinWithoutOn
  | orInJoin
  | missingJoinCondition
  | unsupportedJoinCondition
  | unqualifiedJoinColumn
  | aggregateInGroupBy
  | groupedWildcard
  | orderedWildcard
  | invalidText
  | invalidPaging
  | parameterInPaging (keyword : String)
  | commaInPaging (keyword : String)
  | invalidNumber (keyword : String)
deriving DecidableEq, Repr

namespace ParseError.Cause

/-- The wording of a cause. -/
def message : Cause → String
  | unterminatedComment => "Unterminated block comment"
  | unterminatedIdentifier => "Unterminated quoted identifier"
  | unterminatedString => "Unterminated string literal"
  | multipleStatements => "Multiple statements are not supported"
  | unbalancedParentheses => "Unbalanced parentheses"
  | commonTableExpression => "Common table expressions (WITH) are not supported"
  | notSelect => "Only SELECT statements are supported"
  | setOperation => "Set operations (UNION/INTERSECT/EXCEPT) are not supported"
  | windowFunction => "Window functions (OVER) are not supported"
  | subquery => "Subqueries are not supported"
  | positionalParameter => "Positional parameters are not supported, use :name"
  | repeatedClause name => name ++ " appears more than once"
  | misplacedClause name => name ++ " is out of order"
  | emptyClause name => "Empty " ++ name ++ " clause"
  | missingFrom => "Missing FROM clause"
  | emptySelectItem => "Empty select item"
  | emptyGroupItem => "Empty GROUP BY item"
  | emptyOrderItem => "Empty ORDER BY item"
  | invalidAlias name => "Invalid alias '" ++ name ++ "'"
  | aliasedWildcard => "A wildcard cannot have an alias"
  | unsupportedFunction name => "Unsupported function '" ++ name ++ "'"
  | unsupportedArgument => "Unsupported aggregate argument"
  | aggregatedWildcard function => function.keyword ++ "(*) is not supported"
  | unsupportedColumn => "Unsupported column expression"
  | missingValue => "Missing value"
  | unsupportedValue => "Unsupported value expression"
  | nestedGroup => "Nested AND/OR groups are not supported"
  | missingOperator => "Missing comparison operator"
  | unsupportedNot => "Unsupported use of NOT"
  | comparedWildcard => "A wildcard cannot be used in a condition"
  | aggregateInWhere => "Aggregate functions are not allowed in WHERE, use HAVING"
  | textAfterNullTest => "Unexpected text after IS NULL"
  | missingBounds => "BETWEEN requires two bounds"
  | missingList => "IN requires a parenthesized list"
  | emptyInList => "Empty IN list"
  | missingCondition connector => "Missing condition around " ++ connector.keyword
  | derivedTable => "Derived tables are not supported"
  | invalidTable => "Invalid table reference"
  | invalidTableName name => "Invalid table name '" ++ name ++ "'"
  | missingTable => "Missing table name"
  | textBeforeJoin => "Unexpected text before JOIN"
  | crossJoin => "CROSS JOIN is not supported"
  | naturalJoin => "NATURAL JOIN is not supported"
  | joinUsing => "JOIN ... USING is not supported"
  | joinWithoutOn => "JOIN requires an ON condition"
  | orInJoin => "OR is not supported in JOIN conditions"
  | missingJoinCondition => "Missing JOIN condition"
  | unsupportedJoinCondition => "Unsupported JOIN condition"
  | unqualifiedJoinColumn => "JOIN condition columns must be table qualified"
  | aggregateInGroupBy => "Aggregate functions are not allowed in GROUP BY"
  | groupedWildcard => "A wildcard cannot be grouped"
  | orderedWildcard => "A wildcard cannot be ordered"
  | invalidText => "Invalid text"
  | invalidPaging => "Invalid LIMIT/OFFSET"
  | parameterInPaging keyword => "Parameterized " ++ keyword ++ " is not supported"
  | commaInPaging keyword =>
    keyword ++ " a, b is not supported, use LIMIT .. OFFSET .."
  | invalidNumber keyword => "Invalid " ++ keyword

end ParseError.Cause

/-- An error of reading, with the place to which it points. -/
structure ParseError where
  cause : ParseError.Cause
  clause : Option Clause
  text : Text
  start : Nat
  stop : Nat
deriving DecidableEq, Repr

namespace ParseError

def message (error : ParseError) : String := error.cause.message

/-- The whole report of an error. -/
def report (error : ParseError) : String :=
  "ParseError: " ++ error.message ++
    (match error.clause with
      | some clause => " (in " ++ clause.keyword ++ ")"
      | none => "") ++
    "\n  at [" ++ toString error.start ++ ":" ++ toString error.stop ++ "] -> '" ++
    String.ofList error.text ++ "'"

/-- The error in a text that stands at an offset of a larger one. -/
def shift (offset : Nat) (error : ParseError) : ParseError :=
  { error with start := error.start + offset, stop := error.stop + offset }

end ParseError

/-- The error that points at a fragment. -/
def Fragment.error (fragment : Fragment) (cause : ParseError.Cause)
    (clause : Option Clause) : ParseError :=
  ⟨cause, clause, fragment.text, fragment.start, fragment.stop⟩

end SelectForm

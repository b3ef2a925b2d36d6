import SelectForm.Text.Blank
import SelectForm.Text.Letter

/-!
# The words of a query

The fixed choices that a query is made of: aggregate functions, kinds of joins,
comparison operators, connectors, sort directions and clauses, each with the
words that stand for it.
-/

namespace SelectForm

/-! ## Aggregate functions -/

inductive Aggregate
  | count
  | sum
  | avg
  | max
  | min
deriving DecidableEq, Repr

namespace Aggregate

def keyword : Aggregate → String
  | count => "COUNT"
  | sum => "SUM"
  | avg => "AVG"
  | max => "MAX"
  | min => "MIN"

def all : List Aggregate := [count, sum, avg, max, min]

/-- The function with the given keyword. -/
def ofKeyword? (word : String) : Option Aggregate :=
  all.find? fun aggregate => aggregate.keyword == word

/-- The function with the given name, in any case and with blanks around it. -/
def ofName? (name : String) : Option Aggregate :=
  all.find? fun aggregate =>
    Text.sameLetters aggregate.keyword.toList (Text.trim name.toList)

/-- Only `COUNT` may be applied to a wildcard. -/
def acceptsWildcard : Aggregate → Bool
  | count => true
  | _ => false

/-- Functions whose result is a number whatever they are applied to. -/
def isNumeric : Aggregate → Bool
  | count | sum | avg => true
  | max | min => false

end Aggregate

/-! ## Joins -/

inductive JoinKind
  | inner
  | left
  | right
  | fullOuter
deriving DecidableEq, Repr

namespace JoinKind

def name : JoinKind → String
  | inner => "INNER"
  | left => "LEFT"
  | right => "RIGHT"
  | fullOuter => "FULL OUTER"

def keyword (kind : JoinKind) : String := kind.name ++ " JOIN"

def all : List JoinKind := [inner, left, right, fullOuter]

/-- The kind of join with the given name. -/
def ofName? (name : String) : Option JoinKind :=
  all.find? fun kind => kind.name == name

end JoinKind

/-! ## Operators -/

inductive Operator
  | equal
  | notEqual
  | less
  | greater
  | lessOrEqual
  | greaterOrEqual
  | like
  | inList
  | between
  | isNull
  | isNotNull
deriving DecidableEq, Repr

namespace Operator

def keyword : Operator → String
  | equal => "="
  | notEqual => "<>"
  | less => "<"
  | greater => ">"
  | lessOrEqual => "<="
  | greaterOrEqual => ">="
  | like => "LIKE"
  | inList => "IN"
  | between => "BETWEEN"
  | isNull => "IS NULL"
  | isNotNull => "IS NOT NULL"

def all : List Operator :=
  [equal, notEqual, less, greater, lessOrEqual, greaterOrEqual, like, inList, between,
    isNull, isNotNull]

/-- A comparison of two single values. -/
def isComparison : Operator → Bool
  | equal | notEqual | less | greater | lessOrEqual | greaterOrEqual => true
  | _ => false

/-- Operators that depend on the order of values. -/
def isRange : Operator → Bool
  | less | greater | lessOrEqual | greaterOrEqual | between => true
  | _ => false

/-- Operators with one value on their right side. -/
def usesSingleValue (operator : Operator) : Bool :=
  operator.isComparison || operator == like

/-- The operator with the given keyword; `!=` is another form of `<>`. -/
def ofKeyword? (word : String) : Option Operator :=
  if word == "!=" then
    some notEqual
  else
    all.find? fun operator => operator.keyword == word

/-- The comparison with the given symbol, with blanks around it. -/
def ofSymbol? (symbol : String) : Option Operator :=
  match ofKeyword? (String.ofList (Text.trim symbol.toList)) with
  | some operator => if operator.isComparison then some operator else none
  | none => none

end Operator

/-! ## Connectors and directions -/

inductive Connector
  | and
  | or
deriving DecidableEq, Repr

namespace Connector

def keyword : Connector → String
  | and => "AND"
  | or => "OR"

/-- The connector with the given keyword. -/
def ofKeyword? (word : String) : Option Connector :=
  [and, or].find? fun connector => connector.keyword == word

end Connector

inductive Direction
  | ascending
  | descending
deriving DecidableEq, Repr

namespace Direction

def keyword : Direction → String
  | ascending => "ASC"
  | descending => "DESC"

/-- The direction with the given keyword. -/
def ofKeyword? (word : String) : Option Direction :=
  [ascending, descending].find? fun direction => direction.keyword == word

end Direction

/-! ## Clauses -/

/-- The clauses of a statement, in the order in which they must come. -/
inductive Clause
  | select
  | from_
  | join
  | where_
  | groupBy
  | having
  | orderBy
  | paging
deriving DecidableEq, Repr

namespace Clause

def keyword : Clause → String
  | select => "SELECT"
  | from_ => "FROM"
  | join => "JOIN"
  | where_ => "WHERE"
  | groupBy => "GROUP BY"
  | having => "HAVING"
  | orderBy => "ORDER BY"
  | paging => "LIMIT/OFFSET"

/-- The place of a clause in a statement. -/
def rank : Clause → Nat
  | select => 0
  | from_ => 1
  | join => 2
  | where_ => 3
  | groupBy => 4
  | having => 5
  | orderBy => 6
  | paging => 7

end Clause

end SelectForm

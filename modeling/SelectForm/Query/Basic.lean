import SelectForm.Query.Operand
import SelectForm.Query.Vocabulary

/-!
# Queries

A single SELECT statement taken apart into its clauses.  The type admits every
form that an editor may hold on the way to a statement: an empty list of tables,
a wildcard inside `SUM` or an operand that the operator of its condition does
not use.  Which queries can be written as a statement is decided by the checks.
-/

namespace SelectForm

/-- A column, alone or as the argument of an aggregate function. -/
structure ColumnTerm where
  table : Option String := none
  /-- The name of the column, or `*`. -/
  column : String := ""
  aggregate : Option Aggregate := none
  /-- `DISTINCT` in front of the argument of the aggregate function. -/
  distinct : Bool := false
deriving DecidableEq, Repr

namespace ColumnTerm

def isWildcard (term : ColumnTerm) : Bool := term.column == "*"

/-- A wildcard that is not the argument of an aggregate function. -/
def isBareWildcard (term : ColumnTerm) : Bool :=
  term.isWildcard && term.aggregate.isNone

end ColumnTerm

/-- An entry of the SELECT list. -/
structure SelectItem where
  term : ColumnTerm := {}
  aliasName : Option String := none
deriving DecidableEq, Repr

namespace SelectItem

def wildcard : SelectItem := { term := { column := "*" } }

end SelectItem

/-- A table with the alias under which it is declared. -/
structure TableItem where
  tableName : String := ""
  aliasName : Option String := none
deriving DecidableEq, Repr

namespace TableItem

/-- The name by which other clauses refer to the table. -/
def reference (table : TableItem) : String :=
  table.aliasName.getD (Identifier.ofTable table.tableName)

end TableItem

/-- A comparison of a column of one table with a column of another. -/
structure JoinCondition where
  leftTable : String := ""
  leftColumn : String := ""
  operator : Operator := .equal
  rightTable : String := ""
  rightColumn : String := ""
deriving DecidableEq, Repr

/-- A joined table; all its conditions must hold. -/
structure Join where
  kind : JoinKind := .inner
  table : TableItem := {}
  conditions : List JoinCondition := []
deriving DecidableEq, Repr

/-- A condition of WHERE or HAVING.  The connector joins it to the condition
before it, and has no meaning in the first condition of a clause. -/
structure Condition where
  term : ColumnTerm := {}
  operator : Operator := .equal
  value : Option Operand := none
  values : List Operand := []
  minValue : Option Operand := none
  maxValue : Option Operand := none
  negated : Bool := false
  connector : Connector := .and
deriving DecidableEq, Repr

namespace Condition

/-- All operands of a condition, in the order in which they are written. -/
def operands (condition : Condition) : List Operand :=
  condition.value.toList ++ condition.values ++ condition.minValue.toList ++
    condition.maxValue.toList

/-- A condition with its operands in the places that its operator reads.  Operands
that do not fit the operator in number are left out, but one alone is always
kept. -/
def ofOperands (column : String) (operator : Operator) (operands : List Operand) :
    Condition :=
  let condition : Condition := { term := { column }, operator }
  match operator, operands with
  | .inList, values => { condition with values }
  | .between, [low, high] => { condition with minValue := some low, maxValue := some high }
  | _, [value] => { condition with value := some value }
  | _, _ => condition

end Condition

/-- An entry of GROUP BY.  An aggregate function is never valid there; it is kept
so that it can be reported. -/
structure GroupItem where
  table : Option String := none
  column : String := ""
  aggregate : Option Aggregate := none
deriving DecidableEq, Repr

namespace GroupItem

def term (item : GroupItem) : ColumnTerm where
  table := item.table
  column := item.column
  aggregate := item.aggregate

end GroupItem

/-- An entry of ORDER BY. -/
structure OrderItem where
  term : ColumnTerm := {}
  direction : Direction := .ascending
deriving DecidableEq, Repr

/-- A SELECT statement, clause by clause. -/
structure Query where
  columns : List SelectItem := []
  distinct : Bool := false
  tables : List TableItem := []
  joins : List Join := []
  filters : List Condition := []
  groups : List GroupItem := []
  groupFilters : List Condition := []
  orders : List OrderItem := []
  limit : Option UInt64 := none
  offset : Option UInt64 := none
deriving DecidableEq, Repr

namespace Query

/-- Whether an aggregate function is selected. -/
def hasAggregates (query : Query) : Bool :=
  query.columns.any fun item => item.term.aggregate.isSome

/-- Whether nothing has been put into the query. -/
def isEmpty (query : Query) : Bool := query == {}

end Query

end SelectForm

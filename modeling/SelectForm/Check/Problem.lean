import SelectForm.Query.Reference

/-!
# Problems of a query

A query with a problem cannot be written as a statement.  The problems are found
clause by clause: tables first, so that the names that they declare are known,
then SELECT, the conditions of joins, WHERE, GROUP BY, HAVING and ORDER BY.
-/

namespace SelectForm

inductive Problem
  | noSelectColumns
  | noFromTable
  | undeclaredReference (clause : Clause) (reference : String)
  | aggregateInWhere (function : Aggregate) (column : String)
  | aggregateInGroupBy (function : Aggregate) (column : String)
  | duplicateReference (reference : String)
  | joinWithoutCondition (table : String)
  | invalidJoinOperator (table : String) (operator : Operator)
  | betweenBounds (clause : Clause) (column : String)
  | missingValue (clause : Clause) (column : String) (operator : Operator)
  | emptyInList (clause : Clause) (column : String)
  | invalidIdentifier (clause : Clause) (identifier : String)
  | invalidNumber (clause : Clause) (text : String)
  | invalidWildcard (clause : Clause)
  | distinctWildcard (clause : Clause)
  | distinctWithoutAggregate (clause : Clause) (column : String)
  | invalidParameter (clause : Clause) (name : String)
deriving DecidableEq, Repr

namespace Problem

def message : Problem → String
  | noSelectColumns => "At least one SELECT column is required"
  | noFromTable => "At least one FROM table is required"
  | undeclaredReference clause reference =>
    clause.keyword ++ " references undeclared table or alias '" ++ reference ++ "'"
  | aggregateInWhere function column =>
    "Aggregate function " ++ function.keyword ++ "(" ++ column ++
      ") is not allowed in WHERE, use HAVING"
  | aggregateInGroupBy function column =>
    "Aggregate function " ++ function.keyword ++ "(" ++ column ++
      ") is not allowed in GROUP BY"
  | duplicateReference reference =>
    "Table reference '" ++ reference ++ "' is declared more than once"
  | joinWithoutCondition table =>
    "JOIN " ++ table ++ " requires at least one ON condition"
  | invalidJoinOperator table operator =>
    "JOIN " ++ table ++ " uses unsupported operator " ++ operator.keyword ++
      " in its ON condition"
  | betweenBounds clause column =>
    clause.keyword ++ " BETWEEN on '" ++ column ++ "' requires both bounds"
  | missingValue clause column operator =>
    clause.keyword ++ " condition on '" ++ column ++ "' requires a value for " ++
      operator.keyword
  | emptyInList clause column =>
    clause.keyword ++ " IN on '" ++ column ++ "' requires at least one value"
  | invalidIdentifier clause identifier =>
    clause.keyword ++ " contains invalid identifier '" ++ identifier ++ "'"
  | invalidNumber clause text =>
    clause.keyword ++ " contains invalid number '" ++ text ++ "'"
  | invalidWildcard clause =>
    clause.keyword ++ " uses '*' outside a bare SELECT column or COUNT(*)"
  | distinctWildcard clause =>
    clause.keyword ++ " uses DISTINCT with '*', which is not supported"
  | distinctWithoutAggregate clause column =>
    clause.keyword ++ " marks '" ++ column ++ "' DISTINCT without an aggregate function"
  | invalidParameter clause name =>
    clause.keyword ++ " contains invalid parameter name ':" ++ name ++ "'"

/-- A problem that is there under a condition. -/
def when (condition : Bool) (problem : Problem) : List Problem :=
  if condition then [problem] else []

end Problem

/-! ## Tables -/

namespace TableItem

/-- The invalid names of a declared table. -/
def problems (clause : Clause) (table : TableItem) : List Problem :=
  Problem.when (!Identifier.isValidTable table.tableName)
      (.invalidIdentifier clause table.tableName) ++
    match table.aliasName with
    | some aliasName =>
      Problem.when (!Identifier.isValid aliasName) (.invalidIdentifier clause aliasName)
    | none => []

end TableItem

namespace Query

/-- The references that a table before them declares already, each spelling once. -/
def duplicateReferences (query : Query) : List String :=
  (go {} query.declaredTables).eraseDups
where
  go (scope : Scope) : List DeclaredTable → List String
    | [] => []
    | table :: rest =>
      if scope.contains table.reference then
        table.reference :: go scope rest
      else
        go (scope.add table.reference table.tableName) rest

/-- The names that the tables of a query declare. -/
def scope (query : Query) : Scope := Scope.ofTables query.declaredTables

/-- The problems of FROM and of the tables of joins. -/
def tableProblems (query : Query) : List Problem :=
  Problem.when query.tables.isEmpty .noFromTable ++
    query.tables.flatMap (TableItem.problems .from_) ++
    query.joins.flatMap (fun join => join.table.problems .join) ++
    query.duplicateReferences.map .duplicateReference

end Query

/-! ## Columns and operands -/

namespace ColumnTerm

/-- The problems of the table that qualifies a column. -/
def tableProblems (scope : Scope) (clause : Clause) (term : ColumnTerm) :
    List Problem :=
  match term.table with
  | none => []
  | some table =>
    if !Identifier.isValid table then [.invalidIdentifier clause table]
    else Problem.when (!scope.resolves table) (.undeclaredReference clause table)

/-- The problems of a wildcard: it stands for all columns in SELECT only, and
otherwise is the argument of an aggregate function that accepts it. -/
def wildcardProblems (clause : Clause) (term : ColumnTerm) : List Problem :=
  match term.aggregate with
  | none => Problem.when (clause != .select) (.invalidWildcard clause)
  | some aggregate =>
    if term.table.isSome || !aggregate.acceptsWildcard then
      [.invalidWildcard clause]
    else
      Problem.when term.distinct (.distinctWildcard clause)

/-- The problems of a column in a clause. -/
def problems (scope : Scope) (clause : Clause) (term : ColumnTerm) : List Problem :=
  term.tableProblems scope clause ++
    if term.isWildcard then
      term.wildcardProblems clause
    else
      Problem.when (!Identifier.isValid term.column)
          (.invalidIdentifier clause term.column) ++
        Problem.when (term.distinct && term.aggregate.isNone)
          (.distinctWithoutAggregate clause term.column)

end ColumnTerm

namespace Operand

/-- The problems of an operand in a clause. -/
def problems (scope : Scope) (clause : Clause) : Operand → List Problem
  | parameter name =>
    Problem.when (!Text.isParameterName name.toList) (.invalidParameter clause name)
  | literal (.number text) =>
    Problem.when (!Text.isNumber text.toList) (.invalidNumber clause text)
  | literal _ => []
  | column table name => ColumnTerm.problems scope clause { table, column := name }

end Operand

/-! ## Clauses -/

namespace SelectItem

def problems (scope : Scope) (item : SelectItem) : List Problem :=
  item.term.problems scope .select ++
    match item.aliasName with
    | none => []
    | some aliasName =>
      if item.term.isBareWildcard then [.invalidWildcard .select]
      else
        Problem.when (!Identifier.isValid aliasName) (.invalidIdentifier .select aliasName)

end SelectItem

namespace JoinCondition

def problems (scope : Scope) (table : String) (condition : JoinCondition) :
    List Problem :=
  Problem.when (!condition.operator.isComparison)
      (.invalidJoinOperator table condition.operator) ++
    ColumnTerm.problems scope .join
      { table := some condition.leftTable, column := condition.leftColumn } ++
    ColumnTerm.problems scope .join
      { table := some condition.rightTable, column := condition.rightColumn }

end JoinCondition

namespace Join

def problems (scope : Scope) (join : Join) : List Problem :=
  Problem.when join.conditions.isEmpty (.joinWithoutCondition join.table.tableName) ++
    join.conditions.flatMap (JoinCondition.problems scope join.table.tableName)

end Join

namespace Condition

/-- The operands that the operator of a condition needs and that are missing. -/
def slotProblems (clause : Clause) (condition : Condition) : List Problem :=
  match condition.operator with
  | .between =>
    Problem.when (condition.minValue.isNone || condition.maxValue.isNone)
      (.betweenBounds clause condition.term.column)
  | .inList =>
    Problem.when condition.values.isEmpty (.emptyInList clause condition.term.column)
  | .isNull | .isNotNull => []
  | operator =>
    Problem.when condition.value.isNone
      (.missingValue clause condition.term.column operator)

def problems (scope : Scope) (clause : Clause) (condition : Condition) :
    List Problem :=
  condition.term.problems scope clause ++ condition.slotProblems clause ++
    condition.operands.flatMap (Operand.problems scope clause)

/-- An aggregate function in a condition of WHERE. -/
def aggregateProblems (condition : Condition) : List Problem :=
  match condition.term.aggregate with
  | some function => [.aggregateInWhere function condition.term.column]
  | none => []

end Condition

namespace GroupItem

def problems (scope : Scope) (item : GroupItem) : List Problem :=
  (match item.aggregate with
    | some function => [.aggregateInGroupBy function item.column]
    | none => []) ++
    item.term.problems scope .groupBy

end GroupItem

namespace Query

/-- All problems of a query. -/
def problems (query : Query) : List Problem :=
  query.tableProblems ++
    Problem.when query.columns.isEmpty .noSelectColumns ++
    query.columns.flatMap (SelectItem.problems query.scope) ++
    query.joins.flatMap (Join.problems query.scope) ++
    query.filters.flatMap (fun condition =>
      condition.aggregateProblems ++ condition.problems query.scope .where_) ++
    query.groups.flatMap (GroupItem.problems query.scope) ++
    query.groupFilters.flatMap (Condition.problems query.scope .having) ++
    query.orders.flatMap fun item => item.term.problems query.scope .orderBy

/-- A query that can be written as a statement. -/
def isValid (query : Query) : Bool := query.problems.isEmpty

end Query

end SelectForm

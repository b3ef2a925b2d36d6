import SelectForm.Query.Basic

/-!
# Tables and the names that refer to them

A query declares tables in FROM and JOIN, and its other clauses qualify columns
by names that refer to a declared table: its alias, or its own name with or
without the schema.  A scope collects the declared names.
-/

namespace SelectForm

/-- A table of FROM or JOIN as the other clauses see it. -/
structure DeclaredTable where
  reference : String
  tableName : String
  aliased : Bool
deriving DecidableEq, Repr

namespace TableItem

def declared (table : TableItem) : DeclaredTable where
  reference := table.reference
  tableName := table.tableName
  aliased := table.aliasName.isSome

end TableItem

namespace DeclaredTable

/-- Whether a name is the name of the table, with or without its schema. -/
def isNamed (table : DeclaredTable) (name : String) : Bool :=
  Identifier.same table.tableName name ||
    Identifier.same (Identifier.ofTable table.tableName) name

end DeclaredTable

namespace Query

/-- The tables of FROM, then those of JOIN. -/
def tableItems (query : Query) : List TableItem :=
  query.tables ++ query.joins.map Join.table

/-- The declared tables, in order. -/
def declaredTables (query : Query) : List DeclaredTable :=
  query.tableItems.map TableItem.declared

end Query

/-! ## Scopes -/

/-- Visible names, in small letters, with the tables behind them, in the order in
which they were first added. -/
structure Scope where
  entries : List (String × String) := []
deriving DecidableEq, Repr

namespace Scope

/-- Whether a name is visible. -/
def contains (scope : Scope) (visible : String) : Bool :=
  scope.entries.any fun entry => entry.1 == Identifier.lower visible

/-- Makes a name visible; a name that was visible before now stands for the new
table. -/
def add (scope : Scope) (visible tableName : String) : Scope :=
  if scope.contains visible then
    ⟨scope.entries.map fun entry =>
      if entry.1 == Identifier.lower visible then (entry.1, tableName) else entry⟩
  else
    ⟨scope.entries ++ [(Identifier.lower visible, tableName)]⟩

/-- Whether a name refers to a visible table. -/
def resolves (scope : Scope) (reference : String) : Bool :=
  scope.entries.any fun (visible, tableName) =>
    Identifier.same visible reference || Identifier.same tableName reference ||
      Identifier.same (Identifier.ofTable tableName) reference

/-- The scope of some declared tables; of several with one name the first
counts. -/
def ofTables (tables : List DeclaredTable) : Scope :=
  tables.foldl
    (fun scope table =>
      if scope.contains table.reference then
        scope
      else
        scope.add table.reference table.tableName)
    {}

end Scope

/-! ## Qualifiers -/

namespace Operand

/-- The table that qualifies a column operand. -/
def qualifier? : Operand → Option String
  | column table _ => table
  | _ => none

def mapQualifier (rename : String → String) : Operand → Operand
  | column table name => column (table.map rename) name
  | operand => operand

end Operand

namespace ColumnTerm

def mapQualifier (rename : String → String) (term : ColumnTerm) : ColumnTerm :=
  { term with table := term.table.map rename }

end ColumnTerm

namespace JoinCondition

def qualifiers (condition : JoinCondition) : List String :=
  [condition.leftTable, condition.rightTable]

def mapQualifiers (rename : String → String) (condition : JoinCondition) :
    JoinCondition :=
  { condition with
    leftTable := rename condition.leftTable
    rightTable := rename condition.rightTable }

end JoinCondition

namespace Condition

def qualifiers (condition : Condition) : List String :=
  condition.term.table.toList ++ condition.operands.filterMap Operand.qualifier?

def mapQualifiers (rename : String → String) (condition : Condition) : Condition :=
  { condition with
    term := condition.term.mapQualifier rename
    value := condition.value.map (Operand.mapQualifier rename)
    values := condition.values.map (Operand.mapQualifier rename)
    minValue := condition.minValue.map (Operand.mapQualifier rename)
    maxValue := condition.maxValue.map (Operand.mapQualifier rename) }

end Condition

namespace Query

/-- Every table qualifier of a query with the clause in which it stands. -/
def qualifiers (query : Query) : List (Clause × String) :=
  (query.columns.filterMap fun item => item.term.table).map (Clause.select, ·) ++
    (query.joins.flatMap fun join =>
      join.conditions.flatMap JoinCondition.qualifiers).map (Clause.join, ·) ++
    (query.filters.flatMap Condition.qualifiers).map (Clause.where_, ·) ++
    (query.groupFilters.flatMap Condition.qualifiers).map (Clause.having, ·) ++
    (query.groups.filterMap GroupItem.table).map (Clause.groupBy, ·) ++
    (query.orders.filterMap fun item => item.term.table).map (Clause.orderBy, ·)

/-- Replaces every table qualifier of a query. -/
def mapQualifiers (rename : String → String) (query : Query) : Query :=
  { query with
    columns := query.columns.map fun item =>
      { item with term := item.term.mapQualifier rename }
    joins := query.joins.map fun join =>
      { join with conditions := join.conditions.map (JoinCondition.mapQualifiers rename) }
    filters := query.filters.map (Condition.mapQualifiers rename)
    groups := query.groups.map fun item => { item with table := item.table.map rename }
    groupFilters := query.groupFilters.map (Condition.mapQualifiers rename)
    orders := query.orders.map fun item =>
      { item with term := item.term.mapQualifier rename } }

end Query

end SelectForm

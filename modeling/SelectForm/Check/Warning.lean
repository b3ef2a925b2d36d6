import SelectForm.Query.Reference

/-!
# Warnings about a query

A warning tells of something that is allowed but probably not meant.  It never
keeps a query from being written.
-/

namespace SelectForm

inductive Warning
  | unboundedResult
  | tableNameWithAlias (clause : Clause) (table aliasName : String)
  | ungroupedColumn (column : String)
  | likeWithoutWildcard (column pattern : String)
  | havingWithoutGroupBy
deriving DecidableEq, Repr

namespace Warning

def message : Warning → String
  | unboundedResult => "Query has no WHERE clause and no LIMIT, all rows are returned"
  | tableNameWithAlias clause table aliasName =>
    clause.keyword ++ " refers to '" ++ table ++
      "' by table name although it is aliased as '" ++ aliasName ++ "'"
  | ungroupedColumn column =>
    "SELECT column '" ++ column ++ "' is neither aggregated nor listed in GROUP BY"
  | likeWithoutWildcard column pattern =>
    "LIKE on '" ++ column ++ "' uses pattern '" ++ pattern ++
      "' without % or _, it behaves like ="
  | havingWithoutGroupBy => "HAVING is used without GROUP BY"

end Warning

/-- The aliased table that a name denotes by its table name, unless the name is a
reference itself. -/
def aliasedTable? (tables : List DeclaredTable) (name : String) :
    Option DeclaredTable :=
  if tables.any fun table => Identifier.same table.reference name then
    none
  else
    tables.find? fun table => table.aliased && table.isNamed name

namespace GroupItem

/-- Whether a grouped column is a selected one; a missing table fits every table. -/
def covers (item : GroupItem) (term : ColumnTerm) : Bool :=
  (match item.table, term.table with
    | some left, some right => Identifier.same left right
    | _, _ => true) &&
    Identifier.same item.column term.column

end GroupItem

namespace Query

/-- Uses of the name of a table that has an alias. -/
def aliasWarnings (query : Query) : List Warning :=
  (query.qualifiers.filterMap fun (clause, name) =>
    (aliasedTable? query.declaredTables name).map fun table =>
      Warning.tableNameWithAlias clause name table.reference).eraseDups

/-- Selected columns that are neither aggregated nor grouped, in a query that
groups. -/
def groupWarnings (query : Query) : List Warning :=
  if query.hasAggregates || !query.groups.isEmpty then
    query.columns.filterMap fun item =>
      if item.term.aggregate.isSome || item.term.isWildcard ||
          query.groups.any fun group => group.covers item.term then
        none
      else
        some (.ungroupedColumn (Operand.qualified item.term.table item.term.column))
  else
    []

/-- Patterns of LIKE without a wildcard. -/
def likeWarnings (query : Query) : List Warning :=
  (query.filters ++ query.groupFilters).filterMap fun condition =>
    match condition.operator, condition.value with
    | .like, some (.literal (.string pattern)) =>
      if pattern.toList.any fun c => c == '%' || c == '_' then
        none
      else
        some (.likeWithoutWildcard
          (Operand.qualified condition.term.table condition.term.column) pattern)
    | _, _ => none

/-- All warnings about a query. -/
def warnings (query : Query) : List Warning :=
  (if query.filters.isEmpty && query.limit.isNone then [.unboundedResult] else []) ++
    query.aliasWarnings ++ query.groupWarnings ++ query.likeWarnings ++
    (if !query.groupFilters.isEmpty && query.groups.isEmpty then [.havingWithoutGroupBy]
      else [])

end Query

end SelectForm

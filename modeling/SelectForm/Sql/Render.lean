import SelectForm.Sql.Layout

/-!
# Writing a query

The text of a query under a layout.  Writing never fails: a query that has not
been checked is written too, with `NULL` in the place of a missing operand, but
only a query that passed the checks is sure to be read back.

A negated condition is written with `NOT` in front of its operator if that is
`BETWEEN`, `IN` or `LIKE`, and otherwise as `NOT` before the condition in
parentheses.
-/

namespace SelectForm

namespace ColumnTerm

/-- `[table.]column`, in the parentheses of its aggregate function. -/
def render (term : ColumnTerm) : String :=
  let column := Operand.qualified term.table term.column
  match term.aggregate with
  | some aggregate =>
    aggregate.keyword ++ "(" ++ (if term.distinct then "DISTINCT " else "") ++ column ++ ")"
  | none => column

end ColumnTerm

namespace SelectItem

def render (item : SelectItem) : String :=
  match item.aliasName with
  | some aliasName => item.term.render ++ " AS " ++ aliasName
  | none => item.term.render

end SelectItem

namespace TableItem

def render (table : TableItem) : String :=
  match table.aliasName with
  | some aliasName => table.tableName ++ " " ++ aliasName
  | none => table.tableName

end TableItem

namespace JoinCondition

def render (condition : JoinCondition) : String :=
  condition.leftTable ++ "." ++ condition.leftColumn ++ " " ++ condition.operator.keyword ++
    " " ++ condition.rightTable ++ "." ++ condition.rightColumn

end JoinCondition

namespace Join

def render (join : Join) : String :=
  join.kind.keyword ++ " " ++ join.table.render ++
    match join.conditions with
    | [] => ""
    | first :: others =>
      " ON " ++ first.render ++
        String.join (others.map fun condition => " AND " ++ condition.render)

end Join

namespace Condition

/-- An operand, or `NULL` where it is missing. -/
def renderSlot : Option Operand → String
  | some operand => operand.render
  | none => "NULL"

/-- Operators that take `NOT` in front of them. -/
def takesNot : Operator → Bool
  | .between | .inList | .like => true
  | _ => false

/-- The condition up to a negation that stands around it. -/
def renderBody (condition : Condition) : String :=
  let negation := if condition.negated then "NOT " else ""
  condition.term.render ++
    match condition.operator with
    | .between =>
      " " ++ negation ++ "BETWEEN " ++ renderSlot condition.minValue ++ " AND " ++
        renderSlot condition.maxValue
    | .inList =>
      " " ++ negation ++ "IN (" ++ ", ".intercalate (condition.values.map Operand.render) ++
        ")"
    | .like => " " ++ negation ++ "LIKE " ++ renderSlot condition.value
    | .isNull => " IS NULL"
    | .isNotNull => " IS NOT NULL"
    | operator => " " ++ operator.keyword ++ " " ++ renderSlot condition.value

/-- The condition without its connector. -/
def render (condition : Condition) : String :=
  if condition.negated && !takesNot condition.operator then
    "NOT (" ++ condition.renderBody ++ ")"
  else
    condition.renderBody

end Condition

namespace GroupItem

def render (item : GroupItem) : String := item.term.render

end GroupItem

namespace OrderItem

def render (item : OrderItem) : String :=
  match item.direction with
  | .ascending => item.term.render
  | .descending => item.term.render ++ " DESC"

end OrderItem

namespace Layout

/-- A clause that is a list of entries. -/
def renderList (layout : Layout) (keyword : String) (entries : List String) : String :=
  if layout.multiline && 1 < entries.length then
    keyword ++ "\n" ++ ",\n".intercalate (entries.map (layout.indent ++ ·))
  else
    keyword ++ " " ++ ", ".intercalate entries

/-- What stands in front of the connector of a condition. -/
def continuation (layout : Layout) : String :=
  if layout.multiline then "\n" ++ layout.indent else " "

/-- A clause that is a chain of conditions. -/
def renderConditions (layout : Layout) (keyword : String) : List Condition → String
  | [] => keyword
  | first :: others =>
    keyword ++ " " ++ first.render ++
      String.join (others.map fun condition =>
        layout.continuation ++ condition.connector.keyword ++ " " ++ condition.render)

end Layout

namespace Query

/-- The LIMIT and OFFSET clauses, if there are any. -/
def renderPaging (query : Query) : List String :=
  match query.limit, query.offset with
  | some limit, some offset =>
    ["LIMIT " ++ toString limit.toNat ++ " OFFSET " ++ toString offset.toNat]
  | some limit, none => ["LIMIT " ++ toString limit.toNat]
  | none, some offset => ["OFFSET " ++ toString offset.toNat]
  | none, none => []

/-- The clauses of a query; a clause without entries is left out, except for
SELECT and FROM. -/
def renderClauses (layout : Layout) (query : Query) : List String :=
  [layout.renderList (if query.distinct then "SELECT DISTINCT" else "SELECT")
      (query.columns.map SelectItem.render),
    layout.renderList "FROM" (query.tables.map TableItem.render)] ++
  query.joins.map Join.render ++
  (if query.filters.isEmpty then [] else [layout.renderConditions "WHERE" query.filters]) ++
  (if query.groups.isEmpty then []
    else [layout.renderList "GROUP BY" (query.groups.map GroupItem.render)]) ++
  (if query.groupFilters.isEmpty then []
    else [layout.renderConditions "HAVING" query.groupFilters]) ++
  (if query.orders.isEmpty then []
    else [layout.renderList "ORDER BY" (query.orders.map OrderItem.render)]) ++
  query.renderPaging

/-- The lines that describe a query in comments: its tables, the number of its joins
and the numbers of its conditions. -/
def summary (query : Query) : List String :=
  ["Tables: " ++ ", ".intercalate (query.tables.map TableItem.render ++
      query.joins.map fun join => join.table.render),
    "Joins: " ++ toString query.joins.length,
    "Filters: " ++ toString query.filters.length ++ " WHERE, " ++
      toString query.groupFilters.length ++ " HAVING"]

/-- The text of a query. -/
def render (layout : Layout) (query : Query) : String :=
  let statement := layout.separator.intercalate (query.renderClauses layout)
  if !layout.comments then
    statement
  else if layout.multiline then
    "\n".intercalate (query.summary.map ("-- " ++ ·)) ++ "\n" ++ statement
  else
    "/* " ++ "; ".intercalate query.summary ++ " */ " ++ statement

end Query

end SelectForm

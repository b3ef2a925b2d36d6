import SelectForm.Json.Basic
import SelectForm.Query.Basic

/-!
# The JSON form of queries

A query is written as an object with all its members.  Reading takes the default
of a part for each missing member, so an editor may send only what it has set.
-/

namespace SelectForm

open Json

namespace Json

/-- A value, or null in its place. -/
def ofOption {α : Type} (write : α → Json) : Option α → Json
  | some value => write value
  | none => null

/-- A natural number of 64 bits. -/
def ofWord (value : UInt64) : Json := natural value.toNat

/-- A list of values. -/
def ofList {α : Type} (write : α → Json) (values : List α) : Json :=
  array (values.map write)

end Json

/-! ## Words -/

namespace Aggregate

def toJson (aggregate : Aggregate) : Json := .string aggregate.keyword

def ofJson? : Json → Option Aggregate := constant? ofKeyword?

end Aggregate

namespace JoinKind

def toJson (kind : JoinKind) : Json := .string kind.name

def ofJson? : Json → Option JoinKind := constant? ofName?

end JoinKind

namespace Operator

def toJson (operator : Operator) : Json := .string operator.keyword

def ofJson? : Json → Option Operator := constant? ofKeyword?

end Operator

namespace Connector

def toJson (connector : Connector) : Json := .string connector.keyword

def ofJson? : Json → Option Connector := constant? ofKeyword?

end Connector

namespace Direction

def toJson (direction : Direction) : Json := .string direction.keyword

def ofJson? : Json → Option Direction := constant? ofKeyword?

end Direction

namespace Clause

/-- The name of a clause in answers. -/
def name : Clause → String
  | select => "select"
  | from_ => "from"
  | join => "join"
  | where_ => "where"
  | groupBy => "groupBy"
  | having => "having"
  | orderBy => "orderBy"
  | paging => "limitOffset"

end Clause

/-! ## Literals and operands -/

namespace Literal

def toJson : Literal → Json
  | string value => object [("type", .string "string"), ("value", .string value)]
  | number text => object [("type", .string "number"), ("value", .string text)]
  | boolean value => object [("type", .string "boolean"), ("value", .boolean value)]
  | null => object [("type", .string "null")]

def ofJson? (json : Json) : Option Literal :=
  match tagged? "type" "value" json with
  | some ("string", some content) => content.string?.map string
  | some ("number", some content) => content.string?.map number
  | some ("boolean", some content) => content.boolean?.map boolean
  | some ("null", some .null) => some null
  | some ("null", none) => some null
  | _ => none

end Literal

namespace Operand

def toJson : Operand → Json
  | parameter name => object [("kind", .string "parameter"), ("value", .string name)]
  | literal value => object [("kind", .string "literal"), ("value", value.toJson)]
  | column table name =>
    object [("kind", .string "column"),
      ("value", object [("table", ofOption .string table), ("column", .string name)])]

/-- A column with its table; the column must be given. -/
def columnOfJson? : Json → Option Operand
  | object members => do
    let members ← record? ["table", "column"] (object members)
    let table ← members.read? "table" (nullable? string?) none
    let name ← members.lookup "column"
    let name ← name.string?
    some (column table name)
  | _ => none

def ofJson? (json : Json) : Option Operand :=
  match tagged? "kind" "value" json with
  | some ("parameter", some content) => content.string?.map parameter
  | some ("literal", some content) => (Literal.ofJson? content).map literal
  | some ("column", some content) => columnOfJson? content
  | _ => none

end Operand

/-! ## Parts of a query -/

namespace SelectItem

def toJson (item : SelectItem) : Json :=
  object
    [("table", ofOption .string item.term.table),
      ("column", .string item.term.column),
      ("aggregateFunction", ofOption Aggregate.toJson item.term.aggregate),
      ("alias", ofOption .string item.aliasName),
      ("distinct", .boolean item.term.distinct)]

def ofJson? (json : Json) : Option SelectItem := do
  let members ← record? ["table", "column", "aggregateFunction", "alias", "distinct"] json
  let table ← members.read? "table" (nullable? string?) none
  let column ← members.read? "column" string? ""
  let aggregate ← members.read? "aggregateFunction" (nullable? Aggregate.ofJson?) none
  let aliasName ← members.read? "alias" (nullable? string?) none
  let distinct ← members.read? "distinct" boolean? false
  some { term := { table, column, aggregate, distinct }, aliasName }

end SelectItem

namespace TableItem

def toJson (table : TableItem) : Json :=
  object
    [("tableName", .string table.tableName),
      ("alias", ofOption .string table.aliasName)]

def ofJson? (json : Json) : Option TableItem := do
  let members ← record? ["tableName", "alias"] json
  let tableName ← members.read? "tableName" string? ""
  let aliasName ← members.read? "alias" (nullable? string?) none
  some { tableName, aliasName }

end TableItem

namespace JoinCondition

def toJson (condition : JoinCondition) : Json :=
  object
    [("leftTable", .string condition.leftTable),
      ("leftColumn", .string condition.leftColumn),
      ("operator", condition.operator.toJson),
      ("rightTable", .string condition.rightTable),
      ("rightColumn", .string condition.rightColumn)]

def ofJson? (json : Json) : Option JoinCondition := do
  let members ←
    record? ["leftTable", "leftColumn", "operator", "rightTable", "rightColumn"] json
  let leftTable ← members.read? "leftTable" string? ""
  let leftColumn ← members.read? "leftColumn" string? ""
  let operator ← members.read? "operator" Operator.ofJson? .equal
  let rightTable ← members.read? "rightTable" string? ""
  let rightColumn ← members.read? "rightColumn" string? ""
  some { leftTable, leftColumn, operator, rightTable, rightColumn }

end JoinCondition

namespace Join

def toJson (join : Join) : Json :=
  object
    [("joinType", join.kind.toJson),
      ("tableName", .string join.table.tableName),
      ("alias", ofOption .string join.table.aliasName),
      ("conditions", Json.ofList JoinCondition.toJson join.conditions)]

def ofJson? (json : Json) : Option Join := do
  let members ← record? ["joinType", "tableName", "alias", "conditions"] json
  let kind ← members.read? "joinType" JoinKind.ofJson? .inner
  let tableName ← members.read? "tableName" string? ""
  let aliasName ← members.read? "alias" (nullable? string?) none
  let conditions ← members.read? "conditions" (list? JoinCondition.ofJson?) []
  some { kind, table := { tableName, aliasName }, conditions }

end Join

namespace Condition

def toJson (condition : Condition) : Json :=
  object
    [("table", ofOption .string condition.term.table),
      ("column", .string condition.term.column),
      ("aggregateFunction", ofOption Aggregate.toJson condition.term.aggregate),
      ("aggregateDistinct", .boolean condition.term.distinct),
      ("operator", condition.operator.toJson),
      ("value", ofOption Operand.toJson condition.value),
      ("values", Json.ofList Operand.toJson condition.values),
      ("minValue", ofOption Operand.toJson condition.minValue),
      ("maxValue", ofOption Operand.toJson condition.maxValue),
      ("negated", .boolean condition.negated),
      ("connector", condition.connector.toJson)]

def ofJson? (json : Json) : Option Condition := do
  let members ←
    record?
      ["table", "column", "aggregateFunction", "aggregateDistinct", "operator", "value",
        "values", "minValue", "maxValue", "negated", "connector"]
      json
  let table ← members.read? "table" (nullable? string?) none
  let column ← members.read? "column" string? ""
  let aggregate ← members.read? "aggregateFunction" (nullable? Aggregate.ofJson?) none
  let distinct ← members.read? "aggregateDistinct" boolean? false
  let operator ← members.read? "operator" Operator.ofJson? .equal
  let value ← members.read? "value" (nullable? Operand.ofJson?) none
  let values ← members.read? "values" (list? Operand.ofJson?) []
  let minValue ← members.read? "minValue" (nullable? Operand.ofJson?) none
  let maxValue ← members.read? "maxValue" (nullable? Operand.ofJson?) none
  let negated ← members.read? "negated" boolean? false
  let connector ← members.read? "connector" Connector.ofJson? .and
  some
    { term := { table, column, aggregate, distinct }
      operator, value, values, minValue, maxValue, negated, connector }

end Condition

namespace GroupItem

def toJson (item : GroupItem) : Json :=
  object
    [("table", ofOption .string item.table),
      ("column", .string item.column),
      ("aggregateFunction", ofOption Aggregate.toJson item.aggregate)]

def ofJson? (json : Json) : Option GroupItem := do
  let members ← record? ["table", "column", "aggregateFunction"] json
  let table ← members.read? "table" (nullable? string?) none
  let column ← members.read? "column" string? ""
  let aggregate ← members.read? "aggregateFunction" (nullable? Aggregate.ofJson?) none
  some { table, column, aggregate }

end GroupItem

namespace OrderItem

def toJson (item : OrderItem) : Json :=
  object
    [("table", ofOption .string item.term.table),
      ("column", .string item.term.column),
      ("aggregateFunction", ofOption Aggregate.toJson item.term.aggregate),
      ("aggregateDistinct", .boolean item.term.distinct),
      ("direction", item.direction.toJson)]

def ofJson? (json : Json) : Option OrderItem := do
  let members ←
    record? ["table", "column", "aggregateFunction", "aggregateDistinct", "direction"] json
  let table ← members.read? "table" (nullable? string?) none
  let column ← members.read? "column" string? ""
  let aggregate ← members.read? "aggregateFunction" (nullable? Aggregate.ofJson?) none
  let distinct ← members.read? "aggregateDistinct" boolean? false
  let direction ← members.read? "direction" Direction.ofJson? .ascending
  some { term := { table, column, aggregate, distinct }, direction }

end OrderItem

/-! ## Queries -/

namespace Query

def toJson (query : Query) : Json :=
  object
    [("selectColumns", Json.ofList SelectItem.toJson query.columns),
      ("distinct", .boolean query.distinct),
      ("fromTables", Json.ofList TableItem.toJson query.tables),
      ("joins", Json.ofList Join.toJson query.joins),
      ("whereConditions", Json.ofList Condition.toJson query.filters),
      ("groupByColumns", Json.ofList GroupItem.toJson query.groups),
      ("havingConditions", Json.ofList Condition.toJson query.groupFilters),
      ("orderByColumns", Json.ofList OrderItem.toJson query.orders),
      ("limit", ofOption ofWord query.limit),
      ("offset", ofOption ofWord query.offset)]

def ofJson? (json : Json) : Option Query := do
  let members ←
    record?
      ["selectColumns", "distinct", "fromTables", "joins", "whereConditions",
        "groupByColumns", "havingConditions", "orderByColumns", "limit", "offset"]
      json
  let columns ← members.read? "selectColumns" (list? SelectItem.ofJson?) []
  let distinct ← members.read? "distinct" boolean? false
  let tables ← members.read? "fromTables" (list? TableItem.ofJson?) []
  let joins ← members.read? "joins" (list? Join.ofJson?) []
  let filters ← members.read? "whereConditions" (list? Condition.ofJson?) []
  let groups ← members.read? "groupByColumns" (list? GroupItem.ofJson?) []
  let groupFilters ← members.read? "havingConditions" (list? Condition.ofJson?) []
  let orders ← members.read? "orderByColumns" (list? OrderItem.ofJson?) []
  let limit ← members.read? "limit" (nullable? word?) none
  let offset ← members.read? "offset" (nullable? word?) none
  some
    { columns, distinct, tables, joins, filters, groups, groupFilters, orders, limit,
      offset }

end Query

end SelectForm

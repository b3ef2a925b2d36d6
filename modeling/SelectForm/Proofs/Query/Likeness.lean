import Mathlib
import SelectForm.Query.Basic

/-!
# Queries that are like each other

Two queries are like each other if they have the same shape and their smallest parts are
related one by one: columns, tables, comparisons and operands.  What related parts are is
left open, so one proof that two texts are read alike serves every relation.
-/

namespace SelectForm

/-- What it means that the smallest parts of two queries are like each other. -/
structure Likeness where
  item : SelectItem → SelectItem → Prop
  table : TableItem → TableItem → Prop
  comparison : JoinCondition → JoinCondition → Prop
  term : ColumnTerm → ColumnTerm → Prop
  operand : Operand → Operand → Prop
  group : GroupItem → GroupItem → Prop
  order : OrderItem → OrderItem → Prop

/-- Conditions that differ in columns and operands which are like each other. -/
structure Condition.Like (like : Likeness) (condition condition' : Condition) : Prop where
  term : like.term condition.term condition'.term
  operator : condition.operator = condition'.operator
  value : Option.Rel like.operand condition.value condition'.value
  values : List.Forall₂ like.operand condition.values condition'.values
  minValue : Option.Rel like.operand condition.minValue condition'.minValue
  maxValue : Option.Rel like.operand condition.maxValue condition'.maxValue
  negated : condition.negated = condition'.negated
  connector : condition.connector = condition'.connector

/-- Joins that differ in tables and comparisons which are like each other. -/
structure Join.Like (like : Likeness) (join join' : Join) : Prop where
  kind : join.kind = join'.kind
  table : like.table join.table join'.table
  conditions : List.Forall₂ like.comparison join.conditions join'.conditions

/-- Queries that differ in parts which are like each other. -/
structure Query.Like (like : Likeness) (query query' : Query) : Prop where
  columns : List.Forall₂ like.item query.columns query'.columns
  distinct : query.distinct = query'.distinct
  tables : List.Forall₂ like.table query.tables query'.tables
  joins : List.Forall₂ (Join.Like like) query.joins query'.joins
  filters : List.Forall₂ (Condition.Like like) query.filters query'.filters
  groups : List.Forall₂ like.group query.groups query'.groups
  groupFilters : List.Forall₂ (Condition.Like like) query.groupFilters query'.groupFilters
  orders : List.Forall₂ like.order query.orders query'.orders
  limit : query.limit = query'.limit
  offset : query.offset = query'.offset

theorem Query.like_empty (like : Likeness) : Query.Like like {} {} :=
  ⟨.nil, rfl, .nil, .nil, .nil, .nil, .nil, .nil, rfl, rfl⟩

end SelectForm

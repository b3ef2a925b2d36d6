import Mathlib
import SelectForm.Proofs.Query.Likeness

/-!
# Recased queries

A query is recased by a function of characters: its names, parameters and numbers are taken
character by character to others.  Its literals in quotation marks stay as they are, and so
does all that is no text.

Queries that are recased up to the contents of their literals are like each other.
-/

namespace SelectForm

namespace Identifier

/-- A name taken character by character to another. -/
def recase (f : Char → Char) (name : String) : String := String.ofList (name.toList.map f)

theorem recase_ofList (f : Char → Char) (name : Text) :
    recase f (String.ofList name) = String.ofList (name.map f) := by
  rw [recase, String.toList_ofList]

@[simp] theorem recase_id : recase id = id := by
  funext name
  rw [recase, List.map_id, String.ofList_toList, id]

end Identifier

variable (f : Char → Char)

namespace ColumnTerm

def recase (term : ColumnTerm) : ColumnTerm :=
  { term with table := term.table.map (Identifier.recase f)
              column := Identifier.recase f term.column }

end ColumnTerm

namespace SelectItem

def recase (item : SelectItem) : SelectItem where
  term := item.term.recase f
  aliasName := item.aliasName.map (Identifier.recase f)

end SelectItem

namespace TableItem

def recase (table : TableItem) : TableItem where
  tableName := Identifier.recase f table.tableName
  aliasName := table.aliasName.map (Identifier.recase f)

end TableItem

namespace JoinCondition

def recase (condition : JoinCondition) : JoinCondition where
  leftTable := Identifier.recase f condition.leftTable
  leftColumn := Identifier.recase f condition.leftColumn
  operator := condition.operator
  rightTable := Identifier.recase f condition.rightTable
  rightColumn := Identifier.recase f condition.rightColumn

end JoinCondition

namespace Join

def recase (join : Join) : Join where
  kind := join.kind
  table := join.table.recase f
  conditions := join.conditions.map (JoinCondition.recase f)

end Join

namespace Operand

/-- An operand that is a literal in quotation marks stays as it is. -/
def recase : Operand → Operand
  | parameter name => .parameter (Identifier.recase f name)
  | literal (.number text) => .literal (.number (Identifier.recase f text))
  | literal value => .literal value
  | column table name =>
    .column (table.map (Identifier.recase f)) (Identifier.recase f name)

end Operand

namespace Condition

def recase (condition : Condition) : Condition :=
  { condition with
    term := condition.term.recase f
    value := condition.value.map (Operand.recase f)
    values := condition.values.map (Operand.recase f)
    minValue := condition.minValue.map (Operand.recase f)
    maxValue := condition.maxValue.map (Operand.recase f) }

end Condition

namespace GroupItem

def recase (item : GroupItem) : GroupItem :=
  { item with table := item.table.map (Identifier.recase f)
              column := Identifier.recase f item.column }

end GroupItem

namespace OrderItem

def recase (item : OrderItem) : OrderItem := { item with term := item.term.recase f }

end OrderItem

namespace Query

def recase (query : Query) : Query :=
  { query with
    columns := query.columns.map (SelectItem.recase f)
    tables := query.tables.map (TableItem.recase f)
    joins := query.joins.map (Join.recase f)
    filters := query.filters.map (Condition.recase f)
    groups := query.groups.map (GroupItem.recase f)
    groupFilters := query.groupFilters.map (Condition.recase f)
    orders := query.orders.map (OrderItem.recase f) }

end Query

/-! ## Recasing by the identity -/

@[simp] theorem ColumnTerm.recase_id : recase id = id := by
  funext term
  simp [recase]

@[simp] theorem SelectItem.recase_id : recase id = id := by
  funext item
  simp [recase]

@[simp] theorem TableItem.recase_id : recase id = id := by
  funext table
  simp [recase]

@[simp] theorem JoinCondition.recase_id : recase id = id := by
  funext condition
  simp [recase]

@[simp] theorem Join.recase_id : recase id = id := by
  funext join
  simp [recase]

@[simp] theorem Operand.recase_id : recase id = id := by
  funext operand
  cases operand with
  | parameter name => simp [recase]
  | literal value => cases value <;> simp [recase]
  | column table name => simp [recase]

@[simp] theorem Condition.recase_id : recase id = id := by
  funext condition
  simp [recase]

@[simp] theorem GroupItem.recase_id : recase id = id := by
  funext item
  simp [recase]

@[simp] theorem OrderItem.recase_id : recase id = id := by
  funext item
  simp [recase]

theorem Query.recase_id (query : Query) : query.recase id = query := by
  simp [recase]

/-! ## Likeness -/

variable {f} {related : Text → Text → Prop}

/-- An operand and the operand recased, or two literals in quotation marks with related
contents. -/
inductive Operand.Recased (f : Char → Char) (related : Text → Text → Prop) :
    Operand → Operand → Prop
  | string {value value' : String} (hvalue : related value.toList value'.toList) :
      Recased f related (.string value) (.string value')
  | plain {operand : Operand} (hplain : ∀ value, operand ≠ .string value) :
      Recased f related operand (operand.recase f)

/-- Parts and the same parts recased, where literals have related contents. -/
def Likeness.recased (f : Char → Char) (related : Text → Text → Prop) : Likeness where
  item item item' := item' = item.recase f
  table table table' := table' = table.recase f
  comparison condition condition' := condition' = condition.recase f
  term term term' := term' = term.recase f
  operand := Operand.Recased f related
  group item item' := item' = item.recase f
  order item item' := item' = item.recase f

theorem Operand.Recased.eq_recase {operand operand' : Operand}
    (hlike : Recased f Eq operand operand') : operand' = operand.recase f := by
  cases hlike with
  | string hvalue =>
      rw [← String.toList_inj.mp hvalue]
      rfl
  | plain _ => rfl

theorem eq_map_of_forall₂ {α β : Type} {R : α → β → Prop} {next : α → β} {items : List α}
    {items' : List β} (himp : ∀ item item', R item item' → item' = next item)
    (hitems : List.Forall₂ R items items') : items' = items.map next := by
  induction hitems with
  | nil => rfl
  | cons hitem _ ih => rw [himp _ _ hitem, ih, List.map_cons]

theorem eq_map_of_rel {α β : Type} {R : α → β → Prop} {next : α → β} {item : Option α}
    {item' : Option β} (himp : ∀ item item', R item item' → item' = next item)
    (hitem : Option.Rel R item item') : item' = item.map next := by
  cases hitem with
  | none => rfl
  | some hitem => rw [himp _ _ hitem, Option.map_some]

theorem Condition.Like.eq_recase {condition condition' : Condition}
    (hlike : condition.Like (.recased f Eq) condition') :
    condition' = condition.recase f := by
  have hoperand : ∀ operand operand' : Operand, Operand.Recased f Eq operand operand' →
      operand' = operand.recase f := fun _ _ => Operand.Recased.eq_recase
  obtain ⟨hterm, hoperator, hvalue, hvalues, hmin, hmax, hnegated, hconnector⟩ := hlike
  obtain ⟨term, operator, value, values, minValue, maxValue, negated, connector⟩ := condition'
  dsimp only at *
  rw [recase, ← eq_map_of_rel hoperand hvalue, ← eq_map_of_forall₂ hoperand hvalues,
    ← eq_map_of_rel hoperand hmin, ← eq_map_of_rel hoperand hmax, hoperator, hnegated, hconnector,
    ← show _ = _ from hterm]

theorem Join.Like.eq_recase {join join' : Join} (hlike : join.Like (.recased f related) join') :
    join' = join.recase f := by
  obtain ⟨hkind, htable, hconditions⟩ := hlike
  obtain ⟨kind, table, conditions⟩ := join'
  dsimp only at *
  rw [recase, ← eq_map_of_forall₂ (fun _ _ => id) hconditions, hkind, ← show _ = _ from htable]

/-- Only one query is like a query recased, if literals have to be equal. -/
theorem Query.Like.eq_recase {query query' : Query}
    (hlike : query.Like (.recased f Eq) query') : query' = query.recase f := by
  have hcondition : ∀ condition condition' : Condition,
      condition.Like (.recased f Eq) condition' → condition' = condition.recase f :=
    fun _ _ => Condition.Like.eq_recase
  have hjoin : ∀ join join' : Join, join.Like (.recased f Eq) join' → join' = join.recase f :=
    fun _ _ => Join.Like.eq_recase
  obtain ⟨hcolumns, hdistinct, htables, hjoins, hfilters, hgroups, hgroupFilters, horders, hlimit,
    hoffset⟩ := hlike
  obtain ⟨columns, distinct, tables, joins, filters, groups, groupFilters, orders, limit, offset⟩ :=
    query'
  dsimp only at *
  rw [recase, ← eq_map_of_forall₂ (fun _ _ => id) hcolumns, ← eq_map_of_forall₂ (fun _ _ => id) htables,
    ← eq_map_of_forall₂ hjoin hjoins,
    ← eq_map_of_forall₂ hcondition hfilters, ← eq_map_of_forall₂ (fun _ _ => id) hgroups,
    ← eq_map_of_forall₂ hcondition hgroupFilters, ← eq_map_of_forall₂ (fun _ _ => id) horders,
    hdistinct, hlimit, hoffset]

end SelectForm

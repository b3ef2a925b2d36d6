import Mathlib
import SelectForm.Proofs.Check.WellFormed

/-!
# Canonical queries

A query may hold what its text cannot show: the connector of the first condition
of a chain, operands that an operator does not write, and `DISTINCT` on a
wildcard that stands alone.  The canonical form of a query drops all of it.  A
query that carries nothing of the kind is its own canonical form.
-/

namespace SelectForm

namespace ColumnTerm

/-- A wildcard alone is never DISTINCT. -/
def canonical (term : ColumnTerm) : ColumnTerm :=
  if term.isBareWildcard then { term with distinct := false } else term

theorem canonical_of_not_isBareWildcard {term : ColumnTerm}
    (hbare : term.isBareWildcard = false) : term.canonical = term := by
  rw [canonical, hbare]
  rfl

theorem canonical_of_distinct {term : ColumnTerm}
    (hdistinct : term.isBareWildcard = true → term.distinct = false) :
    term.canonical = term := by
  rw [canonical]
  split
  next hbare => rw [← hdistinct hbare]
  next => rfl

@[simp] theorem isBareWildcard_canonical (term : ColumnTerm) :
    term.canonical.isBareWildcard = term.isBareWildcard := by
  rw [canonical]
  split <;> rfl

end ColumnTerm

namespace SelectItem

def canonical (item : SelectItem) : SelectItem := { item with term := item.term.canonical }

end SelectItem

namespace Condition

/-- The condition with only the operands that its operator writes. -/
def canonical (condition : Condition) : Condition :=
  match condition.operator with
  | .between => { condition with value := none, values := [] }
  | .inList => { condition with value := none, minValue := none, maxValue := none }
  | .isNull | .isNotNull =>
    { condition with value := none, values := [], minValue := none, maxValue := none }
  | _ => { condition with values := [], minValue := none, maxValue := none }

@[simp] theorem connector_canonical (condition : Condition) :
    condition.canonical.connector = condition.connector := by
  rw [canonical]
  cases condition.operator <;> rfl

/-- A condition carries the operands that its operator writes, and no others. -/
def CarriesOperands (condition : Condition) : Prop :=
  match condition.operator with
  | .between =>
    condition.minValue.isSome = true ∧ condition.maxValue.isSome = true ∧
      condition.value = none ∧ condition.values = []
  | .inList =>
    condition.values ≠ [] ∧ condition.value = none ∧ condition.minValue = none ∧
      condition.maxValue = none
  | .isNull | .isNotNull =>
    condition.value = none ∧ condition.values = [] ∧ condition.minValue = none ∧
      condition.maxValue = none
  | _ =>
    condition.value.isSome = true ∧ condition.values = [] ∧ condition.minValue = none ∧
      condition.maxValue = none

theorem CarriesOperands.canonical_eq {condition : Condition}
    (hcarries : condition.CarriesOperands) : condition.canonical = condition := by
  obtain ⟨term, operator, value, values, minValue, maxValue, negated, connector⟩ := condition
  cases operator <;> simp_all [CarriesOperands, canonical]

/-- A chain of conditions in which the first connector, which is not written, is
`AND`. -/
def canonicalChain : List Condition → List Condition
  | [] => []
  | first :: others => { first.canonical with connector := .and } :: others.map canonical

theorem canonicalChain_eq {conditions : List Condition}
    (hcarries : ∀ condition ∈ conditions, condition.CarriesOperands)
    (hfirst : ∀ first ∈ conditions.head?, first.connector = .and) :
    canonicalChain conditions = conditions := by
  cases conditions with
  | nil => rfl
  | cons first others =>
      have hconnector := hfirst first rfl
      have hothers : others.map canonical = others := by
        rw [List.map_congr_left fun condition hmem =>
          (hcarries condition (List.mem_cons_of_mem first hmem)).canonical_eq, List.map_id']
      rw [canonicalChain, hothers, (hcarries first List.mem_cons_self).canonical_eq, ← hconnector]

end Condition

namespace Query

/-- The query as its text shows it. -/
def canonical (query : Query) : Query :=
  { query with
    columns := query.columns.map SelectItem.canonical
    filters := Condition.canonicalChain query.filters
    groupFilters := Condition.canonicalChain query.groupFilters }

/-- A query that holds nothing which its text cannot show. -/
structure IsCanonical (query : Query) : Prop where
  firstFilter : ∀ first ∈ query.filters.head?, first.connector = .and
  firstGroupFilter : ∀ first ∈ query.groupFilters.head?, first.connector = .and
  operands : ∀ condition ∈ query.filters ++ query.groupFilters, condition.CarriesOperands
  wildcards : ∀ clause term, (clause, term) ∈ query.columnUses →
    term.isBareWildcard = true → term.distinct = false

theorem IsCanonical.canonical_eq {query : Query} (hcanonical : query.IsCanonical) :
    query.canonical = query := by
  have hoperands := hcanonical.operands
  have hwildcards := ((forall_columnUses_iff query fun _ term =>
    term.isBareWildcard = true → term.distinct = false).mp hcanonical.wildcards).1
  simp only [List.mem_append, or_imp, forall_and] at hoperands
  have hcolumns : query.columns.map SelectItem.canonical = query.columns := by
    have hitem : ∀ item ∈ query.columns, item.canonical = item := by
      intro item hmem
      rw [SelectItem.canonical, ColumnTerm.canonical_of_distinct (hwildcards item hmem)]
    rw [List.map_congr_left hitem, List.map_id']
  rw [canonical, hcolumns, Condition.canonicalChain_eq hoperands.1 hcanonical.firstFilter,
    Condition.canonicalChain_eq hoperands.2 hcanonical.firstGroupFilter]

end Query

end SelectForm

import Mathlib
import SelectForm.Proofs.Query.Canonical
import SelectForm.Sql.Render

/-!
# DISTINCT without an aggregate function

The argument of an aggregate function may be DISTINCT.  A column without a function may carry
the flag too, and then nothing of it is written, so the checks report it.  They do so in every
clause and for every column with one exception: a wildcard that stands alone in SELECT is
accepted before anybody has looked at its flag.
-/

namespace SelectForm

namespace ColumnTerm

/-- A column carries the flag DISTINCT and has no aggregate function that reads it. -/
def IsIdle (term : ColumnTerm) : Prop := term.distinct = true ∧ term.aggregate = none

/-- What the checks report about an idle flag. -/
def idleProblem (clause : Clause) (term : ColumnTerm) : Problem :=
  if term.isWildcard then .invalidWildcard clause
  else .distinctWithoutAggregate clause term.column

/-- An idle flag is reported, unless the column is a wildcard in SELECT. -/
theorem IsIdle.mem_problems {term : ColumnTerm} (hidle : term.IsIdle) (scope : Scope)
    {clause : Clause} (hplace : clause = .select → term.isWildcard = false) :
    term.idleProblem clause ∈ term.problems scope clause := by
  obtain ⟨hdistinct, hnone⟩ := hidle
  refine List.mem_append_right _ ?_
  unfold idleProblem
  split
  case isTrue hwildcard =>
    have hclause : clause ≠ .select := fun hselect =>
      Bool.false_ne_true ((hplace hselect).symm.trans hwildcard)
    simp [wildcardProblems, hnone, hclause, Problem.when]
  case isFalse => simp [hdistinct, hnone, Problem.when]

/-- The checks do not see the flag of a wildcard that stands alone in SELECT. -/
theorem problems_canonical (scope : Scope) (term : ColumnTerm) :
    term.canonical.problems scope .select = term.problems scope .select := by
  obtain ⟨table, column, aggregate, distinct⟩ := term
  unfold canonical
  split
  case isTrue hbare =>
    rw [isBareWildcard, Bool.and_eq_true, Option.isNone_iff_eq_none] at hbare
    obtain ⟨hwildcard, rfl⟩ := hbare
    obtain rfl : column = "*" := beq_iff_eq.mp hwildcard
    simp [problems, tableProblems, isWildcard, wildcardProblems]
  case isFalse => rfl

/-- A column without an aggregate function is written without its flag. -/
theorem render_canonical (term : ColumnTerm) : term.canonical.render = term.render := by
  unfold canonical
  split
  case isTrue hbare =>
    rw [isBareWildcard, Bool.and_eq_true, Option.isNone_iff_eq_none] at hbare
    simp [render, hbare.2]
  case isFalse => rfl

end ColumnTerm

namespace JoinCondition

theorem mem_problems_of_mem_terms {scope : Scope} {table : String} {condition : JoinCondition}
    {term : ColumnTerm} {problem : Problem} (hterm : term ∈ condition.terms)
    (hproblem : problem ∈ term.problems scope .join) :
    problem ∈ condition.problems scope table := by
  unfold problems
  rcases List.mem_pair.mp hterm with rfl | rfl
  · exact List.mem_append_left _ (List.mem_append_right _ hproblem)
  · exact List.mem_append_right _ hproblem

end JoinCondition

namespace Condition

/-- The checks of a condition reach its column and the columns among its operands. -/
theorem mem_problems_of_mem_terms {scope : Scope} {clause : Clause} {condition : Condition}
    {term : ColumnTerm} {problem : Problem} (hterm : term ∈ condition.terms)
    (hproblem : problem ∈ term.problems scope clause) :
    problem ∈ condition.problems scope clause := by
  unfold problems
  rcases List.mem_cons.mp hterm with rfl | hterm
  · exact List.mem_append_left _ (List.mem_append_left _ hproblem)
  · obtain ⟨operand, hoperand, hcolumn⟩ := List.mem_filterMap.mp hterm
    refine List.mem_append_right _ (List.mem_flatMap.mpr ⟨operand, hoperand, ?_⟩)
    cases operand with
    | parameter name => simp [Operand.term?] at hcolumn
    | literal value => simp [Operand.term?] at hcolumn
    | column table name =>
        obtain rfl := Option.some.inj hcolumn
        exact hproblem

end Condition

namespace Query

variable {query : Query} {clause : Clause} {term : ColumnTerm}

/-- The checks reach every column of a query. -/
theorem mem_problems_of_mem_columnUses {problem : Problem}
    (huse : (clause, term) ∈ query.columnUses)
    (hproblem : problem ∈ term.problems query.scope clause) : problem ∈ query.problems := by
  refine (forall_columnUses_iff query fun clause term =>
    ∀ problem ∈ term.problems query.scope clause, problem ∈ query.problems).mpr ?_
    clause term huse problem hproblem
  unfold problems
  simp only [List.append_assoc, List.mem_append, List.mem_flatMap]
  -- Tables and the list of columns itself stand before the six clauses.
  refine ⟨?select, ?join, ?where_, ?having, ?groupBy, ?orderBy⟩
  case select =>
    intro item hmem problem hproblem
    have hreported : problem ∈ item.problems query.scope := List.mem_append_left _ hproblem
    exact .inr (.inr (.inl ⟨item, hmem, hreported⟩))
  case join =>
    intro join hmem condition hcondition term hterm problem hproblem
    have hreported : problem ∈ join.problems query.scope :=
      List.mem_append_right _ (List.mem_flatMap.mpr
        ⟨condition, hcondition, JoinCondition.mem_problems_of_mem_terms hterm hproblem⟩)
    exact .inr (.inr (.inr (.inl ⟨join, hmem, hreported⟩)))
  case where_ =>
    intro condition hmem term hterm problem hproblem
    have hreported := Condition.mem_problems_of_mem_terms hterm hproblem
    exact .inr (.inr (.inr (.inr (.inl ⟨condition, hmem, .inr hreported⟩))))
  case groupBy =>
    intro item hmem problem hproblem
    have hreported : problem ∈ item.problems query.scope := List.mem_append_right _ hproblem
    exact .inr (.inr (.inr (.inr (.inr (.inl ⟨item, hmem, hreported⟩)))))
  case having =>
    intro condition hmem term hterm problem hproblem
    have hreported := Condition.mem_problems_of_mem_terms hterm hproblem
    exact .inr (.inr (.inr (.inr (.inr (.inr (.inl ⟨condition, hmem, hreported⟩))))))
  case orderBy =>
    intro item hmem problem hproblem
    exact .inr (.inr (.inr (.inr (.inr (.inr (.inr ⟨item, hmem, hproblem⟩))))))

/-- A clause of a query has a column with an idle flag. -/
inductive HasIdle (query : Query) : Clause → ColumnTerm → Prop
  | select {item : SelectItem} (hmem : item ∈ query.columns) (hidle : item.term.IsIdle) :
      HasIdle query .select item.term
  | where_ {condition : Condition} (hmem : condition ∈ query.filters)
      (hidle : condition.term.IsIdle) : HasIdle query .where_ condition.term
  | having {condition : Condition} (hmem : condition ∈ query.groupFilters)
      (hidle : condition.term.IsIdle) : HasIdle query .having condition.term
  | orderBy {item : OrderItem} (hmem : item ∈ query.orders) (hidle : item.term.IsIdle) :
      HasIdle query .orderBy item.term

theorem HasIdle.mem_columnUses (hhas : query.HasIdle clause term) :
    (clause, term) ∈ query.columnUses := by
  unfold columnUses
  simp only [List.append_assoc, List.mem_append, List.mem_map, List.mem_flatMap, Prod.mk.injEq]
  cases hhas with
  | @select item hmem _ => exact .inl ⟨item, hmem, rfl, rfl⟩
  | @where_ condition hmem _ =>
      exact .inr (.inr (.inl ⟨_, ⟨condition, hmem, List.mem_cons_self⟩, rfl, rfl⟩))
  | @having condition hmem _ =>
      exact .inr (.inr (.inr (.inl ⟨_, ⟨condition, hmem, List.mem_cons_self⟩, rfl, rfl⟩)))
  | @orderBy item hmem _ =>
      exact .inr (.inr (.inr (.inr (.inr ⟨item, hmem, rfl, rfl⟩))))

theorem HasIdle.isIdle (hhas : query.HasIdle clause term) : term.IsIdle := by
  cases hhas with
  | select _ hidle => exact hidle
  | where_ _ hidle => exact hidle
  | having _ hidle => exact hidle
  | orderBy _ hidle => exact hidle

/-! ## The exception -/

/-- The query without the flags of wildcards that stand alone in SELECT. -/
def withoutIdleWildcards (query : Query) : Query :=
  { query with columns := query.columns.map SelectItem.canonical }

theorem scope_withoutIdleWildcards (query : Query) :
    query.withoutIdleWildcards.scope = query.scope := rfl

theorem problems_withoutIdleWildcards (query : Query) :
    query.withoutIdleWildcards.problems = query.problems := by
  have hitem (item : SelectItem) :
      item.canonical.problems query.scope = item.problems query.scope := by
    simp only [SelectItem.problems, SelectItem.canonical, ColumnTerm.problems_canonical,
      ColumnTerm.isBareWildcard_canonical]
  have htables : query.withoutIdleWildcards.tableProblems = query.tableProblems := rfl
  unfold problems
  rw [scope_withoutIdleWildcards, htables]
  simp only [withoutIdleWildcards, List.isEmpty_map, List.flatMap_map, hitem]

theorem render_withoutIdleWildcards (layout : Layout) (query : Query) :
    query.withoutIdleWildcards.render layout = query.render layout := by
  have hitem : SelectItem.render ∘ SelectItem.canonical = SelectItem.render := by
    funext item
    simp only [Function.comp_apply, SelectItem.render, SelectItem.canonical,
      ColumnTerm.render_canonical]
  have hclauses :
      query.withoutIdleWildcards.renderClauses layout = query.renderClauses layout := by
    unfold renderClauses
    simp only [withoutIdleWildcards, List.map_map, hitem]
    rfl
  unfold render
  rw [hclauses]
  rfl

/-- An idle flag is reported wherever it stands, except on a wildcard in SELECT.  There it
changes neither what the checks report nor what is written: it is dropped in silence. -/
theorem idleDistinct_reported (query : Query) :
    (∀ clause term, query.HasIdle clause term →
      (clause = .select → term.isWildcard = false) →
      term.idleProblem clause ∈ query.problems) ∧
    query.withoutIdleWildcards.problems = query.problems ∧
    ∀ layout, query.withoutIdleWildcards.render layout = query.render layout := by
  refine ⟨?reported, problems_withoutIdleWildcards query,
    fun layout => render_withoutIdleWildcards layout query⟩
  case reported =>
    intro clause term hhas hplace
    exact mem_problems_of_mem_columnUses hhas.mem_columnUses
      (hhas.isIdle.mem_problems query.scope hplace)

/-- A query with an idle flag on a wildcard in SELECT and on a column in HAVING. -/
theorem idleDistinct_reported_having :
    let condition : Condition :=
      { term := { column := "age", distinct := true }, operator := .isNull }
    let query : Query :=
      { columns := [{ term := { column := "*", distinct := true } }]
        tables := [{ tableName := "users" }]
        groupFilters := [condition] }
    query.HasIdle .having condition.term ∧
      Problem.distinctWithoutAggregate .having "age" ∈ query.problems ∧
      query.withoutIdleWildcards ≠ query ∧
      query.withoutIdleWildcards.render .compact = query.render .compact := by
  intro condition query
  have hidle : condition.term.IsIdle := ⟨rfl, rfl⟩
  have hhas : query.HasIdle .having condition.term := .having List.mem_cons_self hidle
  obtain ⟨hreported, -, hrender⟩ := idleDistinct_reported query
  have hproblem := hreported .having condition.term hhas (fun hselect => absurd hselect (by decide))
  exact ⟨hhas, hproblem, by decide, hrender .compact⟩

/-- The checks accept a wildcard in SELECT that is marked DISTINCT, and it is written as if
it were not marked. -/
theorem checks_accept_distinct_wildcard :
    let item : SelectItem := { term := { column := "*", distinct := true } }
    let query : Query := { columns := [item], tables := [{ tableName := "t" }] }
    query.HasIdle .select item.term ∧ query.problems = [] ∧
      query.render .compact = "SELECT * FROM t" := by
  intro item query
  have hhas : query.HasIdle .select item.term := .select List.mem_cons_self ⟨rfl, rfl⟩
  exact ⟨hhas, by decide +kernel, by decide +kernel⟩

end Query

end SelectForm

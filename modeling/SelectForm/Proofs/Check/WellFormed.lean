import Mathlib
import SelectForm.Check.Problem

/-!
# Well-formed queries

The checks walk through a query clause by clause and carry a scope along.  This
file says which queries they accept without any walk: one property for each
kind of mistake, quantified over every place of a query where the mistake could
be made.

The scope is the delicate part.  It skips a table whose reference is taken
already, so it is a faithful list of the declared tables only if no reference
is declared twice.  The checks report such a reference themselves, and so the
two descriptions agree on every query.
-/

namespace SelectForm

/-! ## The columns of a query -/

namespace Operand

/-- The column that an operand names. -/
def term? : Operand → Option ColumnTerm
  | column table name => some { table, column := name }
  | _ => none

/-- A parameter has a name and a number is one; other operands are always
spelled correctly. -/
def IsSpelled : Operand → Prop
  | parameter name => Text.isParameterName name.toList = true
  | literal (.number text) => Text.isNumber text.toList = true
  | _ => True

end Operand

namespace JoinCondition

/-- The two columns that a join compares. -/
def terms (condition : JoinCondition) : List ColumnTerm :=
  [{ table := some condition.leftTable, column := condition.leftColumn },
    { table := some condition.rightTable, column := condition.rightColumn }]

end JoinCondition

namespace Condition

/-- The column of a condition and the columns among its operands, whether its
operator reads them or not. -/
def terms (condition : Condition) : List ColumnTerm :=
  condition.term :: condition.operands.filterMap Operand.term?

/-- The operands that the operator of a condition reads are there. -/
def HasOperands (condition : Condition) : Prop :=
  match condition.operator with
  | .between => condition.minValue.isSome = true ∧ condition.maxValue.isSome = true
  | .inList => condition.values ≠ []
  | .isNull | .isNotNull => True
  | _ => condition.value.isSome = true

end Condition

namespace ColumnTerm

/-- A wildcard where one may stand: alone in SELECT, or as the argument of `COUNT`
without a table and without `DISTINCT`. -/
def IsWildcardIn (clause : Clause) (term : ColumnTerm) : Prop :=
  term.column = "*" ∧
    ((clause = .select ∧ term.aggregate = none) ∨
      (term.aggregate = some .count ∧ term.table = none ∧ term.distinct = false))

end ColumnTerm

namespace Query

/-- Every column of a query with the clause in which it stands. -/
def columnUses (query : Query) : List (Clause × ColumnTerm) :=
  query.columns.map (fun item => (Clause.select, item.term)) ++
    (query.joins.flatMap fun join =>
      join.conditions.flatMap JoinCondition.terms).map (Clause.join, ·) ++
    (query.filters.flatMap Condition.terms).map (Clause.where_, ·) ++
    (query.groupFilters.flatMap Condition.terms).map (Clause.having, ·) ++
    query.groups.map (fun item => (Clause.groupBy, item.term)) ++
    query.orders.map (fun item => (Clause.orderBy, item.term))

/-- A name refers to a table of FROM or JOIN: it is the reference of the table or
the name of the table, with or without the schema. -/
def Declares (query : Query) (name : String) : Prop :=
  ∃ table ∈ query.declaredTables,
    Identifier.same table.reference name = true ∨ table.isNamed name = true

/-- What the checks demand of a query, kind of mistake by kind of mistake. -/
structure WellFormed (query : Query) : Prop where
  hasColumns : query.columns ≠ []
  hasTables : query.tables ≠ []
  tableNames : ∀ table ∈ query.tableItems, Identifier.isValidTable table.tableName = true
  tableAliases : ∀ table ∈ query.tableItems, ∀ aliasName,
    table.aliasName = some aliasName → Identifier.isValid aliasName = true
  references : query.declaredTables.Pairwise fun first second =>
    Identifier.same first.reference second.reference = false
  qualifiers : ∀ clause name, (clause, name) ∈ query.qualifiers →
    Identifier.isValid name = true ∧ query.Declares name
  columnNames : ∀ clause term, (clause, term) ∈ query.columnUses →
    Identifier.isValid term.column = true ∨ term.IsWildcardIn clause
  distinctTerms : ∀ clause term, (clause, term) ∈ query.columnUses →
    term.distinct = true → term.column ≠ "*" → term.aggregate.isSome = true
  plainFilters : ∀ condition ∈ query.filters, condition.term.aggregate = none
  plainGroups : ∀ item ∈ query.groups, item.aggregate = none
  selectAliases : ∀ item ∈ query.columns, ∀ aliasName, item.aliasName = some aliasName →
    Identifier.isValid aliasName = true ∧ item.term.isBareWildcard = false
  joinConditions : ∀ join ∈ query.joins, join.conditions ≠ []
  joinOperators : ∀ join ∈ query.joins, ∀ condition ∈ join.conditions,
    condition.operator.isComparison = true
  slots : ∀ condition ∈ query.filters ++ query.groupFilters, condition.HasOperands
  spellings : ∀ condition ∈ query.filters ++ query.groupFilters,
    ∀ operand ∈ condition.operands, operand.IsSpelled

end Query

/-! ## Names and scopes -/

namespace Problem

@[simp] theorem when_eq_nil_iff (condition : Bool) (problem : Problem) :
    when condition problem = [] ↔ condition = false := by
  cases condition <;> simp [when]

end Problem

namespace Identifier

@[simp] theorem same_lower (name other : String) :
    same (lower name) other = same name other := by
  simp [same, lower, Text.sameLetters, Function.comp_def]

theorem lower_beq_lower (left right : String) :
    (lower left == lower right) = same left right := by
  rw [Bool.eq_iff_iff]
  simp [same, lower, Text.sameLetters, ← String.toList_inj]

end Identifier

namespace Scope

/-- The entry of a declared table. -/
def entry (table : DeclaredTable) : String × String :=
  (Identifier.lower table.reference, table.tableName)

theorem contains_map_entry (tables : List DeclaredTable) (name : String) :
    contains ⟨tables.map entry⟩ name =
      tables.any fun table => Identifier.same table.reference name := by
  simp only [contains, List.any_map]
  congr 1
  funext table
  exact Identifier.lower_beq_lower table.reference name

theorem add_of_free {tables : List DeclaredTable} {table : DeclaredTable}
    (hfree : contains ⟨tables.map entry⟩ table.reference = false) :
    add ⟨tables.map entry⟩ table.reference table.tableName =
      ⟨(tables ++ [table]).map entry⟩ := by
  simp [add, hfree, entry]

/-- If no reference is declared twice, a scope holds every declared table. -/
theorem foldl_add_eq {before after : List DeclaredTable}
    (hfree : (before ++ after).Pairwise fun first second =>
      Identifier.same first.reference second.reference = false) :
    after.foldl
        (fun scope table =>
          if contains scope table.reference then
            scope
          else
            scope.add table.reference table.tableName)
        ⟨before.map entry⟩ =
      ⟨(before ++ after).map entry⟩ := by
  induction after generalizing before with
  | nil => simp
  | cons table after ih =>
      have hnew : contains ⟨before.map entry⟩ table.reference = false := by
        rw [contains_map_entry, List.any_eq_false]
        intro first hfirst
        have hcross := (List.pairwise_append.mp hfree).2.2
        simp [hcross first hfirst table (by simp)]
      rw [List.foldl_cons, if_neg (by simp [hnew]), add_of_free hnew, ih (by simpa using hfree)]
      simp

theorem ofTables_eq {tables : List DeclaredTable}
    (hfree : tables.Pairwise fun first second =>
      Identifier.same first.reference second.reference = false) :
    ofTables tables = ⟨tables.map entry⟩ :=
  @foldl_add_eq [] tables hfree

/-- In the scope of a query that declares no reference twice, a name resolves
exactly if the query declares it. -/
theorem resolves_iff_declares {query : Query} {name : String}
    (hfree : query.declaredTables.Pairwise fun first second =>
      Identifier.same first.reference second.reference = false) :
    query.scope.resolves name = true ↔ query.Declares name := by
  rw [Query.scope, ofTables_eq hfree, resolves, List.any_map, List.any_eq_true]
  simp [Query.Declares, entry, DeclaredTable.isNamed, or_assoc]

end Scope

namespace Query

/-- The walk that looks for repeated references finds none exactly if there is none,
neither among the tables ahead nor between them and those behind. -/
theorem duplicateReferences_go_eq_nil_iff (before after : List DeclaredTable) :
    duplicateReferences.go ⟨before.map Scope.entry⟩ after = [] ↔
      (∀ first ∈ before, ∀ second ∈ after,
        Identifier.same first.reference second.reference = false) ∧
      after.Pairwise fun first second =>
        Identifier.same first.reference second.reference = false := by
  induction after generalizing before with
  | nil => simp [duplicateReferences.go]
  | cons table after ih =>
      rw [duplicateReferences.go]
      split
      case isTrue htaken =>
        rw [Scope.contains_map_entry, List.any_eq_true] at htaken
        obtain ⟨first, hfirst, hsame⟩ := htaken
        simp only [List.cons_ne_nil, false_iff, not_and]
        intro hcross
        simp [hcross first hfirst table (by simp)] at hsame
      case isFalse hfree =>
        rw [Bool.not_eq_true] at hfree
        rw [Scope.add_of_free hfree, ih, List.pairwise_cons]
        rw [Scope.contains_map_entry, List.any_eq_false] at hfree
        simp only [List.mem_append, List.mem_cons, List.not_mem_nil, or_false]
        constructor
        · rintro ⟨hcross, hpairs⟩
          refine ⟨fun first hfirst second hsecond => ?_, fun second hsecond => ?_, hpairs⟩
          · rcases hsecond with rfl | hsecond
            · simpa using hfree first hfirst
            · exact hcross first (.inl hfirst) second hsecond
          · exact hcross table (.inr rfl) second hsecond
        · rintro ⟨hcross, htable, hpairs⟩
          refine ⟨fun first hfirst second hsecond => ?_, hpairs⟩
          rcases hfirst with hfirst | rfl
          · exact hcross first hfirst second (.inr hsecond)
          · exact htable second hsecond

theorem duplicateReferences_eq_nil_iff (query : Query) :
    query.duplicateReferences = [] ↔
      query.declaredTables.Pairwise fun first second =>
        Identifier.same first.reference second.reference = false := by
  have hgo := duplicateReferences_go_eq_nil_iff [] query.declaredTables
  simp only [List.map_nil, List.not_mem_nil, false_implies, implies_true, true_and] at hgo
  rw [duplicateReferences, ← hgo]
  cases duplicateReferences.go {} query.declaredTables with
  | nil => simp
  | cons reference others => simp [List.eraseDups_cons]

end Query

/-! ## The checks, part by part -/

namespace TableItem

theorem problems_eq_nil_iff (clause : Clause) (table : TableItem) :
    table.problems clause = [] ↔
      Identifier.isValidTable table.tableName = true ∧
        ∀ aliasName, table.aliasName = some aliasName →
          Identifier.isValid aliasName = true := by
  rw [problems, List.append_eq_nil_iff]
  cases table.aliasName <;> simp

end TableItem

namespace ColumnTerm

theorem tableProblems_eq_nil_iff (scope : Scope) (clause : Clause) (term : ColumnTerm) :
    term.tableProblems scope clause = [] ↔
      ∀ table, term.table = some table →
        Identifier.isValid table = true ∧ scope.resolves table = true := by
  rw [tableProblems]
  cases term.table with
  | none => simp
  | some table => cases hvalid : Identifier.isValid table <;> simp [hvalid]

theorem wildcardProblems_eq_nil_iff (clause : Clause) (term : ColumnTerm) :
    term.wildcardProblems clause = [] ↔
      (clause = .select ∧ term.aggregate = none) ∨
        (term.aggregate = some .count ∧ term.table = none ∧ term.distinct = false) := by
  rw [wildcardProblems]
  cases haggregate : term.aggregate with
  | none => simp
  | some aggregate =>
      cases htable : term.table <;> cases aggregate <;> simp [Aggregate.acceptsWildcard]

/-- What the checks demand of a column, apart from its table. -/
theorem problems_eq_nil_iff (scope : Scope) (clause : Clause) (term : ColumnTerm) :
    term.problems scope clause = [] ↔
      (∀ table, term.table = some table →
        Identifier.isValid table = true ∧ scope.resolves table = true) ∧
      (Identifier.isValid term.column = true ∨ term.IsWildcardIn clause) ∧
      (term.distinct = true → term.column ≠ "*" → term.aggregate.isSome = true) := by
  rw [problems, List.append_eq_nil_iff, tableProblems_eq_nil_iff]
  refine and_congr_right fun _ => ?_
  have hstar : Identifier.isValid "*" = false := by decide
  by_cases hcolumn : term.column = "*"
  · simp [isWildcard, IsWildcardIn, hcolumn, hstar, wildcardProblems_eq_nil_iff]
  · simp only [isWildcard, IsWildcardIn, hcolumn, beq_iff_eq, if_false, false_and, or_false]
    cases term.distinct <;> cases term.aggregate <;> simp [hcolumn]

end ColumnTerm

namespace Operand

theorem problems_eq_nil_iff (scope : Scope) (clause : Clause) (operand : Operand) :
    operand.problems scope clause = [] ↔
      operand.IsSpelled ∧
        ∀ term, operand.term? = some term → term.problems scope clause = [] := by
  cases operand with
  | parameter name => simp [problems, IsSpelled, term?]
  | literal value => cases value <;> simp [problems, IsSpelled, term?]
  | column table name => simp [problems, IsSpelled, term?]

end Operand

namespace SelectItem

theorem problems_eq_nil_iff (scope : Scope) (item : SelectItem) :
    item.problems scope = [] ↔
      item.term.problems scope .select = [] ∧
        ∀ aliasName, item.aliasName = some aliasName →
          Identifier.isValid aliasName = true ∧ item.term.isBareWildcard = false := by
  rw [problems, List.append_eq_nil_iff]
  cases item.aliasName with
  | none => simp
  | some aliasName => cases hbare : item.term.isBareWildcard <;> simp

end SelectItem

namespace Join

theorem problems_eq_nil_iff (scope : Scope) (join : Join) :
    join.problems scope = [] ↔
      join.conditions ≠ [] ∧
        (∀ condition ∈ join.conditions, condition.operator.isComparison = true) ∧
        ∀ condition ∈ join.conditions, ∀ term ∈ condition.terms,
          term.problems scope .join = [] := by
  simp only [problems, JoinCondition.problems, JoinCondition.terms, List.append_eq_nil_iff,
    Problem.when_eq_nil_iff, List.flatMap_eq_nil_iff, List.isEmpty_eq_false_iff,
    Bool.not_eq_false', List.mem_cons, List.not_mem_nil, or_false, forall_eq_or_imp, forall_eq]
  grind

end Join

namespace Condition

theorem slotProblems_eq_nil_iff (clause : Clause) (condition : Condition) :
    condition.slotProblems clause = [] ↔ condition.HasOperands := by
  rw [slotProblems, HasOperands]
  cases condition.operator <;> simp

theorem problems_eq_nil_iff (scope : Scope) (clause : Clause) (condition : Condition) :
    condition.problems scope clause = [] ↔
      condition.HasOperands ∧
        (∀ operand ∈ condition.operands, operand.IsSpelled) ∧
        ∀ term ∈ condition.terms, term.problems scope clause = [] := by
  simp only [problems, terms, List.append_eq_nil_iff, List.flatMap_eq_nil_iff,
    slotProblems_eq_nil_iff, Operand.problems_eq_nil_iff, List.mem_cons, List.mem_filterMap,
    forall_eq_or_imp, forall_exists_index, and_imp]
  grind

theorem aggregateProblems_eq_nil_iff (condition : Condition) :
    condition.aggregateProblems = [] ↔ condition.term.aggregate = none := by
  rw [aggregateProblems]
  cases condition.term.aggregate <;> simp

end Condition

namespace GroupItem

theorem problems_eq_nil_iff (scope : Scope) (item : GroupItem) :
    item.problems scope = [] ↔
      item.aggregate = none ∧ item.term.problems scope .groupBy = [] := by
  rw [problems, List.append_eq_nil_iff]
  cases item.aggregate <;> simp

end GroupItem

/-! ## The checks as a whole -/

namespace Query

theorem qualifiers_eq (query : Query) :
    query.qualifiers =
      query.columnUses.filterMap fun use => use.2.table.map (use.1, ·) := by
  have hoperand : ∀ operand : Operand,
      operand.qualifier? = operand.term?.bind ColumnTerm.table := by
    rintro (name | value | ⟨table, name⟩) <;> rfl
  have hcondition : ∀ condition : Condition,
      condition.qualifiers = condition.terms.filterMap ColumnTerm.table := by
    intro condition
    cases htable : condition.term.table <;>
      simp [Condition.qualifiers, Condition.terms, List.filterMap_filterMap, htable, hoperand]
  have hjoin : ∀ condition : JoinCondition,
      condition.qualifiers = condition.terms.filterMap ColumnTerm.table := by
    intro condition
    rfl
  simp [qualifiers, columnUses, hcondition, hjoin, List.map_filterMap, List.filterMap_map,
    List.filterMap_flatMap, List.map_flatMap, GroupItem.term]

theorem mem_qualifiers_iff {query : Query} {clause : Clause} {name : String} :
    (clause, name) ∈ query.qualifiers ↔
      ∃ term, (clause, term) ∈ query.columnUses ∧ term.table = some name := by
  rw [qualifiers_eq, List.mem_filterMap]
  constructor
  · rintro ⟨⟨useClause, term⟩, hmem, huse⟩
    obtain ⟨table, htable, hpair⟩ := Option.map_eq_some_iff.mp huse
    obtain ⟨rfl, rfl⟩ := Prod.mk.inj hpair
    exact ⟨term, hmem, htable⟩
  · rintro ⟨term, hmem, htable⟩
    exact ⟨(clause, term), hmem, by simp [htable]⟩

theorem forall_columnUses_iff (query : Query) (holds : Clause → ColumnTerm → Prop) :
    (∀ clause term, (clause, term) ∈ query.columnUses → holds clause term) ↔
      (∀ item ∈ query.columns, holds .select item.term) ∧
      (∀ join ∈ query.joins, ∀ condition ∈ join.conditions, ∀ term ∈ condition.terms,
        holds .join term) ∧
      (∀ condition ∈ query.filters, ∀ term ∈ condition.terms, holds .where_ term) ∧
      (∀ condition ∈ query.groupFilters, ∀ term ∈ condition.terms, holds .having term) ∧
      (∀ item ∈ query.groups, holds .groupBy item.term) ∧
      ∀ item ∈ query.orders, holds .orderBy item.term := by
  simp only [columnUses, List.mem_append, List.mem_map, List.mem_flatMap, Prod.mk.injEq]
  constructor
  · intro h
    refine ⟨fun item hitem => h _ _ ?_, fun join hjoin condition hcondition term hterm => h _ _ ?_,
      fun condition hcondition term hterm => h _ _ ?_,
      fun condition hcondition term hterm => h _ _ ?_, fun item hitem => h _ _ ?_,
      fun item hitem => h _ _ ?_⟩ <;> grind
  · rintro ⟨hselect, hjoin, hwhere, hhaving, hgroup, horder⟩ clause term hmem
    grind

/-- The walk over the clauses, with the columns of all clauses taken together. -/
theorem problems_eq_nil_iff_parts (query : Query) :
    query.problems = [] ↔
      query.tableProblems = [] ∧ query.columns ≠ [] ∧
      (∀ clause term, (clause, term) ∈ query.columnUses →
        term.problems query.scope clause = []) ∧
      (∀ item ∈ query.columns, ∀ aliasName, item.aliasName = some aliasName →
        Identifier.isValid aliasName = true ∧ item.term.isBareWildcard = false) ∧
      (∀ join ∈ query.joins, join.conditions ≠ [] ∧
        ∀ condition ∈ join.conditions, condition.operator.isComparison = true) ∧
      (∀ condition ∈ query.filters, condition.term.aggregate = none) ∧
      (∀ item ∈ query.groups, item.aggregate = none) ∧
      ∀ condition ∈ query.filters ++ query.groupFilters, condition.HasOperands ∧
        ∀ operand ∈ condition.operands, operand.IsSpelled := by
  rw [forall_columnUses_iff query fun clause term => term.problems query.scope clause = []]
  simp only [problems, List.append_eq_nil_iff, List.flatMap_eq_nil_iff,
    Problem.when_eq_nil_iff, List.isEmpty_eq_false_iff, SelectItem.problems_eq_nil_iff,
    Join.problems_eq_nil_iff, Condition.problems_eq_nil_iff,
    Condition.aggregateProblems_eq_nil_iff, GroupItem.problems_eq_nil_iff,
    List.forall_mem_append, forall_and]
  tauto

theorem tableProblems_eq_nil_iff (query : Query) :
    query.tableProblems = [] ↔
      query.tables ≠ [] ∧
      (∀ table ∈ query.tableItems, Identifier.isValidTable table.tableName = true ∧
        ∀ aliasName, table.aliasName = some aliasName →
          Identifier.isValid aliasName = true) ∧
      query.declaredTables.Pairwise fun first second =>
        Identifier.same first.reference second.reference = false := by
  simp only [tableProblems, List.append_eq_nil_iff, List.flatMap_eq_nil_iff,
    Problem.when_eq_nil_iff, List.isEmpty_eq_false_iff, List.map_eq_nil_iff,
    TableItem.problems_eq_nil_iff, duplicateReferences_eq_nil_iff, tableItems,
    List.mem_append, List.mem_map]
  grind

/-- A query without a problem is well-formed. -/
theorem wellFormed_of_problems_eq_nil {query : Query} (hnone : query.problems = []) :
    query.WellFormed := by
  rw [problems_eq_nil_iff_parts, tableProblems_eq_nil_iff] at hnone
  obtain ⟨⟨htables, hitems, hfree⟩, hcolumns, huses, haliases, hjoins, hfilters, hgroups,
    hconditions⟩ := hnone
  have hterm := fun clause term hmem =>
    (ColumnTerm.problems_eq_nil_iff query.scope clause term).mp (huses clause term hmem)
  refine
    { hasColumns := hcolumns
      hasTables := htables
      tableNames := fun table hmem => (hitems table hmem).1
      tableAliases := fun table hmem => (hitems table hmem).2
      references := hfree
      qualifiers := ?_
      columnNames := fun clause term hmem => (hterm clause term hmem).2.1
      distinctTerms := fun clause term hmem => (hterm clause term hmem).2.2
      plainFilters := hfilters
      plainGroups := hgroups
      selectAliases := haliases
      joinConditions := fun join hmem => (hjoins join hmem).1
      joinOperators := fun join hmem => (hjoins join hmem).2
      slots := fun condition hmem => (hconditions condition hmem).1
      spellings := fun condition hmem => (hconditions condition hmem).2 }
  intro clause name hmem
  obtain ⟨term, huse, htable⟩ := mem_qualifiers_iff.mp hmem
  have hname := (hterm clause term huse).1 name htable
  exact ⟨hname.1, (Scope.resolves_iff_declares hfree).mp hname.2⟩

theorem problems_eq_nil_of_wellFormed {query : Query} (hwell : query.WellFormed) :
    query.problems = [] := by
  rw [problems_eq_nil_iff_parts, tableProblems_eq_nil_iff]
  refine ⟨⟨hwell.hasTables, fun table hmem =>
    ⟨hwell.tableNames table hmem, hwell.tableAliases table hmem⟩, hwell.references⟩,
    hwell.hasColumns, ?_, hwell.selectAliases, fun join hmem =>
    ⟨hwell.joinConditions join hmem, hwell.joinOperators join hmem⟩, hwell.plainFilters,
    hwell.plainGroups, fun condition hmem =>
    ⟨hwell.slots condition hmem, hwell.spellings condition hmem⟩⟩
  intro clause term hmem
  rw [ColumnTerm.problems_eq_nil_iff]
  refine ⟨fun table htable => ?_, hwell.columnNames clause term hmem,
    hwell.distinctTerms clause term hmem⟩
  have hname := hwell.qualifiers clause table (mem_qualifiers_iff.mpr ⟨term, hmem, htable⟩)
  exact ⟨hname.1, (Scope.resolves_iff_declares hwell.references).mpr hname.2⟩

/-- The checks find no problem exactly in well-formed queries. -/
theorem problems_eq_nil_iff_wellFormed (query : Query) :
    query.problems = [] ↔ query.WellFormed :=
  ⟨wellFormed_of_problems_eq_nil, problems_eq_nil_of_wellFormed⟩

end Query

end SelectForm

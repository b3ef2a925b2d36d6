import Mathlib
import SelectForm.Proofs.Statement.ReadWritten

/-!
# The problems of queries that are read

The readers and the checks are written apart from each other, and nearly agree.  A reader
does not look up tables, so a query that is read may refer to a table that is not declared
or declare one twice.  Beyond that, only the conditions of joins may hold what the checks
reject: there a reader takes any name, and a name may be a reserved word.
-/

namespace SelectForm

namespace Problem

/-- A problem of the tables that a query declares and of the names that refer to them. -/
def isReference : Problem → Bool
  | undeclaredReference _ _ => true
  | duplicateReference _ => true
  | _ => false

@[simp] theorem when_false (problem : Problem) : when false problem = [] := rfl

theorem mem_when {condition : Bool} {problem other : Problem} :
    other ∈ when condition problem ↔ condition = true ∧ other = problem := by
  unfold when
  split <;> simp [*]

end Problem

/-! ## Columns and operands -/

namespace ColumnTerm

variable {scope : Scope} {clause : Clause} {term : ColumnTerm}

/-- A column that is spelled as its clause demands can only lack its table. -/
theorem problems_eq_tableProblems (hspelled : term.IsSpelled clause) :
    term.problems scope clause = term.tableProblems scope clause := by
  have hcolumn := hspelled.column
  rw [problems]
  apply List.append_right_eq_self.mpr
  by_cases hstar : term.isWildcard = true
  · rw [if_pos hstar, wildcardProblems_eq_nil_iff]
    have hname : Identifier.isValid term.column = false := by
      rw [beq_iff_eq.mp hstar]
      decide
    exact (hcolumn.resolve_left (by simp [hname])).2
  · have hne : term.column ≠ "*" := fun hname => hstar (beq_iff_eq.mpr hname)
    have hvalid := hcolumn.resolve_right fun hwildcard => hne hwildcard.1
    have hdistinct : (term.distinct && term.aggregate.isNone) = false := by
      by_contra hboth
      rw [Bool.not_eq_false, Bool.and_eq_true] at hboth
      have hsome := hspelled.distinct hboth.1 hne
      rw [Option.isNone_iff_eq_none.mp hboth.2] at hsome
      exact absurd hsome (by decide)
    simp [hstar, hvalid, hdistinct]

theorem isReference_of_isSpelled (hspelled : term.IsSpelled clause) :
    ∀ problem ∈ term.problems scope clause, problem.isReference = true := by
  rw [problems_eq_tableProblems hspelled, tableProblems]
  intro problem hmem
  cases htable : term.table with
  | none => simp [htable] at hmem
  | some name =>
      have hname := hspelled.table name htable
      simp only [htable, hname, Bool.not_true, Bool.false_eq_true, if_false,
        Problem.mem_when] at hmem
      rw [hmem.2]
      rfl

/-- A qualified column whose names may be reserved words. -/
theorem cases_of_isName {table column : String} (htable : Text.isName table.toList = true)
    (hcolumn : Text.isName column.toList = true) {problem : Problem}
    (hmem : problem ∈ ColumnTerm.problems scope clause { table := some table, column }) :
    problem.isReference = true ∨ ∃ name ∈ [table, column], Identifier.isReserved name = true ∧
      problem = .invalidIdentifier clause name := by
  have hreserved : ∀ name : String, Text.isName name.toList = true →
      Identifier.isValid name = false → Identifier.isReserved name = true := by
    intro name hname hinvalid
    simpa [Identifier.isValid, hname] using hinvalid
  have hstar : ({ table := some table, column } : ColumnTerm).isWildcard = false :=
    beq_eq_false_iff_ne.mpr (Lexeme.ne_star_of_isName hcolumn)
  rw [problems, hstar, List.mem_append] at hmem
  rcases hmem with hmem | hmem
  · rw [tableProblems] at hmem
    dsimp only at hmem
    split at hmem
    · rename_i hinvalid
      obtain rfl := List.mem_singleton.mp hmem
      exact .inr ⟨table, by simp, hreserved table htable (by simpa using hinvalid), rfl⟩
    · rw [Problem.mem_when] at hmem
      rw [hmem.2]
      exact .inl rfl
  · simp only [Bool.false_eq_true, if_false, List.mem_append, Problem.mem_when,
      Bool.false_and, false_and, or_false, Bool.not_eq_true'] at hmem
    exact .inr ⟨column, by simp, hreserved column hcolumn hmem.1, hmem.2⟩

end ColumnTerm

namespace Operand

theorem isReference_of_isWritten {scope : Scope} {clause : Clause} {operand : Operand}
    (hwritten : operand.IsWritten) :
    ∀ problem ∈ operand.problems scope clause, problem.isReference = true := by
  cases operand with
  | parameter name =>
      have hname : Text.isParameterName name.toList = true := hwritten.spelled
      simp [problems, hname]
  | literal value =>
      cases value with
      | number text =>
          have hnumber : Text.isNumber text.toList = true := hwritten.spelled
          simp [problems, hnumber]
      | string _ | boolean _ | null => exact List.forall_mem_nil _
  | column table name =>
      have hname := hwritten.name table name rfl
      apply ColumnTerm.isReference_of_isSpelled
      exact ⟨hname.1, .inl hname.2, by simp⟩

end Operand

/-! ## Clauses -/

theorem Condition.isReference_of_isWritten {scope : Scope} {clause : Clause} {condition : Condition}
    (hwritten : condition.IsWritten clause) :
    ∀ problem ∈ condition.problems scope clause, problem.isReference = true := by
  have hslots := (slotProblems_eq_nil_iff clause condition).mpr hwritten.slots
  rw [problems, hslots, List.append_nil, List.forall_mem_append]
  refine ⟨ColumnTerm.isReference_of_isSpelled hwritten.term, fun problem hmem => ?_⟩
  obtain ⟨operand, hoperand, hproblem⟩ := List.mem_flatMap.mp hmem
  exact Operand.isReference_of_isWritten (hwritten.operands operand hoperand) problem hproblem

theorem SelectItem.isReference_of_isWritten {scope : Scope} {item : SelectItem}
    (hwritten : item.IsWritten) :
    ∀ problem ∈ item.problems scope, problem.isReference = true := by
  rw [problems, List.forall_mem_append]
  refine ⟨ColumnTerm.isReference_of_isSpelled hwritten.term, ?_⟩
  cases halias : item.aliasName with
  | none => exact List.forall_mem_nil _
  | some aliasName =>
      obtain ⟨hvalid, hbare⟩ := hwritten.aliasName aliasName halias
      simp [hvalid, hbare]

namespace JoinCondition

/-- The names of a condition of a join that are reserved words. -/
def reservedNames (condition : JoinCondition) : List String :=
  [condition.leftTable, condition.leftColumn, condition.rightTable,
    condition.rightColumn].filter Identifier.isReserved

variable {scope : Scope} {table : String} {condition : JoinCondition}

theorem cases_of_isWritten (hwritten : condition.IsWritten) {problem : Problem}
    (hmem : problem ∈ condition.problems scope table) :
    problem.isReference = true ∨ ∃ name ∈ condition.reservedNames,
      problem = .invalidIdentifier .join name := by
  have hnames : ∀ table column, Text.isName table.toList = true →
      Text.isName column.toList = true →
      [table, column] ⊆ [condition.leftTable, condition.leftColumn, condition.rightTable,
        condition.rightColumn] →
      problem ∈ ColumnTerm.problems scope .join { table := some table, column } →
      problem.isReference = true ∨ ∃ name ∈ condition.reservedNames,
        problem = .invalidIdentifier .join name := by
    intro table column htable hcolumn hsubset hmem
    refine (ColumnTerm.cases_of_isName htable hcolumn hmem).imp_right ?_
    rintro ⟨name, hname, hreserved, hproblem⟩
    exact ⟨name, List.mem_filter.mpr ⟨hsubset hname, hreserved⟩, hproblem⟩
  simp only [problems, hwritten.operator, Bool.not_true, Problem.when, Bool.false_eq_true,
    if_false, List.nil_append, List.mem_append] at hmem
  rcases hmem with hmem | hmem
  · exact hnames _ _ hwritten.leftTable hwritten.leftColumn (by simp) hmem
  · exact hnames _ _ hwritten.rightTable hwritten.rightColumn (by simp) hmem

/-- A reserved word in a condition of a join is a problem. -/
theorem mem_problems_of_mem_reservedNames {name : String} (hname : name ∈ condition.reservedNames) :
    .invalidIdentifier .join name ∈ condition.problems scope table := by
  obtain ⟨hmem, hreserved⟩ := List.mem_filter.mp hname
  have hinvalid : Identifier.isValid name = false := by simp [Identifier.isValid, hreserved]
  have hstar : ∀ table column, Identifier.isReserved column = true →
      ({ table, column } : ColumnTerm).isWildcard = false := by
    intro table column hreserved
    refine beq_eq_false_iff_ne.mpr ?_
    rintro rfl
    exact absurd hreserved (by decide)
  have hcolumn : ∀ table, Problem.invalidIdentifier .join name ∈
      ColumnTerm.problems scope .join { table := some table, column := name } := by
    intro table
    rw [ColumnTerm.problems, hstar _ _ hreserved]
    simp [Problem.mem_when, hinvalid]
  have htable : ∀ column, Problem.invalidIdentifier .join name ∈
      ColumnTerm.problems scope .join { table := some name, column } := by
    intro column
    rw [ColumnTerm.problems]
    simp [ColumnTerm.tableProblems, hinvalid]
  rw [problems, List.append_assoc, List.mem_append, List.mem_append]
  simp only [List.mem_cons, List.not_mem_nil, or_false] at hmem
  rcases hmem with rfl | rfl | rfl | rfl
  · exact .inr (.inl (htable _))
  · exact .inr (.inl (hcolumn _))
  · exact .inr (.inr (htable _))
  · exact .inr (.inr (hcolumn _))

end JoinCondition

/-! ## Queries -/

namespace Query

variable {query : Query}

/-- The reserved words that name tables and columns in the conditions of joins. -/
def reservedJoinNames (query : Query) : List String :=
  query.joins.flatMap fun join => join.conditions.flatMap JoinCondition.reservedNames

theorem isReference_of_tableProblems (hwritten : query.IsWritten) :
    ∀ problem ∈ query.tableProblems, problem.isReference = true := by
  have hnone : ∀ clause table, table.IsWritten → TableItem.problems clause table = [] :=
    fun clause table htable =>
      (TableItem.problems_eq_nil_iff clause table).mpr ⟨htable.name, htable.aliasName⟩
  have htables : query.tables.flatMap (TableItem.problems .from_) = [] :=
    List.flatMap_eq_nil_iff.mpr fun table hmem => hnone _ table (hwritten.tables table hmem)
  have hjoins : query.joins.flatMap (fun join => join.table.problems .join) = [] :=
    List.flatMap_eq_nil_iff.mpr fun join hmem => hnone _ _ (hwritten.joins join hmem).table
  have hfrom : Problem.when query.tables.isEmpty .noFromTable = [] := by
    simp [hwritten.hasTables]
  rw [tableProblems, hfrom, htables, hjoins]
  intro problem hmem
  obtain ⟨reference, -, rfl⟩ := List.mem_map.mp hmem
  rfl

/-- The problems of a query whose text can be read back. -/
theorem cases_of_isWritten (hwritten : query.IsWritten) {problem : Problem}
    (hmem : problem ∈ query.problems) :
    problem.isReference = true ∨ ∃ name ∈ query.reservedJoinNames,
      problem = .invalidIdentifier .join name := by
  have hcolumns : Problem.when query.columns.isEmpty .noSelectColumns = [] := by
    simp [hwritten.hasColumns]
  simp only [problems, hcolumns, List.append_nil, List.mem_append, List.mem_flatMap] at hmem
  rcases hmem with (((((hmem | ⟨item, hitem, hmem⟩) | ⟨join, hjoin, hmem⟩) |
    ⟨condition, hcondition, hmem⟩) | ⟨item, hitem, hmem⟩) | ⟨condition, hcondition, hmem⟩) |
    ⟨item, hitem, hmem⟩
  · exact .inl (isReference_of_tableProblems hwritten problem hmem)
  · exact .inl (SelectItem.isReference_of_isWritten (hwritten.columns item hitem) problem hmem)
  · have hjoinWritten := hwritten.joins join hjoin
    simp only [Join.problems, hjoinWritten.hasConditions, Problem.when, List.isEmpty_iff, if_false,
      List.nil_append, List.mem_flatMap] at hmem
    obtain ⟨condition, hcondition, hproblem⟩ := hmem
    refine (JoinCondition.cases_of_isWritten (hjoinWritten.conditions condition hcondition)
      hproblem).imp_right ?_
    rintro ⟨name, hname, rfl⟩
    exact ⟨name, List.mem_flatMap.mpr ⟨join, hjoin,
      List.mem_flatMap.mpr ⟨condition, hcondition, hname⟩⟩, rfl⟩
  · obtain ⟨hfilter, haggregate⟩ := hwritten.filters condition hcondition
    simp only [Condition.aggregateProblems, haggregate, List.not_mem_nil, false_or] at hmem
    exact .inl (Condition.isReference_of_isWritten hfilter problem hmem)
  · obtain ⟨hspelled, haggregate⟩ := hwritten.groups item hitem
    simp only [GroupItem.problems, haggregate, List.nil_append] at hmem
    exact .inl (ColumnTerm.isReference_of_isSpelled hspelled problem hmem)
  · exact .inl (Condition.isReference_of_isWritten (hwritten.groupFilters condition hcondition)
      problem hmem)
  · exact .inl (ColumnTerm.isReference_of_isSpelled (hwritten.orders item hitem) problem hmem)

/-- The problems of a query that is read concern the tables that it declares and refers to,
and the reserved words in the conditions of its joins, each of which is a problem. -/
theorem problems_of_parse {sql : String} (hparse : parse sql = .ok query) :
    (∀ problem ∈ query.problems, problem.isReference = true ∨
      ∃ name ∈ query.reservedJoinNames, problem = .invalidIdentifier .join name) ∧
    ∀ name ∈ query.reservedJoinNames, .invalidIdentifier .join name ∈ query.problems := by
  refine ⟨fun problem hmem => cases_of_isWritten (isWritten_of_ofText hparse) hmem,
    fun name hname => ?_⟩
  obtain ⟨join, hjoin, hname⟩ := List.mem_flatMap.mp hname
  obtain ⟨condition, hcondition, hname⟩ := List.mem_flatMap.mp hname
  have hproblem := List.mem_flatMap.mpr ⟨condition, hcondition,
    @JoinCondition.mem_problems_of_mem_reservedNames query.scope join.table.tableName _ _ hname⟩
  have hjoinProblem : Problem.invalidIdentifier .join name ∈
      query.joins.flatMap (Join.problems query.scope) :=
    List.mem_flatMap.mpr ⟨join, hjoin, List.mem_append_right _ hproblem⟩
  simp only [problems, List.mem_append]
  tauto

/-- A query whose join compares a column that has the name of a keyword. -/
def reservedJoin : Query where
  columns := [.wildcard]
  tables := [{ tableName := "t" }]
  joins := [{
    table := { tableName := "u" }
    conditions := [{
      leftTable := "t"
      leftColumn := "order"
      rightTable := "u"
      rightColumn := "id" }] }]

theorem problems_of_parse_reservedJoin :
    let sql := "SELECT * FROM t JOIN u ON t.order = u.id"
    parse sql = .ok reservedJoin ∧ reservedJoin.reservedJoinNames = ["order"] ∧
      .invalidIdentifier .join "order" ∈ reservedJoin.problems := by
  have hparse : parse "SELECT * FROM t JOIN u ON t.order = u.id" = .ok reservedJoin := by
    decide +kernel
  have hnames : reservedJoin.reservedJoinNames = ["order"] := by decide +kernel
  exact ⟨hparse, hnames, (problems_of_parse hparse).2 "order" (by simp [hnames])⟩

/-- The readers take a reserved word that the checks reject: sound references are not the
only thing that a query may lack when it has been read. -/
theorem parse_accepts_reserved_join_name :
    parse "SELECT * FROM t JOIN u ON t.order = u.id" = .ok reservedJoin ∧
      .invalidIdentifier .join "order" ∈ reservedJoin.problems ∧
      (Problem.invalidIdentifier .join "order").isReference = false :=
  ⟨by decide +kernel, by decide +kernel, rfl⟩

end Query

end SelectForm

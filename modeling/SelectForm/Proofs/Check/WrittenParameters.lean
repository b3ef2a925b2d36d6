import Mathlib
import SelectForm.Proofs.Check.ParsedParameters
import SelectForm.Proofs.Sql.WrittenLiterals
import SelectForm.Proofs.Statement.RoundTrip
import SelectForm.Service.Exchange

/-!
# The parameters of a written statement

A condition has a place for every kind of operand, and its operator writes only some of
them.  The statement holds the parameters in the places that are written, while the types
are told for the parameters in all places.  The two agree as soon as no parameter is left
in a place that its operator does not write.
-/

namespace SelectForm

namespace Condition

/-- The operands that the operator of a condition does not write. -/
def unwrittenOperands (condition : Condition) : List Operand :=
  match condition.operator with
  | .between => condition.value.toList ++ condition.values
  | .inList => condition.value.toList ++ condition.minValue.toList ++ condition.maxValue.toList
  | .isNull | .isNotNull => condition.operands
  | _ => condition.values ++ condition.minValue.toList ++ condition.maxValue.toList

theorem mem_operands_iff (condition : Condition) (operand : Operand) :
    operand ∈ condition.operands ↔
      operand ∈ condition.writtenOperands ∨ operand ∈ condition.unwrittenOperands := by
  rw [operands, writtenOperands, unwrittenOperands]
  cases condition.operator <;> simp [operands] <;> tauto

theorem operands_canonical (condition : Condition) :
    condition.canonical.operands = condition.writtenOperands := by
  rw [canonical, operands, writtenOperands]
  cases condition.operator <;> simp

theorem flatMap_operands_canonicalChain {β : Type} (conditions : List Condition)
    (pick : Operand → List β) :
    ((canonicalChain conditions).flatMap fun condition => condition.operands.flatMap pick) =
      conditions.flatMap fun condition => condition.writtenOperands.flatMap pick := by
  cases conditions with
  | nil => rfl
  | cons first others =>
      have hfirst : ({ first.canonical with connector := .and } : Condition).operands =
          first.writtenOperands := operands_canonical first
      rw [canonicalChain, List.flatMap_cons, List.flatMap_cons, List.flatMap_map, hfirst]
      simp only [operands_canonical]

/-- The places that are written come in the order of all places. -/
theorem filterMap_operands_eq_writtenOperands {β : Type} {condition : Condition}
    {pick : Operand → Option β}
    (hnone : ∀ operand ∈ condition.unwrittenOperands, pick operand = none) :
    condition.operands.filterMap pick = condition.writtenOperands.filterMap pick := by
  have hempty : ∀ places : List Operand, places ⊆ condition.unwrittenOperands →
      places.filterMap pick = [] := fun places hplaces =>
    List.filterMap_eq_nil_iff.mpr fun operand hmem => hnone operand (hplaces hmem)
  rw [unwrittenOperands] at hempty
  rw [operands, writtenOperands]
  cases hoperator : condition.operator with
  | between =>
      have hrest := hempty (condition.value.toList ++ condition.values) (by simp [hoperator])
      rw [List.append_assoc, List.filterMap_append, hrest, List.nil_append]
  | inList =>
      have hvalue := hempty condition.value.toList (by simp [hoperator])
      have hmin := hempty condition.minValue.toList (by simp [hoperator])
      have hmax := hempty condition.maxValue.toList (by simp [hoperator])
      simp [List.filterMap_append, hvalue, hmin, hmax]
  | isNull | isNotNull =>
      exact hempty _ (by simp [hoperator, operands])
  | _ =>
      have hvalues := hempty condition.values (by simp [hoperator])
      have hmin := hempty condition.minValue.toList (by simp [hoperator])
      have hmax := hempty condition.maxValue.toList (by simp [hoperator])
      simp [List.filterMap_append, hvalues, hmin, hmax]

end Condition

namespace Query

/-- The parameters that the conditions of a query write, one by one. -/
def writtenParameters (query : Query) : List String :=
  query.conditions.flatMap fun condition =>
    condition.writtenOperands.filterMap Operand.parameterName?

/-- The parameters in places that no operator writes. -/
def unwrittenParameters (query : Query) : List String :=
  query.conditions.flatMap fun condition =>
    condition.unwrittenOperands.filterMap Operand.parameterName?

theorem mem_carried_iff (query : Query) (name : String) :
    (name ∈ query.conditions.flatMap fun condition =>
        condition.operands.filterMap Operand.parameterName?) ↔
      name ∈ query.writtenParameters ∨ name ∈ query.unwrittenParameters := by
  simp only [writtenParameters, unwrittenParameters, List.mem_flatMap, List.mem_filterMap,
    Condition.mem_operands_iff, or_and_right, exists_or, and_or_left]

theorem flatMap_conditions_canonical {β : Type} (pick : Operand → Option β) (query : Query) :
    (query.canonical.conditions.flatMap fun condition => condition.operands.filterMap pick) =
      query.conditions.flatMap fun condition => condition.writtenOperands.filterMap pick := by
  simp only [conditions, canonical, List.filterMap_eq_flatMap_toList, List.flatMap_append,
    Condition.flatMap_operands_canonicalChain]

/-- The scan of a written statement finds the parameters that its conditions write. -/
theorem parameterNames_render {query : Query} (layout : Layout) (hwritten : query.IsWritten) :
    Text.parameterNames (query.render layout).toList = query.writtenParameters.eraseDups := by
  have hread : parse (query.render layout) = .ok query.canonical :=
    parse_render_of_isWritten hwritten
  rw [Text.parameterNames, filterMap_template hread, flatMap_conditions_canonical, writtenParameters]

theorem map_fst_parameterTypes (query : Query) :
    query.parameterTypes.map Prod.fst =
      (query.conditions.flatMap fun condition =>
        condition.operands.filterMap Operand.parameterName?).eraseDups := by
  have hkeys := @ParameterType.map_fst_foldl_record query.parameterUses [] [] rfl
  rw [parameterTypes, hkeys, List.nil_append, map_fst_parameterUses]

/-- A query that passed the checks becomes a statement under every layout, and the
parameters of that statement are those in the places that are written, in the order of
their first places.  Types are told for them and for the parameters in the other places;
without any of these, the names with their types are the parameters of the statement, in
the same order. -/
theorem parameters_of_report (layout : Layout) (query : Query) (hnone : query.problems = []) :
    ∃ sql, (query.report layout).sql = some sql ∧
      Text.parameterNames sql.toList = query.writtenParameters.eraseDups ∧
      (∀ name, name ∈ (query.report layout).parameterTypes.map Prod.fst ↔
        name ∈ Text.parameterNames sql.toList ∨ name ∈ query.unwrittenParameters) ∧
      (query.unwrittenParameters = [] →
        (query.report layout).parameterTypes.map Prod.fst = Text.parameterNames sql.toList) := by
  have hnames := parameterNames_render layout (isWritten_of_problems_eq_nil hnone)
  have hkeys : (query.report layout).parameterTypes.map Prod.fst =
      (query.conditions.flatMap fun condition =>
        condition.operands.filterMap Operand.parameterName?).eraseDups :=
    map_fst_parameterTypes query
  refine ⟨query.render layout, ?_, hnames, fun name => ?_, fun hempty => ?_⟩
  · simp [report, isValid, hnone]
  · rw [hkeys, hnames, List.mem_eraseDups, List.mem_eraseDups, mem_carried_iff]
  · rw [hkeys, hnames, writtenParameters]
    congr 1
    refine List.flatMap_congr fun condition hmem => ?_
    apply Condition.filterMap_operands_eq_writtenOperands
    exact List.filterMap_eq_nil_iff.mp (List.flatMap_eq_nil_iff.mp hempty condition hmem)

/-- A condition with a list of operands that an earlier operator has left behind. -/
def leftoverOperands : Query where
  columns := [.wildcard]
  tables := [{ tableName := "t" }]
  filters := [{
    term := { column := "a" }
    operator := .equal
    value := some (.literal (.number "1"))
    values := [.parameter "p"] }]

/-- Types are told for parameters that the statement does not hold. -/
theorem report_tells_unwritten_parameters :
    leftoverOperands.problems = [] ∧
      (leftoverOperands.report .compact).sql = some "SELECT * FROM t WHERE a = 1" ∧
      (leftoverOperands.report .compact).parameterTypes.map Prod.fst = ["p"] ∧
      Text.parameterNames "SELECT * FROM t WHERE a = 1".toList = [] := by
  refine ⟨?_, ?_, ?_, ?_⟩ <;> decide +kernel

/-- Bounds and a list, and in the second query an operand that is left behind. -/
theorem parameters_of_report_mixed :
    let range : Condition :=
      { term := { column := "a" }
        operator := .between
        minValue := some (.parameter "x")
        maxValue := some (.parameter "y") }
    let member : Condition :=
      { term := { column := "b" }
        operator := .inList
        values := [.parameter "y", .parameter "z"]
        connector := .or }
    let query : Query :=
      { columns := [.wildcard], tables := [{ tableName := "t" }], filters := [range, member] }
    let leftover : Query :=
      { query with filters := [range, { member with value := some (.parameter "w") }] }
    (∃ sql, (query.report .pretty).sql = some sql ∧
      Text.parameterNames sql.toList = ["x", "y", "z"] ∧
      (query.report .pretty).parameterTypes.map Prod.fst = ["x", "y", "z"]) ∧
    ∃ sql, (leftover.report .pretty).sql = some sql ∧
      Text.parameterNames sql.toList = ["x", "y", "z"] ∧
      "w" ∈ (leftover.report .pretty).parameterTypes.map Prod.fst := by
  intro range member query leftover
  constructor
  · have hnone : query.problems = [] := by decide +kernel
    have hunwritten : query.unwrittenParameters = [] := by decide +kernel
    have hwritten : query.writtenParameters.eraseDups = ["x", "y", "z"] := by decide +kernel
    obtain ⟨sql, hsql, hnames, -, hkeys⟩ := parameters_of_report .pretty query hnone
    rw [hwritten] at hnames
    exact ⟨sql, hsql, hnames, (hkeys hunwritten).trans hnames⟩
  · have hnone : leftover.problems = [] := by decide +kernel
    have hunwritten : "w" ∈ leftover.unwrittenParameters := by decide +kernel
    have hwritten : leftover.writtenParameters.eraseDups = ["x", "y", "z"] := by decide +kernel
    obtain ⟨sql, hsql, hnames, hkeys, -⟩ := parameters_of_report .pretty leftover hnone
    exact ⟨sql, hsql, hnames.trans hwritten, (hkeys "w").mpr (.inr hunwritten)⟩

end Query

end SelectForm

import Mathlib
import SelectForm.Check.Warning
import SelectForm.Proofs.Check.Distinct
import SelectForm.Proofs.Check.WellFormed
import SelectForm.Proofs.Text.Name

/-!
# Names of tables that have an alias

The checks and the warnings look at the same names and each have a rule of their own for what
a name refers to.  In a query without problems the two rules share the names between them: a
name is the reference of a table, or it is the name of a table with an alias, and then there
is a warning.

A table without an alias is the case that could fall between the rules.  Its reference is its
name without the schema, and a qualifier has no schema.
-/

namespace SelectForm

namespace Identifier

theorem ofTable_of_not_mem {tableName : String} (hdot : '.' ∉ tableName.toList) :
    ofTable tableName = tableName := by
  have hsplit : ∀ text : Text, '.' ∉ text → Text.splitOn '.' text = [text] := by
    intro text
    induction text with
    | nil => exact fun _ => rfl
    | cons c rest ih =>
        intro hmem
        rw [List.mem_cons, not_or] at hmem
        rw [Text.splitOn, ih hmem.2]
        exact if_neg fun heq => hmem.1 heq.symm
  simp [ofTable, parts, hsplit _ hdot]

/-- A table whose whole name is the same as an identifier has no schema. -/
theorem ofTable_of_same {tableName name : String} (hvalid : isValid name = true)
    (hsame : same tableName name = true) : ofTable tableName = tableName := by
  apply ofTable_of_not_mem
  intro hdot
  unfold same Text.sameLetters at hsame
  rw [beq_iff_eq] at hsame
  have hlower : '.' ∈ tableName.toList.map Char.toLower := List.mem_map.mpr ⟨'.', hdot, by decide⟩
  rw [hsame] at hlower
  obtain ⟨c, hmem, hc⟩ := List.mem_map.mp hlower
  have htail := (Text.forall_of_isName (isName_of_isValid hvalid)).2 c hmem
  cases hupper : c.isUpper with
  | true =>
      have hletter : c.toLower.isAlpha = true := by
        rw [Char.isAlpha_toLower_eq_isAlpha, Char.isAlpha, hupper, Bool.true_or]
      rw [hc] at hletter
      exact absurd hletter (by decide)
  | false =>
      rw [Char.toLower_eq_of_not_isUpper (by simp [hupper])] at hc
      subst hc
      exact absurd htail (by decide)

end Identifier

namespace TableItem

theorem reference_of_aliasName {table : TableItem} {aliasName : String}
    (halias : table.aliasName = some aliasName) : table.reference = aliasName := by
  rw [reference, halias, Option.getD_some]

/-- Without an alias, the name of a table would be its reference. -/
theorem isSome_aliasName_of_isNamed (table : TableItem) {name : String}
    (hvalid : Identifier.isValid name = true) (hnamed : table.declared.isNamed name = true)
    (hother : Identifier.same table.reference name = false) : table.aliasName.isSome = true := by
  by_contra hnone
  rw [Bool.not_eq_true, Option.isSome_eq_false_iff, Option.isNone_iff_eq_none] at hnone
  rw [reference, hnone, Option.getD_none] at hother
  rw [DeclaredTable.isNamed, Bool.or_eq_true] at hnamed
  rcases hnamed with hwhole | hlast
  · have hbare : Identifier.ofTable table.tableName = table.tableName :=
      Identifier.ofTable_of_same hvalid hwhole
    rw [hbare] at hother
    exact Bool.false_ne_true (hother.symm.trans hwhole)
  · exact Bool.false_ne_true (hother.symm.trans hlast)

end TableItem

/-! ## Uses of names -/

/-- A condition qualifies its column, or a column among its operands, by a name. -/
def Condition.Qualifies (condition : Condition) (name : String) : Prop :=
  condition.term.table = some name ∨
    ∃ column, Operand.column (some name) column ∈ condition.operands

namespace Query

/-- A clause qualifies a column by a name. -/
inductive Qualifies (query : Query) : Clause → String → Prop
  | select {item : SelectItem} {name : String} (hitem : item ∈ query.columns)
      (hname : item.term.table = some name) : Qualifies query .select name
  | joinLeft {join : Join} {condition : JoinCondition} (hjoin : join ∈ query.joins)
      (hcondition : condition ∈ join.conditions) : Qualifies query .join condition.leftTable
  | joinRight {join : Join} {condition : JoinCondition} (hjoin : join ∈ query.joins)
      (hcondition : condition ∈ join.conditions) : Qualifies query .join condition.rightTable
  | where_ {condition : Condition} {name : String} (hcondition : condition ∈ query.filters)
      (hname : condition.Qualifies name) : Qualifies query .where_ name
  | having {condition : Condition} {name : String} (hcondition : condition ∈ query.groupFilters)
      (hname : condition.Qualifies name) : Qualifies query .having name
  | groupBy {item : GroupItem} {name : String} (hitem : item ∈ query.groups)
      (hname : item.table = some name) : Qualifies query .groupBy name
  | orderBy {item : OrderItem} {name : String} (hitem : item ∈ query.orders)
      (hname : item.term.table = some name) : Qualifies query .orderBy name

variable {query : Query} {clause : Clause} {name aliasName : String}

theorem mem_condition_qualifiers {condition : Condition} :
    name ∈ condition.qualifiers ↔ condition.Qualifies name := by
  have hoperand : ∀ operand : Operand, operand.qualifier? = some name ↔
      ∃ column, operand = .column (some name) column := by
    rintro (_ | _ | ⟨table, column⟩) <;> simp [Operand.qualifier?]
  unfold Condition.qualifiers Condition.Qualifies
  rw [List.mem_append, Option.mem_toList, List.mem_filterMap]
  simp only [hoperand]
  refine or_congr_right ⟨?_, ?_⟩
  · rintro ⟨operand, hmem, column, rfl⟩
    exact ⟨column, hmem⟩
  · rintro ⟨column, hmem⟩
    exact ⟨_, hmem, column, rfl⟩

/-- The list of qualifiers holds the uses of names and nothing else. -/
theorem mem_qualifiers_iff_qualifies :
    (clause, name) ∈ query.qualifiers ↔ query.Qualifies clause name := by
  unfold qualifiers
  simp only [List.mem_append, List.mem_map, List.mem_flatMap, List.mem_filterMap,
    mem_condition_qualifiers, JoinCondition.qualifiers, Prod.mk.injEq]
  constructor
  · rintro (((((hselect | hjoin) | hwhere) | hhaving) | hgroup) | horder)
    · obtain ⟨_, ⟨item, hitem, hname⟩, rfl, rfl⟩ := hselect
      exact .select hitem hname
    · obtain ⟨_, ⟨join, hjoin, condition, hcondition, hname⟩, rfl, rfl⟩ := hjoin
      rcases List.mem_pair.mp hname with rfl | rfl
      · exact .joinLeft hjoin hcondition
      · exact .joinRight hjoin hcondition
    · obtain ⟨_, ⟨condition, hcondition, hname⟩, rfl, rfl⟩ := hwhere
      exact .where_ hcondition hname
    · obtain ⟨_, ⟨condition, hcondition, hname⟩, rfl, rfl⟩ := hhaving
      exact .having hcondition hname
    · obtain ⟨_, ⟨item, hitem, hname⟩, rfl, rfl⟩ := hgroup
      exact .groupBy hitem hname
    · obtain ⟨_, ⟨item, hitem, hname⟩, rfl, rfl⟩ := horder
      exact .orderBy hitem hname
  · intro huse
    cases huse with
    | select hitem hname => simp; exact ⟨_, hitem, hname⟩
    | joinLeft hjoin hcondition => simp; exact ⟨_, hjoin, _, hcondition, .inl rfl⟩
    | joinRight hjoin hcondition => simp; exact ⟨_, hjoin, _, hcondition, .inr rfl⟩
    | where_ hcondition hname => simp; exact ⟨_, hcondition, hname⟩
    | having hcondition hname => simp; exact ⟨_, hcondition, hname⟩
    | groupBy hitem hname => simp; exact ⟨_, hitem, hname⟩
    | orderBy hitem hname => simp; exact ⟨_, hitem, hname⟩

/-- A name is the reference of a declared table. -/
def IsReference (query : Query) (name : String) : Prop :=
  ∃ table ∈ query.tableItems, Identifier.same table.reference name = true

/-- The first table that has an alias and a given name, with or without its schema. -/
def firstAliased? (query : Query) (name : String) : Option TableItem :=
  query.tableItems.find? fun table => table.aliasName.isSome &&
    (Identifier.same table.tableName name ||
      Identifier.same (Identifier.ofTable table.tableName) name)

/-! ## The two rules -/

theorem aliasedTable?_of_isReference (hreference : query.IsReference name) :
    aliasedTable? query.declaredTables name = none := by
  obtain ⟨table, hmem, hsame⟩ := hreference
  have hany : (query.declaredTables.any fun table => Identifier.same table.reference name) = true :=
    List.any_eq_true.mpr ⟨table.declared, List.mem_map_of_mem hmem, hsame⟩
  rw [aliasedTable?, if_pos hany]

theorem aliasedTable?_of_not_isReference (hother : ¬ query.IsReference name) :
    aliasedTable? query.declaredTables name =
      (query.firstAliased? name).map TableItem.declared := by
  have hany : (query.declaredTables.any fun table =>
      Identifier.same table.reference name) = false := by
    rw [List.any_eq_false]
    intro declared hmem hsame
    obtain ⟨table, htable, rfl⟩ := List.mem_map.mp hmem
    exact hother ⟨table, htable, hsame⟩
  rw [aliasedTable?, if_neg (by simp [hany]), declaredTables, List.find?_map]
  rfl

theorem exists_aliasName_of_firstAliased? {table : TableItem}
    (hfirst : query.firstAliased? name = some table) :
    ∃ aliasName, table.aliasName = some aliasName := by
  have htest := List.find?_some hfirst
  rw [Bool.and_eq_true] at htest
  exact Option.isSome_iff_exists.mp htest.1

/-- There is a warning exactly for the uses of a name that is no reference, but the name of a
table with an alias. -/
theorem mem_aliasWarnings_iff :
    Warning.tableNameWithAlias clause name aliasName ∈ query.aliasWarnings ↔
      query.Qualifies clause name ∧ ¬ query.IsReference name ∧
        ∃ table, query.firstAliased? name = some table ∧ table.aliasName = some aliasName := by
  rw [aliasWarnings, List.mem_eraseDups, List.mem_filterMap]
  constructor
  · rintro ⟨⟨useClause, useName⟩, hmem, hwarning⟩
    obtain ⟨declared, hfound, heq⟩ := Option.map_eq_some_iff.mp hwarning
    obtain ⟨rfl, rfl, rfl⟩ := Warning.tableNameWithAlias.inj heq
    have hother : ¬ query.IsReference useName := by
      intro hreference
      rw [aliasedTable?_of_isReference hreference] at hfound
      exact absurd hfound (by simp)
    rw [aliasedTable?_of_not_isReference hother] at hfound
    obtain ⟨table, hfirst, rfl⟩ := Option.map_eq_some_iff.mp hfound
    obtain ⟨aliasName, halias⟩ := exists_aliasName_of_firstAliased? hfirst
    refine ⟨mem_qualifiers_iff_qualifies.mp hmem, hother, table, hfirst, ?_⟩
    rw [halias]
    exact congrArg some (TableItem.reference_of_aliasName halias).symm
  · rintro ⟨huse, hother, table, hfirst, halias⟩
    refine ⟨(clause, name), mem_qualifiers_iff_qualifies.mpr huse, ?_⟩
    dsimp only
    rw [aliasedTable?_of_not_isReference hother, hfirst]
    exact congrArg (some ∘ Warning.tableNameWithAlias clause name)
      (TableItem.reference_of_aliasName halias)

/-- The other warnings are of other kinds. -/
theorem count_warnings (clause : Clause) (name aliasName : String) :
    query.warnings.count (.tableNameWithAlias clause name aliasName) =
      query.aliasWarnings.count (.tableNameWithAlias clause name aliasName) := by
  have hgroup : Warning.tableNameWithAlias clause name aliasName ∉ query.groupWarnings := by
    unfold groupWarnings
    split <;> simp
  have hlike : Warning.tableNameWithAlias clause name aliasName ∉ query.likeWarnings := by
    unfold likeWarnings
    rw [List.mem_filterMap]
    rintro ⟨condition, -, hwarning⟩
    split at hwarning
    · split at hwarning <;> simp at hwarning
    · simp at hwarning
  rw [warnings, List.count_append, List.count_append, List.count_append, List.count_append,
    List.count_eq_zero_of_not_mem hgroup, List.count_eq_zero_of_not_mem hlike]
  split <;> split <;> simp

theorem mem_warnings_iff :
    Warning.tableNameWithAlias clause name aliasName ∈ query.warnings ↔
      Warning.tableNameWithAlias clause name aliasName ∈ query.aliasWarnings := by
  rw [← List.count_pos_iff, count_warnings, List.count_pos_iff]

/-- A declared name that is no reference is the name of a table with an alias. -/
theorem exists_firstAliased? (hvalid : Identifier.isValid name = true)
    (hdeclares : query.Declares name) (hother : ¬ query.IsReference name) :
    ∃ table aliasName, query.firstAliased? name = some table ∧
      table.aliasName = some aliasName := by
  obtain ⟨declared, hmem, hname⟩ := hdeclares
  obtain ⟨table, htable, rfl⟩ := List.mem_map.mp hmem
  have hreference : Identifier.same table.reference name = false := by
    by_contra hsame
    exact hother ⟨table, htable, Bool.of_not_eq_false hsame⟩
  have hnamed : table.declared.isNamed name = true :=
    hname.resolve_left (by simpa [TableItem.declared] using hreference)
  have hfound : (query.firstAliased? name).isSome = true := by
    rw [firstAliased?, List.find?_isSome]
    refine ⟨table, htable, ?_⟩
    rw [Bool.and_eq_true]
    exact ⟨table.isSome_aliasName_of_isNamed hvalid hnamed hreference, hnamed⟩
  obtain ⟨first, hfirst⟩ := Option.isSome_iff_exists.mp hfound
  obtain ⟨aliasName, halias⟩ := exists_aliasName_of_firstAliased? hfirst
  exact ⟨first, aliasName, hfirst, halias⟩

/-- In a query without problems every use of a name is either one of a reference, or there is
a warning that tells the alias of the first table with that name.  There are no other
warnings of this kind, and none is repeated. -/
theorem references_or_aliasWarnings (hnone : query.problems = []) :
    (∀ clause name, query.Qualifies clause name →
      Xor (query.IsReference name)
        (∃ table aliasName, query.firstAliased? name = some table ∧
          table.aliasName = some aliasName ∧
          Warning.tableNameWithAlias clause name aliasName ∈ query.warnings)) ∧
    (∀ clause name aliasName,
      Warning.tableNameWithAlias clause name aliasName ∈ query.warnings →
        query.Qualifies clause name ∧ ¬ query.IsReference name ∧
          ∃ table, query.firstAliased? name = some table ∧ table.aliasName = some aliasName) ∧
    ∀ clause name aliasName,
      query.warnings.count (Warning.tableNameWithAlias clause name aliasName) ≤ 1 := by
  have hwell := wellFormed_of_problems_eq_nil hnone
  refine ⟨fun clause name huse => ?_, fun clause name aliasName hwarning => ?_,
    fun clause name aliasName => ?_⟩
  · by_cases hreference : query.IsReference name
    · refine .inl ⟨hreference, ?_⟩
      rintro ⟨table, aliasName, -, -, hwarning⟩
      exact (mem_aliasWarnings_iff.mp (mem_warnings_iff.mp hwarning)).2.1 hreference
    · obtain ⟨hvalid, hdeclares⟩ := hwell.qualifiers _ _ (mem_qualifiers_iff_qualifies.mpr huse)
      obtain ⟨table, aliasName, hfirst, halias⟩ := exists_firstAliased? hvalid hdeclares hreference
      have hwarning := mem_aliasWarnings_iff.mpr ⟨huse, hreference, table, hfirst, halias⟩
      exact .inr ⟨⟨table, aliasName, hfirst, halias, mem_warnings_iff.mpr hwarning⟩, hreference⟩
  · exact mem_aliasWarnings_iff.mp (mem_warnings_iff.mp hwarning)
  · rw [count_warnings]
    exact List.nodup_iff_count_le_one.mp (nodup_eraseDups _) _

/-- A self join of a table with a schema, whose name is used in capitals beside its alias, and
a table without an alias. -/
theorem references_or_aliasWarnings_self_join :
    let query : Query :=
      { columns := [{ term := { table := some "USERS", column := "id" } },
          { term := { table := some "Orders", column := "total" } }]
        tables := [{ tableName := "orders" }, { tableName := "app.users", aliasName := some "u" }]
        joins := [{
          table := { tableName := "users", aliasName := some "boss" }
          conditions := [{
            leftTable := "users", leftColumn := "boss_id"
            rightTable := "boss", rightColumn := "id" }] }] }
    query.problems = [] ∧ query.Qualifies .select "USERS" ∧ ¬ query.IsReference "USERS" ∧
      Warning.tableNameWithAlias .select "USERS" "u" ∈ query.warnings ∧
      query.Qualifies .select "Orders" ∧ query.IsReference "Orders" ∧
      ∀ aliasName, Warning.tableNameWithAlias .select "Orders" aliasName ∉ query.warnings := by
  intro query
  have hnone : query.problems = [] := by decide +kernel
  obtain ⟨hpartition, hsource, -⟩ := references_or_aliasWarnings hnone
  have husers : query.Qualifies .select "USERS" := .select List.mem_cons_self rfl
  have horders : query.Qualifies .select "Orders" :=
    .select (List.mem_cons_of_mem _ List.mem_cons_self) rfl
  have hreference : query.IsReference "Orders" :=
    ⟨{ tableName := "orders" }, by decide +kernel, by decide +kernel⟩
  have hother : ¬ query.IsReference "USERS" := by
    unfold IsReference
    decide +kernel
  have hwarning := (hpartition _ _ husers).or.resolve_left hother
  obtain ⟨table, aliasName, hfirst, halias, hmem⟩ := hwarning
  have htable : query.firstAliased? "USERS" =
      some { tableName := "app.users", aliasName := some "u" } := by decide +kernel
  rw [htable, Option.some.injEq] at hfirst
  subst hfirst
  obtain rfl := Option.some.inj halias
  exact ⟨hnone, husers, hother, hmem, horders, hreference, fun aliasName hmem =>
    (hsource _ _ _ hmem).2.1 hreference⟩

end Query

end SelectForm

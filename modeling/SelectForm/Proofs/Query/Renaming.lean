import Mathlib
import SelectForm.Query.Rename
import SelectForm.Check.ParameterType
import SelectForm.Proofs.Check.WellFormed

/-!
# Renaming keeps what a query means

A qualifier refers to the table whose reference it is, or else to the first table
with that name.  A rename moves a reference, so it could let a qualifier refer to
another table in two ways: the new alias could take over qualifiers that were spelled
like it before, and the old reference could fall back to a table of that name.

The first cannot happen because no other table answers to the new alias, and the
second because every qualifier that is the old reference is rewritten.  What is left
is a comparison of two searches in lists that differ in one table.
-/

namespace SelectForm

/-! ## Names up to case -/

namespace Identifier

theorem same_comm (left right : String) : same left right = same right left := by
  unfold same Text.sameLetters
  rw [Bool.eq_iff_iff, beq_iff_eq, beq_iff_eq]
  exact eq_comm

theorem same_congr_left {left right : String} (hsame : same left right = true)
    (other : String) : same left other = same right other := by
  unfold same Text.sameLetters at hsame ⊢
  rw [beq_iff_eq] at hsame
  rw [hsame]

theorem same_congr_right {left right : String} (hsame : same left right = true)
    (other : String) : same other left = same other right := by
  rw [same_comm other left, same_comm other right]
  exact same_congr_left hsame other

end Identifier

/-! ## Lists with one changed entry -/

/-- A list in which one entry was changed looks the same to a function that does not
see the change. -/
theorem map_modify_of_eq {α β : Type} {view : α → β} {change : α → α}
    (hview : ∀ entry, view (change entry) = view entry) (position : Nat) (entries : List α) :
    (entries.modify position change).map view = entries.map view := by
  induction entries generalizing position with
  | nil => cases position <;> rfl
  | cons entry entries ih =>
      cases position with
      | zero => simp [hview]
      | succ position => simp [ih]

theorem modify_append {α : Type} {change : α → α} (position : Nat) (first second : List α) :
    (first ++ second).modify position change =
      first.modify position change ++
        (if position < first.length then second
          else second.modify (position - first.length) change) := by
  induction first generalizing position with
  | nil => simp
  | cons entry first ih =>
      cases position with
      | zero => simp
      | succ position => simp [ih]

/-! ## New qualifiers -/

namespace Operand

theorem term?_mapQualifier (rename : String → String) (operand : Operand) :
    (operand.mapQualifier rename).term? =
      operand.term?.map (ColumnTerm.mapQualifier rename) := by
  cases operand <;> rfl

end Operand

/-- A star stands where it stood: a rename gives no column a qualifier and takes none. -/
theorem ColumnTerm.IsWildcardIn.mapQualifier {clause : Clause} {term : ColumnTerm}
    (rename : String → String) (hstar : term.IsWildcardIn clause) :
    (term.mapQualifier rename).IsWildcardIn clause := by
  obtain ⟨hcolumn, hplace⟩ := hstar
  refine ⟨hcolumn, hplace.imp id ?_⟩
  rintro ⟨haggregate, hnone, hdistinct⟩
  exact ⟨haggregate, congrArg (Option.map rename) hnone, hdistinct⟩

namespace Condition

theorem operands_mapQualifiers (rename : String → String) (condition : Condition) :
    (condition.mapQualifiers rename).operands =
      condition.operands.map (Operand.mapQualifier rename) := by
  obtain ⟨term, operator, value, values, minValue, maxValue, negated, connector⟩ := condition
  cases value <;> cases minValue <;> cases maxValue <;>
    simp [operands, mapQualifiers]

theorem terms_mapQualifiers (rename : String → String) (condition : Condition) :
    (condition.mapQualifiers rename).terms =
      condition.terms.map (ColumnTerm.mapQualifier rename) := by
  unfold terms
  rw [operands_mapQualifiers, List.map_cons, List.map_filterMap, List.filterMap_map]
  simp only [Function.comp_def, Operand.term?_mapQualifier]
  rfl

end Condition

/-! ## The table behind a qualifier -/

namespace TableItem

/-- The table with another alias. -/
def withAlias (aliasName : String) (table : TableItem) : TableItem :=
  { table with aliasName := some aliasName }

/-- The position of the table to which a name refers: the one whose reference it is,
or else the first one with that name. -/
def position? (tables : List TableItem) (name : String) : Option Nat :=
  (tables.findIdx? (isReferredToBy name)).or
    (tables.findIdx? fun table => table.declared.isNamed name)

variable {before after : List TableItem} {table : TableItem} {old new name : String}

theorem isReferredToBy_withAlias (name aliasName : String) (table : TableItem) :
    (table.withAlias aliasName).isReferredToBy name = Identifier.same aliasName name := rfl

theorem answersTo_eq (name : String) (table : TableItem) :
    table.answersTo name = (table.isReferredToBy name || table.declared.isNamed name) := by
  unfold answersTo isReferredToBy DeclaredTable.isNamed
  rw [Bool.or_assoc]
  rfl

theorem answersTo_congr (hsame : Identifier.same old name = true) (table : TableItem) :
    table.answersTo old = table.answersTo name := by
  unfold answersTo
  simp only [Identifier.same_congr_right hsame]

/-- No other table is referred to by the reference of a declared table. -/
theorem forall_isReferredToBy_eq_false
    (hfree : (before ++ table :: after).Pairwise fun first second =>
      Identifier.same first.reference second.reference = false)
    (hold : table.isReferredToBy old = true) :
    ∀ other ∈ before ++ after, other.isReferredToBy old = false := by
  intro other hmem
  have hreference : ∀ left, Identifier.same left old = Identifier.same left table.reference :=
    fun left => (Identifier.same_congr_right hold left).symm
  unfold isReferredToBy
  rw [hreference]
  rw [List.pairwise_append, List.pairwise_cons] at hfree
  rcases List.mem_append.mp hmem with hmem | hmem
  · exact hfree.2.2 other hmem table List.mem_cons_self
  · rw [Identifier.same_comm]
    exact hfree.2.1.1 other hmem

/-- A search that only the table in the middle can end. -/
theorem findIdx?_middle {test : TableItem → Bool}
    (hothers : ∀ other ∈ before ++ after, test other = false) :
    (before ++ table :: after).findIdx? test =
      if test table then some before.length else none := by
  rw [List.forall_mem_append] at hothers
  have hbefore : before.findIdx? test = none := List.findIdx?_eq_none_iff.mpr hothers.1
  have hafter : after.findIdx? test = none := List.findIdx?_eq_none_iff.mpr hothers.2
  rw [List.findIdx?_append, List.findIdx?_cons, hbefore, hafter]
  cases test table <;> simp

/-- Two lists that differ in one table are searched alike if the search does not tell
the two tables apart. -/
theorem findIdx?_congr_middle {other : TableItem} {test : TableItem → Bool}
    (htest : test table = test other) :
    (before ++ table :: after).findIdx? test = (before ++ other :: after).findIdx? test := by
  simp only [List.findIdx?_append, List.findIdx?_cons, htest]

/-- The old reference refers to the renamed table, and the new one does so afterwards. -/
theorem position?_renamed
    (hfree : (before ++ table :: after).Pairwise fun first second =>
      Identifier.same first.reference second.reference = false)
    (hold : table.isReferredToBy old = true)
    (hnew : ∀ other ∈ before ++ after, other.answersTo new = false)
    (hsame : Identifier.same name old = true) :
    position? (before ++ table :: after) name = some before.length ∧
      position? (before ++ table.withAlias new :: after) new = some before.length := by
  have hname : table.isReferredToBy name = true := by
    unfold isReferredToBy at hold ⊢
    rwa [Identifier.same_congr_right hsame]
  have hothers : ∀ other ∈ before ++ after, other.isReferredToBy new = false := by
    intro other hmem
    have hanswer := hnew other hmem
    rw [answersTo_eq, Bool.or_eq_false_iff] at hanswer
    exact hanswer.1
  have hself : (table.withAlias new).isReferredToBy new = true := by
    rw [isReferredToBy_withAlias]
    simp [Identifier.same, Text.sameLetters]
  unfold position?
  rw [findIdx?_middle (forall_isReferredToBy_eq_false hfree hname), hname,
    findIdx?_middle hothers, hself]
  exact ⟨rfl, rfl⟩

/-- A qualifier that is not the old reference refers to the same table as before. -/
theorem position?_kept
    (hold : table.isReferredToBy old = true)
    (hnew : ∀ other ∈ before ++ after, other.answersTo new = false)
    (hother : Identifier.same name old = false)
    (hknown : (position? (before ++ table :: after) name).isSome = true) :
    position? (before ++ table.withAlias new :: after) name =
      position? (before ++ table :: after) name := by
  have htable : table.isReferredToBy name = false := by
    unfold isReferredToBy at hold ⊢
    rw [Identifier.same_congr_left hold, Identifier.same_comm]
    exact hother
  by_cases hsame : Identifier.same new name = true
  · -- Only the renamed table can answer to the name, by its own name before.
    have hothers : ∀ other ∈ before ++ after,
        other.isReferredToBy name = false ∧ other.declared.isNamed name = false := by
      intro other hmem
      have hanswer := hnew other hmem
      rwa [answersTo_congr hsame, answersTo_eq, Bool.or_eq_false_iff] at hanswer
    have hreference := fun other : TableItem => @findIdx?_middle before after other
      (isReferredToBy name) fun other hmem => (hothers other hmem).1
    have hname := fun other : TableItem => @findIdx?_middle before after other
      (fun table => table.declared.isNamed name) fun other hmem => (hothers other hmem).2
    unfold position? at hknown ⊢
    rw [hreference, hname, htable] at hknown
    rw [hreference, hreference, hname, hname, htable, isReferredToBy_withAlias, hsame]
    cases hnamed : table.declared.isNamed name with
    | false => simp [hnamed] at hknown
    | true => rfl
  · rw [Bool.not_eq_true] at hsame
    have hreferences : (table.withAlias new).isReferredToBy name = table.isReferredToBy name := by
      rw [isReferredToBy_withAlias, hsame, htable]
    have hnames : (table.withAlias new).declared.isNamed name = table.declared.isNamed name := rfl
    unfold position?
    rw [findIdx?_congr_middle hreferences,
      @findIdx?_congr_middle before after _ _ (fun other => other.declared.isNamed name) hnames]

end TableItem

namespace Query

/-- The position, among the tables of FROM and JOIN, of the table to which a qualifier
refers. -/
def resolve? (query : Query) (name : String) : Option Nat :=
  TableItem.position? query.tableItems name

theorem declares_iff_isSome_resolve? (query : Query) (name : String) :
    query.Declares name ↔ (query.resolve? name).isSome = true := by
  unfold Declares resolve? TableItem.position? declaredTables
  rw [Option.isSome_or, Bool.or_eq_true, List.findIdx?_isSome, List.findIdx?_isSome,
    List.any_eq_true, List.any_eq_true, ← exists_or]
  simp only [List.mem_map, ← and_or_left]
  constructor
  · rintro ⟨declared, ⟨table, hmem, rfl⟩, hname⟩
    exact ⟨table, hmem, hname⟩
  · rintro ⟨table, hmem, hname⟩
    exact ⟨table.declared, ⟨table, hmem, rfl⟩, hname⟩

/-! ## What a rename changes -/

theorem map_table_modify (aliasName : String) (position : Nat) (joins : List Join) :
    (joins.modify position fun join =>
        { join with table := { join.table with aliasName := some aliasName } }).map Join.table =
      (joins.map Join.table).modify position (TableItem.withAlias aliasName) := by
  induction joins generalizing position with
  | nil => cases position <;> rfl
  | cons join joins ih =>
      cases position with
      | zero => rfl
      | succ position => simp [ih]

variable {query renamed : Query} {old new : String}

theorem tableItems_setAlias (query : Query) (position : Nat) (aliasName : String) :
    (query.setAlias position aliasName).tableItems =
      query.tableItems.modify position (TableItem.withAlias aliasName) := by
  unfold tableItems setAlias
  rw [modify_append]
  split
  · rfl
  · rw [map_table_modify]
    rfl

theorem map_conditions_setAlias (query : Query) (position : Nat) (aliasName : String) :
    (query.setAlias position aliasName).joins.map Join.conditions =
      query.joins.map Join.conditions := by
  unfold setAlias
  split
  · rfl
  · exact @map_modify_of_eq _ _ Join.conditions
      (fun join => { join with table := { join.table with aliasName := some aliasName } })
      (fun _ => rfl) _ _

theorem columnUses_setAlias (query : Query) (position : Nat) (aliasName : String) :
    (query.setAlias position aliasName).columnUses = query.columnUses := by
  have hjoins := congrArg (List.flatMap fun conditions => conditions.flatMap JoinCondition.terms)
    (map_conditions_setAlias query position aliasName)
  rw [List.flatMap_map, List.flatMap_map] at hjoins
  unfold columnUses
  rw [hjoins]
  rfl

theorem tableItems_mapQualifiers (rename : String → String) (query : Query) :
    (query.mapQualifiers rename).tableItems = query.tableItems := by
  simp [tableItems, mapQualifiers, Function.comp_def]

/-- The columns of a query keep all but their tables. -/
theorem columnUses_mapQualifiers (rename : String → String) (query : Query) :
    (query.mapQualifiers rename).columnUses =
      query.columnUses.map fun use => (use.1, use.2.mapQualifier rename) := by
  have hgroup : ∀ item : GroupItem,
      GroupItem.term { item with table := item.table.map rename } =
        item.term.mapQualifier rename := fun _ => rfl
  have hjoin : ∀ condition : JoinCondition,
      (condition.mapQualifiers rename).terms =
        condition.terms.map (ColumnTerm.mapQualifier rename) := fun _ => rfl
  unfold columnUses mapQualifiers
  simp [List.flatMap_map, List.map_flatMap, Condition.terms_mapQualifiers, hgroup, hjoin,
    Function.comp_def]

theorem qualifiers_mapQualifiers (rename : String → String) (query : Query) :
    (query.mapQualifiers rename).qualifiers =
      query.qualifiers.map fun use => (use.1, rename use.2) := by
  rw [qualifiers_eq, qualifiers_eq, columnUses_mapQualifiers, List.filterMap_map,
    List.map_filterMap]
  congr 1
  funext use
  cases htable : use.2.table <;> simp [ColumnTerm.mapQualifier, htable]

theorem qualifiers_setAlias (query : Query) (position : Nat) (aliasName : String) :
    (query.setAlias position aliasName).qualifiers = query.qualifiers := by
  rw [qualifiers_eq, qualifiers_eq, columnUses_setAlias]

/-- The query without the aliases of its tables and the names of its qualifiers. -/
def withoutNames (query : Query) : Query :=
  let bare := query.mapQualifiers fun _ => ""
  { bare with
    tables := bare.tables.map fun table => { table with aliasName := none }
    joins := bare.joins.map fun join =>
      { join with table := { join.table with aliasName := none } } }

theorem withoutNames_mapQualifiers (rename : String → String) (query : Query) :
    (query.mapQualifiers rename).withoutNames = query.withoutNames := by
  have hoperand : ∀ operand : Operand,
      (operand.mapQualifier rename).mapQualifier (fun _ => "") =
        operand.mapQualifier fun _ => "" := by
    rintro (name | value | ⟨table, name⟩)
    · rfl
    · rfl
    · cases table <;> rfl
  unfold withoutNames mapQualifiers
  simp [Function.comp_def, Condition.mapQualifiers, ColumnTerm.mapQualifier,
    JoinCondition.mapQualifiers, hoperand]

theorem withoutNames_setAlias (query : Query) (position : Nat) (aliasName : String) :
    (query.setAlias position aliasName).withoutNames = query.withoutNames := by
  unfold withoutNames mapQualifiers setAlias
  simp only [List.map_map]
  congr 1
  · exact @map_modify_of_eq _ _ _ (TableItem.withAlias aliasName) (fun _ => rfl) _ _
  · split
    · rfl
    · exact @map_modify_of_eq Join Join _
        (fun join => { join with table := { join.table with aliasName := some aliasName } })
        (fun _ => rfl) _ _

/-! ## Parameters -/

theorem parameterTypes_mapQualifiers (rename : String → String) (query : Query) :
    (query.mapQualifiers rename).parameterTypes = query.parameterTypes := by
  have hname : ∀ operand : Operand,
      (operand.mapQualifier rename).parameterName? = operand.parameterName? := by
    rintro (name | value | ⟨table, name⟩) <;> rfl
  have hconditions : (query.mapQualifiers rename).conditions =
      query.conditions.map (Condition.mapQualifiers rename) := by
    simp [conditions, mapQualifiers]
  unfold parameterTypes parameterUses
  rw [hconditions, List.flatMap_map]
  simp only [Condition.operands_mapQualifiers, List.filterMap_map, Function.comp_def, hname]
  rfl

/-! ## The rename as a whole -/

/-- One query is another one in which the table at a position got an alias, and every
qualifier with the old name the new one. -/
structure IsRenaming (query renamed : Query) (old new : String) (position : Nat) : Prop where
  declared : (query.tableItems[position]?).any (TableItem.isReferredToBy old) = true
  tables : renamed.tableItems = query.tableItems.modify position (TableItem.withAlias new)
  qualifiers : renamed.qualifiers = query.qualifiers.map fun use =>
    (use.1, if Identifier.same use.2 old then new else use.2)
  others : renamed.withoutNames = query.withoutNames

/-- What a rename that succeeds has checked, and what it gives. -/
theorem rename_eq_ok {given wanted : String} (hrename : query.rename given wanted = .ok renamed) :
    let old := String.ofList (Text.trim given.toList)
    let new := String.ofList (Text.trim wanted.toList)
    Identifier.isValid new = true ∧
      ∃ before table after, query.tableItems = before ++ table :: after ∧
        table.isReferredToBy old = true ∧
        (∀ other ∈ before ++ after, other.answersTo new = false) ∧
        renamed = (query.setAlias before.length new).mapQualifiers fun name =>
          if Identifier.same name old then new else name := by
  intro old new
  change (if (!Identifier.isValid new) = true then _ else _) = _ at hrename
  split at hrename
  next => simp at hrename
  next hvalid =>
    rw [Bool.not_eq_true', Bool.not_eq_false] at hvalid
    refine ⟨hvalid, ?_⟩
    split at hrename
    next => simp at hrename
    next position hposition =>
      split at hrename
      next => simp at hrename
      next hconflict =>
        rw [Except.ok.injEq] at hrename
        unfold declaration? at hposition
        rw [List.findIdx?_eq_some_iff_getElem] at hposition
        obtain ⟨hlt, hreferred, -⟩ := hposition
        have hlength : (query.tableItems.take position).length = position :=
          List.length_take_of_le hlt.le
        refine ⟨query.tableItems.take position, query.tableItems[position],
          query.tableItems.drop (position + 1), ?_, hreferred, ?_, ?_⟩
        · rw [← List.drop_eq_getElem_cons hlt, List.take_append_drop]
        · unfold conflict? at hconflict
          rw [List.find?_eq_none, List.eraseIdx_eq_take_drop_succ] at hconflict
          intro other hmem
          have hanswer := hconflict other hmem
          rwa [Bool.not_eq_true] at hanswer
        · rw [hlength]
          exact hrename.symm

theorem modify_middle (before after : List TableItem) (table : TableItem) (aliasName : String) :
    (before ++ table :: after).modify before.length (TableItem.withAlias aliasName) =
      before ++ table.withAlias aliasName :: after := by
  have hbefore : before.modify before.length (TableItem.withAlias aliasName) = before := by
    rw [List.modify_eq_self (le_refl _)]
  rw [modify_append, if_neg (lt_irrefl _), Nat.sub_self, hbefore]
  rfl

theorem isRenaming_of_rename {given wanted : String}
    (hrename : query.rename given wanted = .ok renamed) :
    ∃ position, query.IsRenaming renamed (String.ofList (Text.trim given.toList))
      (String.ofList (Text.trim wanted.toList)) position := by
  obtain ⟨-, before, table, after, hitems, hold, -, rfl⟩ := rename_eq_ok hrename
  refine ⟨before.length, ?_, ?_, ?_, ?_⟩
  · rw [hitems, List.getElem?_append_right le_rfl, Nat.sub_self]
    exact hold
  · rw [tableItems_mapQualifiers, tableItems_setAlias]
  · rw [qualifiers_mapQualifiers, qualifiers_setAlias]
  · rw [withoutNames_mapQualifiers, withoutNames_setAlias]

/-- Every qualifier of a well-formed query refers to the same table after a rename. -/
theorem resolve?_renamed {given wanted name : String} (hwell : query.WellFormed)
    (hrename : query.rename given wanted = .ok renamed) (hname : query.Declares name) :
    renamed.resolve?
        (if Identifier.same name (String.ofList (Text.trim given.toList)) then
          String.ofList (Text.trim wanted.toList) else name) =
      query.resolve? name := by
  obtain ⟨-, before, table, after, hitems, hold, hnew, rfl⟩ := rename_eq_ok hrename
  have hfree := hwell.references
  unfold declaredTables at hfree
  rw [List.pairwise_map, hitems] at hfree
  rw [declares_iff_isSome_resolve?] at hname
  unfold resolve? at hname ⊢
  rw [tableItems_mapQualifiers, tableItems_setAlias]
  rw [hitems] at hname ⊢
  rw [modify_middle]
  split
  next hsame =>
    obtain ⟨hbefore, hafter⟩ := TableItem.position?_renamed hfree hold hnew hsame
    rw [hbefore, hafter]
  next hother =>
    rw [Bool.not_eq_true] at hother
    exact TableItem.position?_kept hold hnew hother hname

/-- The references of the tables stay different from one another. -/
theorem references_renamed {given wanted : String} (hwell : query.WellFormed)
    (hrename : query.rename given wanted = .ok renamed) :
    renamed.declaredTables.Pairwise fun first second =>
      Identifier.same first.reference second.reference = false := by
  obtain ⟨-, before, table, after, hitems, -, hnew, rfl⟩ := rename_eq_ok hrename
  generalize String.ofList (Text.trim wanted.toList) = new at hnew ⊢
  have hfree := hwell.references
  have hothers : ∀ other ∈ before ++ after,
      Identifier.same other.reference new = false := by
    intro other hmem
    have hanswer := hnew other hmem
    rw [TableItem.answersTo_eq, Bool.or_eq_false_iff] at hanswer
    exact hanswer.1
  unfold declaredTables at hfree ⊢
  rw [tableItems_mapQualifiers, tableItems_setAlias, hitems, modify_middle, List.pairwise_map]
  rw [List.pairwise_map, hitems, List.pairwise_append, List.pairwise_cons] at hfree
  rw [List.forall_mem_append] at hothers
  obtain ⟨hbefore, ⟨-, hafter⟩, hcross⟩ := hfree
  rw [List.pairwise_append, List.pairwise_cons]
  refine ⟨hbefore, ⟨fun other hmem => ?_, hafter⟩, fun first hfirst second hsecond => ?_⟩
  · rw [Identifier.same_comm]
    exact hothers.2 other hmem
  · rcases List.mem_cons.mp hsecond with rfl | hsecond
    · exact hothers.1 first hfirst
    · exact hcross first hfirst second (List.mem_cons_of_mem table hsecond)

theorem forall_condition_mapQualifiers {conditions : List Condition} (rename : String → String)
    (hconditions : ∀ condition ∈ conditions,
      condition.HasOperands ∧ ∀ operand ∈ condition.operands, operand.IsSpelled) :
    ∀ condition ∈ conditions.map (Condition.mapQualifiers rename),
      condition.HasOperands ∧ ∀ operand ∈ condition.operands, operand.IsSpelled := by
  intro condition hmem
  obtain ⟨source, hsource, rfl⟩ := List.mem_map.mp hmem
  obtain ⟨hslots, hspelled⟩ := hconditions source hsource
  constructor
  · obtain ⟨term, operator, value, values, minValue, maxValue, negated, connector⟩ := source
    cases operator <;> simp_all [Condition.HasOperands, Condition.mapQualifiers]
  · intro operand hoperand
    rw [Condition.operands_mapQualifiers, List.mem_map] at hoperand
    obtain ⟨original, horiginal, rfl⟩ := hoperand
    have horiginal := hspelled original horiginal
    cases original with
    | parameter name => exact horiginal
    | literal value => exact horiginal
    | column table name => trivial

theorem exists_join_of_mem {rename : String → String} {position : Nat} {aliasName : String}
    {join : Join}
    (hmem : join ∈ ((query.setAlias position aliasName).mapQualifiers rename).joins) :
    ∃ source ∈ query.joins,
      join.conditions = source.conditions.map (JoinCondition.mapQualifiers rename) := by
  obtain ⟨middle, hmiddle, rfl⟩ := List.mem_map.mp hmem
  have hconditions : middle.conditions ∈ query.joins.map Join.conditions := by
    rw [← map_conditions_setAlias query position aliasName]
    exact List.mem_map_of_mem hmiddle
  obtain ⟨source, hsource, heq⟩ := List.mem_map.mp hconditions
  exact ⟨source, hsource, by rw [heq]⟩

/-- A column use of the renamed query is one of the query, with another table. -/
theorem exists_columnUse_of_mem {rename : String → String} {position : Nat} {aliasName : String}
    {clause : Clause} {term : ColumnTerm}
    (hmem : (clause, term) ∈
      ((query.setAlias position aliasName).mapQualifiers rename).columnUses) :
    ∃ source, (clause, source) ∈ query.columnUses ∧ source.mapQualifier rename = term := by
  rw [columnUses_mapQualifiers, columnUses_setAlias, List.mem_map] at hmem
  obtain ⟨⟨_, source⟩, hsource, hpair⟩ := hmem
  obtain ⟨rfl, rfl⟩ := Prod.mk.inj hpair
  exact ⟨source, hsource, rfl⟩

theorem exists_qualifier_of_mem {rename : String → String} {position : Nat} {aliasName : String}
    {clause : Clause} {name : String}
    (hmem : (clause, name) ∈
      ((query.setAlias position aliasName).mapQualifiers rename).qualifiers) :
    ∃ source, (clause, source) ∈ query.qualifiers ∧ rename source = name := by
  rw [qualifiers_mapQualifiers, qualifiers_setAlias, List.mem_map] at hmem
  obtain ⟨⟨_, source⟩, hsource, hpair⟩ := hmem
  obtain ⟨rfl, rfl⟩ := Prod.mk.inj hpair
  exact ⟨source, hsource, rfl⟩

theorem mem_tableItems_of_mem {rename : String → String} {aliasName : String}
    {before after : List TableItem} {table item : TableItem}
    (hitems : query.tableItems = before ++ table :: after)
    (hmem : item ∈
      ((query.setAlias before.length aliasName).mapQualifiers rename).tableItems) :
    item ∈ query.tableItems ∨ item = table.withAlias aliasName := by
  rw [tableItems_mapQualifiers, tableItems_setAlias, hitems, modify_middle] at hmem
  rw [hitems]
  rcases List.mem_append.mp hmem with hmem | hmem
  · exact .inl (List.mem_append_left _ hmem)
  · rcases List.mem_cons.mp hmem with rfl | hmem
    · exact .inr rfl
    · exact .inl (List.mem_append_right _ (List.mem_cons_of_mem table hmem))

/-- A well-formed query stays well-formed under every rename. -/
theorem wellFormed_renamed {given wanted : String} (hwell : query.WellFormed)
    (hrename : query.rename given wanted = .ok renamed) : renamed.WellFormed := by
  have hreferences := references_renamed hwell hrename
  have hresolve := fun name => @resolve?_renamed query renamed given wanted name hwell hrename
  obtain ⟨hvalid, before, table, after, hitems, -, -, rfl⟩ := rename_eq_ok hrename
  generalize String.ofList (Text.trim given.toList) = old at *
  generalize String.ofList (Text.trim wanted.toList) = new at *
  generalize hnames : (fun name => if Identifier.same name old = true then new else name) = names
    at *
  have hmember : table ∈ query.tableItems := by
    rw [hitems]
    exact List.mem_append_right before List.mem_cons_self
  have hconditions := forall_condition_mapQualifiers names fun condition hmem =>
    ⟨hwell.slots condition hmem, hwell.spellings condition hmem⟩
  rw [List.map_append] at hconditions
  constructor
  case hasColumns => simpa [mapQualifiers, setAlias] using hwell.hasColumns
  case hasTables => simpa [mapQualifiers, setAlias] using hwell.hasTables
  case tableNames =>
    intro item hmem
    rcases mem_tableItems_of_mem hitems hmem with hmem | rfl
    · exact hwell.tableNames item hmem
    · exact hwell.tableNames table hmember
  case tableAliases =>
    intro item hmem aliasName halias
    rcases mem_tableItems_of_mem hitems hmem with hmem | rfl
    · exact hwell.tableAliases item hmem aliasName halias
    · obtain rfl : new = aliasName := Option.some.inj halias
      exact hvalid
  case references => exact hreferences
  case qualifiers =>
    intro clause name hmem
    obtain ⟨source, hsource, rfl⟩ := exists_qualifier_of_mem hmem
    obtain ⟨hsourceValid, hdeclares⟩ := hwell.qualifiers clause source hsource
    have hkept := hresolve source hdeclares
    rw [declares_iff_isSome_resolve?] at hdeclares ⊢
    subst hnames
    constructor
    · beta_reduce
      split
      · exact hvalid
      · exact hsourceValid
    · rw [hkept]
      exact hdeclares
  case columnNames =>
    intro clause term hmem
    obtain ⟨source, hsource, rfl⟩ := exists_columnUse_of_mem hmem
    exact (hwell.columnNames clause source hsource).imp id
      (ColumnTerm.IsWildcardIn.mapQualifier names)
  case distinctTerms =>
    intro clause term hmem
    obtain ⟨source, hsource, rfl⟩ := exists_columnUse_of_mem hmem
    exact hwell.distinctTerms clause source hsource
  case plainFilters =>
    intro condition hmem
    obtain ⟨source, hsource, rfl⟩ := List.mem_map.mp hmem
    exact hwell.plainFilters source hsource
  case plainGroups =>
    intro item hmem
    obtain ⟨source, hsource, rfl⟩ := List.mem_map.mp hmem
    exact hwell.plainGroups source hsource
  case selectAliases =>
    intro item hmem
    obtain ⟨source, hsource, rfl⟩ := List.mem_map.mp hmem
    exact hwell.selectAliases source hsource
  case joinConditions =>
    intro join hmem
    obtain ⟨source, hsource, heq⟩ := exists_join_of_mem hmem
    rw [heq, Ne, List.map_eq_nil_iff]
    exact hwell.joinConditions source hsource
  case joinOperators =>
    intro join hmem condition hcondition
    obtain ⟨source, hsource, heq⟩ := exists_join_of_mem hmem
    rw [heq, List.mem_map] at hcondition
    obtain ⟨original, horiginal, rfl⟩ := hcondition
    exact hwell.joinOperators source hsource original horiginal
  case slots => exact fun condition hmem => (hconditions condition hmem).1
  case spellings => exact fun condition hmem => (hconditions condition hmem).2

/-- A rename of a query without problems leaves no problem behind.  It changes one alias
and the qualifiers with the old name, every qualifier refers to the table to which it
referred before, and the parameters keep their types. -/
theorem rename_keeps_references {given wanted : String} (hnone : query.problems = [])
    (hrename : query.rename given wanted = .ok renamed) :
    renamed.problems = [] ∧
      (∃ position, query.IsRenaming renamed (String.ofList (Text.trim given.toList))
        (String.ofList (Text.trim wanted.toList)) position) ∧
      (∀ use ∈ query.qualifiers, (query.resolve? use.2).isSome = true) ∧
      renamed.qualifiers.map (fun use => (use.1, renamed.resolve? use.2)) =
        query.qualifiers.map (fun use => (use.1, query.resolve? use.2)) ∧
      renamed.parameterTypes = query.parameterTypes := by
  have hwell := wellFormed_of_problems_eq_nil hnone
  have hdeclares : ∀ use ∈ query.qualifiers, query.Declares use.2 := fun use hmem =>
    (hwell.qualifiers use.1 use.2 hmem).2
  refine ⟨problems_eq_nil_of_wellFormed (wellFormed_renamed hwell hrename),
    isRenaming_of_rename hrename, ?_, ?_, ?_⟩
  · intro use hmem
    exact (declares_iff_isSome_resolve? query use.2).mp (hdeclares use hmem)
  · obtain ⟨position, hrenaming⟩ := isRenaming_of_rename hrename
    rw [hrenaming.qualifiers, List.map_map]
    apply List.map_congr_left
    intro use hmem
    rw [Function.comp_apply, resolve?_renamed hwell hrename (hdeclares use hmem)]
  · obtain ⟨-, before, table, after, -, -, -, rfl⟩ := rename_eq_ok hrename
    rw [parameterTypes_mapQualifiers]
    rfl

/-- A self join in which the old reference, the new alias and the name of the table are
the same word in different cases. -/
theorem rename_keeps_references_self_join :
    let query : Query :=
      { columns := [{ term := { table := some "USERS", column := "id" } }]
        tables := [{ tableName := "app.users" }]
        joins := [{
          table := { tableName := "users", aliasName := some "boss" }
          conditions := [{
            leftTable := "users", leftColumn := "boss_id"
            rightTable := "Boss", rightColumn := "id" }] }]
        filters := [{
          term := { table := some "boss", column := "age" }
          operator := .greater
          value := some (.column (some "users") "age")
          minValue := some (.parameter "age") }] }
    ∃ renamed, query.problems = [] ∧ query.rename " Users" "staff " = .ok renamed ∧
      renamed.problems = [] ∧
      renamed.qualifiers.map (fun use => (use.1, renamed.resolve? use.2)) =
        [(.select, some 0), (.join, some 0), (.join, some 1), (.where_, some 1),
          (.where_, some 0)] := by
  intro query
  have hnone : query.problems = [] := by decide +kernel
  obtain ⟨renamed, hrename⟩ : ∃ renamed, query.rename " Users" "staff " = .ok renamed :=
    ⟨_, rfl⟩
  obtain ⟨hproblems, -, -, hresolve, -⟩ := rename_keeps_references hnone hrename
  exact ⟨renamed, hnone, hrename, hproblems, hresolve.trans (by decide +kernel)⟩

end Query

end SelectForm

import Mathlib
import SelectForm.Proofs.Query.Renaming

/-!
# The order of renames

A second rename sees qualifiers that a first one has rewritten.  It takes none of them for
its own: the first rename checked that no other table answers to its new alias, and so the
alias is not the old name of the second.  The tables are found at the same positions in both
orders for the same reason, and what is left are two changes at different places.
-/

namespace SelectForm

namespace Identifier

/-- A name as a rename reads it, without the blanks around it. -/
def trimmed (name : String) : String := String.ofList (Text.trim name.toList)

/-- What a name becomes when an old one is replaced by a new one. -/
def follow (old new name : String) : String := if same name old then new else name

/-- Two replacements do not see each other if neither new name is the other old one. -/
theorem follow_comm {old new otherOld otherNew : String} (hold : same old otherOld = false)
    (hnew : same new otherOld = false) (hother : same otherNew old = false) (name : String) :
    follow otherOld otherNew (follow old new name) =
      follow old new (follow otherOld otherNew name) := by
  unfold follow
  cases hsame : same name old with
  | true =>
      have hname : same name otherOld = false := (same_congr_left hsame otherOld).trans hold
      simp [hname, hnew, hsame]
  | false =>
      cases hname : same name otherOld with
      | true => simp [hname, hother]
      | false => simp [hname, hsame]

end Identifier

namespace Operand

theorem mapQualifier_mapQualifier (first second : String → String) (operand : Operand) :
    (operand.mapQualifier first).mapQualifier second = operand.mapQualifier (second ∘ first) := by
  cases operand with
  | parameter name => rfl
  | literal value => rfl
  | column table name => exact congrArg (column · name) (Option.map_map second first table)

end Operand

namespace Query

variable {query renamed : Query} {first second position : Nat} {name given wanted : String}

/-! ## Two changes -/

theorem mapQualifiers_mapQualifiers (first second : String → String) (query : Query) :
    (query.mapQualifiers first).mapQualifiers second = query.mapQualifiers (second ∘ first) := by
  simp [mapQualifiers, Condition.mapQualifiers, ColumnTerm.mapQualifier,
    JoinCondition.mapQualifiers, Operand.mapQualifier_mapQualifier, Function.comp_def]

/-- An alias may be given before or after the qualifiers are replaced. -/
theorem setAlias_mapQualifiers (rename : String → String) (position : Nat) (aliasName : String)
    (query : Query) :
    (query.mapQualifiers rename).setAlias position aliasName =
      (query.setAlias position aliasName).mapQualifiers rename := by
  unfold setAlias mapQualifiers
  dsimp only
  congr 1
  split
  · rfl
  · apply List.ext_getElem?
    intro index
    simp only [List.getElem?_map, List.getElem?_modify]
    cases query.joins[index]? with
    | none => rfl
    | some join => split <;> rfl

/-- Aliases of different tables may be given in any order. -/
theorem setAlias_comm (hne : first ≠ second) (aliasName other : String) (query : Query) :
    (query.setAlias first aliasName).setAlias second other =
      (query.setAlias second other).setAlias first aliasName := by
  unfold setAlias
  simp only [List.length_modify]
  congr 1
  · exact List.modify_modify_ne _ _ _ hne
  · by_cases hfirst : first < query.tables.length
    · simp only [hfirst, if_true]
    · by_cases hsecond : second < query.tables.length
      · simp only [hsecond, if_true]
      · simp only [hfirst, hsecond, if_false]
        exact List.modify_modify_ne _ _ _ (by omega)

/-! ## The tables that two renames change -/

/-- A rename with this old name is one of the table at a position. -/
def Names (query : Query) (name : String) (position : Nat) : Prop :=
  ∃ table, query.tableItems[position]? = some table ∧
    table.isReferredToBy (Identifier.trimmed name) = true

/-- No table but the one at a position answers to a name. -/
def FreeBeside (query : Query) (name : String) (position : Nat) : Prop :=
  ∀ other table, query.tableItems[other]? = some table → other ≠ position →
    table.answersTo (Identifier.trimmed name) = false

/-- The query in which the table at a position has a new alias and the qualifiers follow. -/
def withRenamed (query : Query) (position : Nat) (given wanted : String) : Query :=
  (query.setAlias position (Identifier.trimmed wanted)).mapQualifiers
    (Identifier.follow (Identifier.trimmed given) (Identifier.trimmed wanted))

/-- If no reference is declared twice, a name is the reference of one table at most. -/
theorem Names.position_unique
    (hfree : query.declaredTables.Pairwise fun left right =>
      Identifier.same left.reference right.reference = false)
    (hfirst : query.Names name first) (hsecond : query.Names name second) : first = second := by
  obtain ⟨table, htable, hname⟩ := hfirst
  obtain ⟨other, hother, hname'⟩ := hsecond
  unfold declaredTables at hfree
  rw [List.pairwise_map, List.pairwise_iff_getElem] at hfree
  obtain ⟨hlt, rfl⟩ := List.getElem?_eq_some_iff.mp htable
  obtain ⟨hlt', rfl⟩ := List.getElem?_eq_some_iff.mp hother
  have hsame : ∀ left right : TableItem,
      left.isReferredToBy (Identifier.trimmed name) = true →
      right.isReferredToBy (Identifier.trimmed name) = true →
        Identifier.same left.reference right.reference = true := by
    intro left right hleft hright
    unfold TableItem.isReferredToBy at hleft hright
    rwa [Identifier.same_congr_right hright]
  rcases Nat.lt_trichotomy first second with hless | heq | hless
  · exact absurd ((hsame _ _ hname hname').symm.trans (hfree _ _ hlt hlt' hless)) (by simp)
  · exact heq
  · exact absurd ((hsame _ _ hname' hname).symm.trans (hfree _ _ hlt' hlt hless)) (by simp)

/-- What a rename that succeeds has checked, and what it gives, by the position of the table. -/
theorem exists_names_of_rename (hrename : query.rename given wanted = .ok renamed) :
    ∃ position, query.Names given position ∧ query.FreeBeside wanted position ∧
      renamed = query.withRenamed position given wanted := by
  obtain ⟨-, before, table, after, hitems, hold, hnew, rfl⟩ := rename_eq_ok hrename
  refine ⟨before.length, ⟨table, ?_, hold⟩, ?_, rfl⟩
  · rw [hitems, List.getElem?_append_right le_rfl, Nat.sub_self]
    rfl
  · intro other entry hentry hne
    apply hnew
    have herase : (before ++ table :: after).eraseIdx before.length = before ++ after := by
      rw [List.eraseIdx_append_of_length_le le_rfl, Nat.sub_self]
      rfl
    rw [← herase, List.mem_eraseIdx_iff_getElem?, ← hitems]
    exact ⟨other, hne, hentry⟩

/-- A rename finds the same table before and after the rename of another one. -/
theorem Names.of_withRenamed {otherName : String}
    (hfree : query.declaredTables.Pairwise fun left right =>
      Identifier.same left.reference right.reference = false)
    (hbeside : query.FreeBeside wanted first) (hother : query.Names otherName second)
    (hne : first ≠ second)
    (hnames : (query.withRenamed first given wanted).Names otherName position) :
    position = second := by
  obtain ⟨table, htable, hname⟩ := hnames
  rw [withRenamed, tableItems_mapQualifiers, tableItems_setAlias, List.getElem?_modify] at htable
  by_cases hposition : first = position
  · -- The renamed table has the new alias, to which no other table answers.
    exfalso
    obtain ⟨other, hitem, hreferred⟩ := hother
    obtain ⟨source, hsource, rfl⟩ := Option.map_eq_some_iff.mp htable
    rw [if_pos hposition, TableItem.isReferredToBy_withAlias] at hname
    have hanswer := hbeside second other hitem hne.symm
    rw [TableItem.answersTo_congr hname, TableItem.answersTo_eq, hreferred] at hanswer
    exact absurd hanswer (by simp)
  · refine Names.position_unique hfree ⟨table, ?_, hname⟩ hother
    simpa [hposition] using htable

theorem FreeBeside.same_eq_false {otherName : String} (hbeside : query.FreeBeside wanted first)
    (hother : query.Names otherName second) (hne : first ≠ second) :
    Identifier.same (Identifier.trimmed wanted)
      (Identifier.trimmed otherName) = false := by
  obtain ⟨table, htable, hreferred⟩ := hother
  have hanswer := hbeside second table htable hne.symm
  rw [TableItem.answersTo_eq, Bool.or_eq_false_iff] at hanswer
  rw [Identifier.same_comm, ← Identifier.same_congr_left hreferred]
  exact hanswer.1

/-! ## Both orders -/

/-- What two renames of different tables give, one after the other, and what the first one
has checked. -/
theorem eq_of_rename_rename {left right newLeft newRight : String} {between : Query}
    (hfree : query.declaredTables.Pairwise fun left right =>
      Identifier.same left.reference right.reference = false)
    (hleft : query.Names left first) (hright : query.Names right second) (hne : first ≠ second)
    (hfirst : query.rename left newLeft = .ok between)
    (hsecond : between.rename right newRight = .ok renamed) :
    query.FreeBeside newLeft first ∧
      renamed = (query.withRenamed first left newLeft).withRenamed second right newRight := by
  obtain ⟨position, hnames, hbeside, rfl⟩ := exists_names_of_rename hfirst
  obtain rfl := hnames.position_unique hfree hleft
  obtain ⟨found, hfound, -, hresult⟩ := exists_names_of_rename hsecond
  obtain rfl := Names.of_withRenamed hfree hbeside hright hne hfound
  exact ⟨hbeside, hresult⟩

/-- Two changes commute if neither new alias is the old name of the other table. -/
theorem withRenamed_comm {left right newLeft newRight : String} (hne : first ≠ second)
    (hold : Identifier.same (Identifier.trimmed left) (Identifier.trimmed right) = false)
    (hleft : Identifier.same (Identifier.trimmed newLeft) (Identifier.trimmed right) = false)
    (hright : Identifier.same (Identifier.trimmed newRight) (Identifier.trimmed left) = false) :
    (query.withRenamed first left newLeft).withRenamed second right newRight =
      (query.withRenamed second right newRight).withRenamed first left newLeft := by
  have hfollow : Identifier.follow (Identifier.trimmed right) (Identifier.trimmed newRight) ∘
      Identifier.follow (Identifier.trimmed left) (Identifier.trimmed newLeft) =
      Identifier.follow (Identifier.trimmed left) (Identifier.trimmed newLeft) ∘
        Identifier.follow (Identifier.trimmed right) (Identifier.trimmed newRight) := by
    funext name
    rw [Function.comp_apply, Function.comp_apply, Identifier.follow_comm hold hleft hright]
  rw [withRenamed, withRenamed, setAlias_mapQualifiers, mapQualifiers_mapQualifiers, hfollow,
    setAlias_comm hne, withRenamed, withRenamed, setAlias_mapQualifiers,
    mapQualifiers_mapQualifiers]

theorem Names.same_eq_false {left right : String}
    (hfree : query.declaredTables.Pairwise fun left right =>
      Identifier.same left.reference right.reference = false)
    (hleft : query.Names left first) (hright : query.Names right second) (hne : first ≠ second) :
    Identifier.same (Identifier.trimmed left) (Identifier.trimmed right) = false := by
  by_contra hsame
  rw [Bool.not_eq_false] at hsame
  obtain ⟨table, htable, hreferred⟩ := hright
  refine hne (hleft.position_unique hfree ⟨table, htable, ?_⟩)
  unfold TableItem.isReferredToBy at hreferred ⊢
  rwa [Identifier.same_congr_right hsame]

/-- Renames of different tables give the same query in both orders, if both orders succeed. -/
theorem rename_comm {left right newLeft newRight : String}
    {withLeft withRight leftFirst rightFirst : Query}
    (hfree : query.declaredTables.Pairwise fun left right =>
      Identifier.same left.reference right.reference = false)
    (hleft : query.Names left first) (hright : query.Names right second) (hne : first ≠ second)
    (hwithLeft : query.rename left newLeft = .ok withLeft)
    (hleftFirst : withLeft.rename right newRight = .ok leftFirst)
    (hwithRight : query.rename right newRight = .ok withRight)
    (hrightFirst : withRight.rename left newLeft = .ok rightFirst) :
    leftFirst = rightFirst := by
  obtain ⟨hbeside, rfl⟩ := eq_of_rename_rename hfree hleft hright hne hwithLeft hleftFirst
  obtain ⟨hbeside', rfl⟩ := eq_of_rename_rename hfree hright hleft hne.symm hwithRight hrightFirst
  exact withRenamed_comm hne (hleft.same_eq_false hfree hright hne)
    (hbeside.same_eq_false hright hne) (hbeside'.same_eq_false hleft hne.symm)

/-- A self join in which the old names are given in other cases and with blanks, and the name
of the first table is the name of the second one, too. -/
theorem rename_comm_self_join :
    let query : Query :=
      { columns := [{ term := { table := some "USERS", column := "id" } }]
        tables := [{ tableName := "app.users" }]
        joins := [{
          table := { tableName := "users", aliasName := some "boss" }
          conditions := [{
            leftTable := "users", leftColumn := "boss_id"
            rightTable := "Boss", rightColumn := "id" }] }]
        filters := [{
          term := { table := some "boss", column := "age" }
          operator := .greater
          value := some (.column (some "users") "age") }] }
    ∃ withLeft withRight both,
      query.rename " Users" "staff" = .ok withLeft ∧ withLeft.rename "BOSS " " lead" = .ok both ∧
      query.rename "BOSS " " lead" = .ok withRight ∧ withRight.rename " Users" "staff" = .ok both ∧
      both.qualifiers = [(.select, "staff"), (.join, "staff"), (.join, "lead"),
        (.where_, "lead"), (.where_, "staff")] := by
  intro query
  have hleft : query.Names " Users" 0 := ⟨_, rfl, by decide +kernel⟩
  have hright : query.Names "BOSS " 1 := ⟨_, rfl, by decide +kernel⟩
  obtain ⟨withLeft, both, hwithLeft, hboth, hqualifiers⟩ : ∃ withLeft both,
      query.rename " Users" "staff" = .ok withLeft ∧ withLeft.rename "BOSS " " lead" = .ok both ∧
        both.qualifiers = [(.select, "staff"), (.join, "staff"), (.join, "lead"),
          (.where_, "lead"), (.where_, "staff")] := ⟨_, _, rfl, rfl, by decide +kernel⟩
  obtain ⟨withRight, other, hwithRight, hother⟩ : ∃ withRight other,
      query.rename "BOSS " " lead" = .ok withRight ∧ withRight.rename " Users" "staff" = .ok other :=
    ⟨_, _, rfl, rfl⟩
  have heq : both = other :=
    rename_comm (by decide +kernel) hleft hright (by decide) hwithLeft hboth hwithRight hother
  exact ⟨withLeft, withRight, both, hwithLeft, hboth, hwithRight, heq ▸ hother, hqualifiers⟩

end Query

end SelectForm

import Mathlib
import SelectForm.Statement.Parse
import SelectForm.Proofs.Sql.WrittenStatement
import SelectForm.Proofs.Statement.CollectClauses
import SelectForm.Proofs.Statement.ReadText

/-!
# Every query that is read can be written

What the readers accept is spelled so that its text can be read again: names are names,
wildcards stand where they may, operators have their operands, and SELECT and FROM are not
empty.  The condition of a join is the one place where a reserved word passes for a name.
-/

namespace SelectForm

/-! ## Columns and operands -/

namespace ColumnTerm

variable {clause : Clause} {fragment : Fragment} {term : ColumnTerm}

theorem isSpelled_of_read (hread : read clause fragment = .ok term) : term.IsSpelled .select := by
  rcases cases_of_read hread with
    hname | ⟨name, argument, distinct, aggregate, named, -, -, hname, hwildcard, rfl⟩
  · obtain ⟨haggregate, hdistinct, htable, hcolumn⟩ := isSpelled_of_ofName? hname
    refine ⟨htable, hcolumn.imp_right fun hstar => ⟨hstar, .inl ⟨rfl, haggregate⟩⟩, ?_⟩
    simp [hdistinct]
  · obtain ⟨-, -, htable, hcolumn⟩ := isSpelled_of_ofName? hname
    refine ⟨htable, hcolumn.imp_right fun hstar => ⟨hstar, .inr ?_⟩, fun _ _ => rfl⟩
    obtain ⟨hnone, rfl, haccepts⟩ := hwildcard (beq_iff_eq.mpr hstar)
    obtain rfl : aggregate = .count := by
      cases aggregate with
      | count => rfl
      | _ => exact absurd haccepts (by decide)
    exact ⟨rfl, hnone, rfl⟩

/-- Outside SELECT a wildcard stands in `COUNT` only. -/
theorem IsSpelled.of_isBareWildcard (hspelled : term.IsSpelled .select)
    (hbare : term.isBareWildcard = false) (clause : Clause) : term.IsSpelled clause := by
  refine ⟨hspelled.table, hspelled.column.imp_right ?_, hspelled.distinct⟩
  rintro ⟨hstar, ⟨-, hnone⟩ | hcount⟩
  · simp [isBareWildcard, isWildcard, hstar, hnone] at hbare
  · exact ⟨hstar, .inr hcount⟩

end ColumnTerm

namespace Operand

variable {clause : Clause} {fragment : Fragment} {operand : Operand}

theorem isSpelled_of_literalOf? {text : Text} {value : Literal}
    (hvalue : literalOf? text = some value) : (Operand.literal value).IsSpelled := by
  rw [literalOf?] at hvalue
  split at hvalue
  · obtain rfl := Option.some.inj hvalue
    trivial
  · split at hvalue
    · rename_i hnumber
      obtain rfl := Option.some.inj hvalue
      rwa [IsSpelled, String.toList_ofList]
    · split at hvalue
      · obtain rfl := Option.some.inj hvalue
        trivial
      · split at hvalue
        · obtain rfl := Option.some.inj hvalue
          trivial
        · rw [Option.ite_none_right_eq_some] at hvalue
          obtain rfl := Option.some.inj hvalue.2
          trivial

theorem isWritten_of_read (hread : read clause fragment = .ok operand) : operand.IsWritten := by
  unfold read at hread
  dsimp only at hread
  split at hread
  · exact absurd hread (by simp)
  · split at hread
    · exact absurd hread (by simp)
    · split at hread
      · rename_i name hname
        obtain rfl := Except.ok.inj hread
        refine ⟨?_, by simp⟩
        unfold Text.parameterName? at hname
        split at hname
        · rw [Option.ite_none_right_eq_some] at hname
          obtain ⟨hvalid, hname⟩ := hname
          rw [Option.some.inj hname] at hvalid
          rwa [IsSpelled, String.toList_ofList]
        · exact absurd hname (by simp)
      · split at hread
        · rename_i value hvalue
          obtain rfl := Except.ok.inj hread
          exact ⟨isSpelled_of_literalOf? hvalue, by simp⟩
        · split at hread
          · rename_i term hterm
            split at hread
            · rename_i hplain
              obtain rfl := Except.ok.inj hread
              have hspelled := ColumnTerm.isSpelled_of_read hterm
              simp only [ColumnTerm.isWildcard, Bool.and_eq_true, Bool.not_eq_true',
                beq_eq_false_iff_ne] at hplain
              refine ⟨trivial, fun table column hcolumn => ?_⟩
              obtain ⟨rfl, rfl⟩ := Operand.column.inj hcolumn
              exact ⟨hspelled.table, hspelled.column.resolve_right fun hwildcard =>
                hplain.2 hwildcard.1⟩
            · exact absurd hread (by simp)
          · exact absurd hread (by simp)

end Operand

/-! ## Conditions -/

namespace Condition

variable {clause : Clause} {fragment : Fragment} {condition : Condition}

theorem hasOperands_of_carriesOperands (hcarries : condition.CarriesOperands) :
    condition.HasOperands := by
  unfold CarriesOperands at hcarries
  unfold HasOperands
  split at hcarries
  all_goals simp_all

theorem isWritten_of_readOperands {body right : Fragment} {term : ColumnTerm}
    {operator : Operator} {negated : Bool}
    (hread : readOperands clause body right { term, operator, negated } = .ok condition) :
    ∀ operand ∈ condition.operands, operand.IsWritten := by
  have hslots : ∀ slot : Option Operand, (∀ operand ∈ slot, operand.IsWritten) →
      ∀ operand ∈ slot.toList, operand.IsWritten := by
    intro slot hslot operand hmem
    exact hslot operand (Option.mem_toList.mp hmem)
  cases operator with
  | isNull | isNotNull =>
      simp only [readOperands] at hread
      split at hread
      next =>
        obtain rfl := Except.ok.inj hread
        exact List.forall_mem_nil _
      next => simp at hread
  | between =>
      rw [readOperands] at hread
      cases hsplit : right.splitFirst? (.ofKeyword .and_) with
      | none => simp [hsplit] at hread
      | some split =>
          simp only [hsplit, bind_eq_ok, Except.ok.injEq] at hread
          obtain ⟨low, hlow, high, hhigh, rfl⟩ := hread
          have hlow := Operand.isWritten_of_read hlow
          have hhigh := Operand.isWritten_of_read hhigh
          simpa [operands] using And.intro hlow hhigh
  | inList =>
      rw [readOperands] at hread
      cases hinner : right.inside? with
      | none => simp [hinner] at hread
      | some inner =>
          simp only [hinner] at hread
          split at hread
          next => simp at hread
          next =>
            rw [bind_eq_ok] at hread
            obtain ⟨values, hvalues, hread⟩ := hread
            obtain rfl := Except.ok.inj hread
            have hall := forall_of_mapM hvalues fun _ _ => Operand.isWritten_of_read
            simpa [operands] using hall
  | _ =>
      rw [readOperands, bind_eq_ok] at hread
      obtain ⟨value, hvalue, hread⟩ := hread
      obtain rfl := Except.ok.inj hread
      simpa [operands] using Operand.isWritten_of_read hvalue

theorem isWritten_of_read (hread : read clause fragment = .ok condition) :
    condition.IsWritten clause ∧ (clause = .where_ → condition.term.aggregate = none) := by
  have hcarries := (carriesOperands_of_read hread).1
  rw [read] at hread
  split at hread
  next body negated hstrip =>
    split at hread
    next => simp at hread
    next =>
      rw [bind_eq_ok] at hread
      obtain ⟨split, -, hread⟩ := hread
      rw [bind_eq_ok] at hread
      obtain ⟨term, hterm, hread⟩ := hread
      obtain ⟨hsame, -⟩ := carriesOperands_of_readOperands hread
      have hoperands := isWritten_of_readOperands hread
      have hbare := isBareWildcard_of_readTerm hterm
      rw [readTerm, bind_eq_ok] at hterm
      obtain ⟨column, hcolumn, hterm⟩ := hterm
      split at hterm
      next => simp at hterm
      next =>
        split at hterm
        next => simp at hterm
        next hwhere =>
          obtain rfl := Except.ok.inj hterm
          rw [hsame]
          refine ⟨⟨hsame ▸ (ColumnTerm.isSpelled_of_read hcolumn).of_isBareWildcard hbare clause,
            hoperands, hasOperands_of_carriesOperands hcarries⟩, fun hclause => ?_⟩
          simpa [hclause] using hwhere

theorem isWritten_of_readChain {conditions : List Condition}
    (hread : readChain clause fragment = .ok conditions) :
    ∀ condition ∈ conditions,
      condition.IsWritten clause ∧ (clause = .where_ → condition.term.aggregate = none) := by
  refine forall_of_mapM hread fun part condition hpart => ?_
  rw [readPart] at hpart
  split at hpart
  next => simp at hpart
  next =>
    rw [bind_eq_ok] at hpart
    obtain ⟨bare, hbare, hpart⟩ := hpart
    obtain rfl := Except.ok.inj hpart
    obtain ⟨hwritten, haggregate⟩ := isWritten_of_read hbare
    exact ⟨⟨hwritten.term, hwritten.operands, hwritten.slots⟩, haggregate⟩

end Condition

/-! ## Items and tables -/

theorem SelectItem.isWritten_of_read {fragment : Fragment} {item : SelectItem}
    (hread : read fragment = .ok item) : item.IsWritten := by
  rw [read] at hread
  split at hread
  next expression aliasName hsplit =>
    rw [bind_eq_ok] at hread
    obtain ⟨term, hterm, hread⟩ := hread
    have hspelled := ColumnTerm.isSpelled_of_read hterm
    split at hread
    next =>
      obtain rfl := Except.ok.inj hread
      exact ⟨hspelled, by simp⟩
    next name hname =>
      split at hread
      next => simp at hread
      next hvalid =>
        split at hread
        next => simp at hread
        next hbare =>
          obtain rfl := Except.ok.inj hread
          refine ⟨hspelled, fun other hother => ?_⟩
          obtain rfl := Option.some.inj hother
          exact ⟨by simpa using hvalid, by simpa using hbare⟩

theorem GroupItem.isWritten_of_read {fragment : Fragment} {item : GroupItem}
    (hread : read fragment = .ok item) :
    item.term.IsSpelled .groupBy ∧ item.aggregate = none := by
  rw [read, bind_eq_ok] at hread
  obtain ⟨term, hterm, hread⟩ := hread
  split at hread
  next => simp at hread
  next haggregate =>
    split at hread
    next => simp at hread
    next hwildcard =>
      obtain rfl := Except.ok.inj hread
      have hspelled := (ColumnTerm.isSpelled_of_read hterm).of_isBareWildcard
        (by simp [ColumnTerm.isBareWildcard, hwildcard]) .groupBy
      refine ⟨⟨hspelled.table, .inl (hspelled.column.resolve_right fun hstar => ?_),
        fun hdistinct => absurd hdistinct Bool.false_ne_true⟩, rfl⟩
      exact hwildcard (beq_iff_eq.mpr hstar.1)

theorem OrderItem.isWritten_of_read {fragment : Fragment} {item : OrderItem}
    (hread : read fragment = .ok item) : item.term.IsSpelled .orderBy := by
  have hbare := isBareWildcard_of_read hread
  rw [read] at hread
  split at hread
  next expression direction hsplit =>
    rw [bind_eq_ok] at hread
    obtain ⟨term, hterm, hread⟩ := hread
    split at hread
    next => simp at hread
    next =>
      obtain rfl := Except.ok.inj hread
      exact (ColumnTerm.isSpelled_of_read hterm).of_isBareWildcard hbare .orderBy

theorem TableItem.isWritten_of_read {clause : Clause} {fragment : Fragment} {table : TableItem}
    (hread : read clause fragment = .ok table) : table.IsWritten := by
  unfold read at hread
  dsimp only at hread
  split at hread
  · exact absurd hread (by simp)
  · split at hread
    · exact absurd hread (by simp)
    · rename_i name aliasName hreference
      split at hread
      · exact absurd hread (by simp)
      · rename_i hname
        split at hread
        · obtain rfl := Except.ok.inj hread
          exact ⟨by simpa using hname, by simp⟩
        · split at hread
          · rename_i hvalid
            obtain rfl := Except.ok.inj hread
            refine ⟨by simpa using hname, fun other hother => ?_⟩
            obtain rfl := Option.some.inj hother
            exact hvalid
          · exact absurd hread (by simp)

/-! ## Joins -/

theorem JoinCondition.isWritten_of_read {fragment : Fragment} {condition : JoinCondition}
    (hread : read fragment = .ok condition) : condition.IsWritten := by
  unfold read at hread
  dsimp only at hread
  split at hread
  · exact absurd hread (by simp)
  · rename_i hcomparison
    obtain rfl := Except.ok.inj hread
    obtain ⟨-, -, -, -, -, -, -, -, hcomparison, hleft, hright⟩ :=
      Text.exists_of_comparison? hcomparison
    constructor <;> simp [*]
  · exact absurd hread (by simp)

theorem ne_nil_of_mapM {α β ε : Type} {read : α → Except ε β} {sources : List α} {items : List β}
    (hread : sources.mapM read = .ok items) (hne : sources ≠ []) : items ≠ [] := by
  rintro rfl
  exact hne (List.forall₂_nil_right_iff.mp (forall₂_of_mapM hread))

theorem Fragment.splitChain_ne_nil (connectors : List Connector) (fragment : Fragment) :
    fragment.splitChain connectors ≠ [] := by
  intro hnil
  have hhead := head?_closeChain false none (fragment.segment (ChainMark.finder connectors)).head
    (fragment.segment (ChainMark.finder connectors)).tail
  rw [← Fragment.splitChain, hnil] at hhead
  exact absurd hhead (by simp)

namespace Join

theorem isWritten_of_readBody {kind : JoinKind} {body : Fragment} {join : Join}
    (hread : readBody kind body = .ok join) : join.IsWritten := by
  rw [readBody] at hread
  split at hread
  next => simp at hread
  next =>
    split at hread
    next => simp at hread
    next split hsplit =>
      rw [bind_eq_ok] at hread
      obtain ⟨table, htable, hread⟩ := hread
      rw [bind_eq_ok] at hread
      obtain ⟨conditions, hconditions, hread⟩ := hread
      obtain rfl := Except.ok.inj hread
      rw [JoinCondition.readChain] at hconditions
      split at hconditions
      next => simp at hconditions
      next =>
        exact ⟨TableItem.isWritten_of_read htable,
          ne_nil_of_mapM hconditions (Fragment.splitChain_ne_nil _ _),
          forall_of_mapM hconditions fun _ _ hcondition =>
            JoinCondition.isWritten_of_read (read_of_ite hcondition)⟩

theorem isWritten_of_readSegment {segment : Segment JoinMark} {join : Join}
    (hread : readSegment segment = .ok join) : join.IsWritten := by
  rw [readSegment] at hread
  cases hlabel : segment.label with
  | join kind =>
      rw [hlabel] at hread
      exact isWritten_of_readBody hread
  | cross => simp [hlabel] at hread
  | natural => simp [hlabel] at hread

theorem isWritten_of_readList {cursor : Cursor} {joins : List Join}
    (hread : (readList cursor).1 = .ok joins) : ∀ join ∈ joins, join.IsWritten := by
  unfold readList at hread
  dsimp only at hread
  split at hread
  · exact absurd hread (by simp)
  · split at hread
    · rename_i found hfound
      obtain rfl := Except.ok.inj hread
      exact forall_of_mapM hfound fun _ _ => isWritten_of_readSegment
    · exact absurd hread (by simp)

end Join

theorem TableItem.isWritten_of_readList {cursor : Cursor} {tables : List TableItem}
    (hread : (readList cursor).1 = .ok tables) :
    tables ≠ [] ∧ ∀ table ∈ tables, table.IsWritten := by
  unfold readList at hread
  dsimp only at hread
  split at hread
  · rename_i found hfound
    obtain rfl := Except.ok.inj hread
    exact ⟨ne_nil_of_mapM hfound (by simp [Fragment.splitList]),
      forall_of_mapM hfound fun _ _ htable => isWritten_of_read (read_of_ite htable)⟩
  · exact absurd hread (by simp)

/-! ## Clauses -/

/-- What a query is like when some clauses have been read and the others are empty. -/
structure Query.IsWrittenIn (query : Query) (seen : List Clause) : Prop where
  hasColumns : .select ∈ seen → query.columns ≠ []
  hasTables : .from_ ∈ seen → query.tables ≠ []
  columns : ∀ item ∈ query.columns, item.IsWritten
  tables : ∀ table ∈ query.tables, table.IsWritten
  joins : ∀ join ∈ query.joins, join.IsWritten
  filters : ∀ condition ∈ query.filters,
    condition.IsWritten .where_ ∧ condition.term.aggregate = none
  groups : ∀ item ∈ query.groups, item.term.IsSpelled .groupBy ∧ item.aggregate = none
  groupFilters : ∀ condition ∈ query.groupFilters, condition.IsWritten .having
  orders : ∀ item ∈ query.orders, item.term.IsSpelled .orderBy

theorem Query.isWrittenIn_empty : IsWrittenIn {} [] := by
  constructor <;> simp

/-- Clauses other than SELECT and FROM may stay empty. -/
theorem Query.IsWrittenIn.cons {query : Query} {seen : List Clause}
    (hwritten : query.IsWrittenIn seen) (clause : Clause) (hselect : clause ≠ .select) (hfrom : clause ≠ .from_) :
    query.IsWrittenIn (clause :: seen) :=
  { hwritten with
    hasColumns := fun hmem => hwritten.hasColumns ((List.mem_cons.mp hmem).resolve_left hselect.symm)
    hasTables := fun hmem => hwritten.hasTables ((List.mem_cons.mp hmem).resolve_left hfrom.symm) }

theorem Query.IsWrittenIn.isWritten {query : Query} {seen : List Clause}
    (hwritten : query.IsWrittenIn seen) (hselect : .select ∈ seen) (hfrom : .from_ ∈ seen) :
    query.IsWritten :=
  ⟨hwritten.hasColumns hselect, hwritten.hasTables hfrom, hwritten.columns, hwritten.tables,
    hwritten.joins, hwritten.filters, hwritten.groups, hwritten.groupFilters, hwritten.orders⟩

namespace Statement

variable {before after : Query} {located : LocatedClause} {seen : List Clause}

/-- Reading a clause keeps what has been read before it. -/
theorem isWrittenIn_of_readClause (hread : readClause before located = .ok after)
    (hbefore : before.IsWrittenIn seen) : after.IsWrittenIn (located.clause :: seen) := by
  rw [readClause] at hread
  cases hclause : located.clause with
  | select =>
      simp only [hclause, bind_eq_ok, Except.ok.injEq] at hread
      obtain ⟨⟨distinct, columns⟩, hlist, rfl⟩ := hread
      rw [SelectItem.readList, bind_eq_ok] at hlist
      obtain ⟨items, hitems, hlist⟩ := hlist
      obtain ⟨-, rfl⟩ := Prod.mk.inj (Except.ok.inj hlist)
      exact { hbefore with
        hasColumns := fun _ => ne_nil_of_mapM hitems (by simp [Fragment.splitList])
        hasTables := fun hmem => hbefore.hasTables (by simpa using hmem)
        columns := forall_of_mapM hitems fun _ _ hitem =>
          SelectItem.isWritten_of_read (read_of_ite hitem) }
  | from_ =>
      simp only [hclause, bind_eq_ok, Except.ok.injEq] at hread
      obtain ⟨tables, htables, joins, hjoins, rfl⟩ := hread
      obtain ⟨hne, htables⟩ := TableItem.isWritten_of_readList htables
      exact { hbefore with
        hasColumns := fun hmem => hbefore.hasColumns (by simpa using hmem)
        hasTables := fun _ => hne
        tables := htables
        joins := Join.isWritten_of_readList hjoins }
  | join =>
      simp only [hclause, Except.ok.injEq] at hread
      exact hread ▸ hbefore.cons .join (by simp) (by simp)
  | where_ =>
      simp only [hclause, bind_eq_ok, Except.ok.injEq] at hread
      obtain ⟨filters, hchain, rfl⟩ := hread
      have hseen := hbefore.cons .where_ (by simp) (by simp)
      exact { hseen with
        filters := fun condition hmem =>
          (Condition.isWritten_of_readChain hchain condition hmem).imp_right fun h => h rfl }
  | groupBy =>
      simp only [hclause, bind_eq_ok, Except.ok.injEq] at hread
      obtain ⟨groups, hlist, rfl⟩ := hread
      have hseen := hbefore.cons .groupBy (by simp) (by simp)
      exact { hseen with
        groups := forall_of_mapM hlist fun _ _ hitem =>
          GroupItem.isWritten_of_read (read_of_ite hitem) }
  | having =>
      simp only [hclause, bind_eq_ok, Except.ok.injEq] at hread
      obtain ⟨groupFilters, hchain, rfl⟩ := hread
      have hseen := hbefore.cons .having (by simp) (by simp)
      exact { hseen with
        groupFilters := fun condition hmem =>
          (Condition.isWritten_of_readChain hchain condition hmem).1 }
  | orderBy =>
      simp only [hclause, bind_eq_ok, Except.ok.injEq] at hread
      obtain ⟨orders, hlist, rfl⟩ := hread
      have hseen := hbefore.cons .orderBy (by simp) (by simp)
      exact { hseen with
        orders := forall_of_mapM hlist fun _ _ hitem =>
          OrderItem.isWritten_of_read (read_of_ite hitem) }
  | paging =>
      simp only [hclause, bind_eq_ok, Except.ok.injEq] at hread
      obtain ⟨paging, -, rfl⟩ := hread
      have hseen := hbefore.cons .paging (by simp) (by simp)
      exact { hseen with }

theorem isWrittenIn_of_foldlM {clauses : List LocatedClause}
    (hread : clauses.foldlM readClause before = .ok after) (hbefore : before.IsWrittenIn seen) :
    after.IsWrittenIn ((clauses.map LocatedClause.clause).reverse ++ seen) := by
  induction clauses generalizing before seen with
  | nil =>
      obtain rfl := Except.ok.inj hread
      exact hbefore
  | cons located clauses ih =>
      rw [List.foldlM_cons, bind_eq_ok] at hread
      obtain ⟨middle, hmiddle, hrest⟩ := hread
      have hseen := ih hrest (isWrittenIn_of_readClause hmiddle hbefore)
      rw [List.map_cons, List.reverse_cons, List.append_assoc, List.singleton_append]
      exact hseen

end Statement

/-! ## Statements -/

namespace LocatedClause

theorem mem_of_locate {text : Text} {clauses : List LocatedClause}
    (hlocate : locate text = .ok clauses) :
    .select ∈ clauses.map LocatedClause.clause ∧ .from_ ∈ clauses.map LocatedClause.clause := by
  obtain ⟨first, others, rfl, hselect⟩ := head_of_locate hlocate
  obtain ⟨-, -, located, hmem, hfrom⟩ := collect_of_locate hlocate
  exact ⟨hselect ▸ List.mem_cons_self, hfrom ▸ List.mem_map_of_mem hmem⟩

end LocatedClause

namespace Query

/-- A statement that is read was checked as a whole and then read clause by clause. -/
theorem exists_of_ofText {text : Text} {query : Query} (hread : ofText text = .ok query) :
    ∃ statement clauses, Statement.rejectUnclosed text = .ok () ∧
      Statement.single text.maskComments = .ok statement ∧
      Statement.rejectUnbalanced statement = .ok () ∧
      Statement.rejectUnsupported statement = .ok () ∧
      LocatedClause.locate statement = .ok clauses ∧
      clauses.foldlM Statement.readClause {} = .ok query := by
  rw [ofText, bind_eq_ok] at hread
  obtain ⟨⟨⟩, hclosed, hread⟩ := hread
  rw [bind_eq_ok] at hread
  obtain ⟨statement, hsingle, hread⟩ := hread
  rw [bind_eq_ok] at hread
  obtain ⟨⟨⟩, hbalanced, hread⟩ := hread
  rw [bind_eq_ok] at hread
  obtain ⟨⟨⟩, hsupported, hread⟩ := hread
  rw [bind_eq_ok] at hread
  obtain ⟨clauses, hclauses, hread⟩ := hread
  exact ⟨statement, clauses, hclosed, hsingle, hbalanced, hsupported, hclauses, hread⟩

/-- Every query that is read can be written. -/
theorem isWritten_of_ofText {text : Text} {query : Query} (hread : ofText text = .ok query) :
    query.IsWritten := by
  obtain ⟨statement, clauses, -, -, -, -, hclauses, hfold⟩ := exists_of_ofText hread
  obtain ⟨hselect, hfrom⟩ := LocatedClause.mem_of_locate hclauses
  have hwritten := Statement.isWrittenIn_of_foldlM hfold isWrittenIn_empty
  rw [List.append_nil] at hwritten
  exact hwritten.isWritten (List.mem_reverse.mpr hselect) (List.mem_reverse.mpr hfrom)

end Query

end SelectForm

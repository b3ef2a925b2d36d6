import Mathlib
import SelectForm.Statement.Parse
import SelectForm.Proofs.Query.Canonical

/-!
# Every query that is read is canonical

Texts may spell a query in many ways, and all of them are read to queries without
anything that their text would not show.  A condition gets the operands of its operator
and no others, the first one of a chain has no connector in front of it, and only the
argument of a function can be DISTINCT.  So each clause keeps a query canonical.
-/

namespace SelectForm

/-! ## Results of readers -/

theorem bind_eq_ok {α β ε : Type} {first : Except ε α} {next : α → Except ε β} {value : β} :
    (first >>= next) = .ok value ↔ ∃ middle, first = .ok middle ∧ next middle = .ok value := by
  cases first with
  | error error => simp [bind, Except.bind]
  | ok middle => simp [bind, Except.bind]

theorem forall₂_of_mapM {α β ε : Type} {read : α → Except ε β} {sources : List α}
    {items : List β} (hread : sources.mapM read = .ok items) :
    List.Forall₂ (fun source item => read source = .ok item) sources items := by
  induction sources generalizing items with
  | nil =>
      obtain rfl : [] = items := by simpa [pure, Except.pure] using hread
      exact .nil
  | cons source sources ih =>
      rw [List.mapM_cons, bind_eq_ok] at hread
      obtain ⟨item, hitem, hrest⟩ := hread
      rw [bind_eq_ok] at hrest
      obtain ⟨others, hothers, hitems⟩ := hrest
      obtain rfl : item :: others = items := by simpa [pure, Except.pure] using hitems
      exact .cons hitem (ih hothers)

theorem exists_of_forall₂ {α β : Type} {R : α → β → Prop} {first : List α} {second : List β}
    (hforall : List.Forall₂ R first second) : ∀ a ∈ first, ∃ b ∈ second, R a b := by
  induction hforall with
  | nil => exact List.forall_mem_nil _
  | cons hone _ ih =>
      refine List.forall_mem_cons.mpr ⟨⟨_, List.mem_cons_self, hone⟩, fun a hmem => ?_⟩
      obtain ⟨b, hmem, hab⟩ := ih a hmem
      exact ⟨b, List.mem_cons_of_mem _ hmem, hab⟩

theorem forall_of_mapM {α β ε : Type} {read : α → Except ε β} {sources : List α}
    {items : List β} {holds : β → Prop} (hread : sources.mapM read = .ok items)
    (hholds : ∀ source item, read source = .ok item → holds item) :
    ∀ item ∈ items, holds item := by
  have hitems := forall₂_of_mapM hread
  clear hread
  induction hitems with
  | nil => exact List.forall_mem_nil _
  | cons hitem _ ih => exact List.forall_mem_cons.mpr ⟨hholds _ _ hitem, ih⟩

theorem read_of_ite {α : Type} {empty : Prop} [Decidable empty] {failed : ParseError}
    {read : Except ParseError α} {item : α}
    (hread : (if empty then .error failed else read) = .ok item) : read = .ok item := by
  split at hread
  next => simp at hread
  next => exact hread

/-! ## Columns -/

namespace ColumnTerm

theorem distinct_of_ofName? {text : Text} {term : ColumnTerm} (hname : ofName? text = some term) :
    term.distinct = false := by
  rw [ofName?] at hname
  cases hcolumn : Text.columnName? text with
  | none => simp [hcolumn] at hname
  | some name =>
      obtain ⟨table, column⟩ := name
      simp only [hcolumn, Option.ite_none_right_eq_some, Option.some.injEq] at hname
      rw [← hname.2]

/-- A wildcard that is read alone is not DISTINCT. -/
theorem distinct_of_read {clause : Clause} {fragment : Fragment} {term : ColumnTerm}
    (hread : read clause fragment = .ok term) (hbare : term.isBareWildcard = true) :
    term.distinct = false := by
  rw [read] at hread
  cases hcall : Text.call? fragment.trim.text with
  | none =>
      cases hname : ofName? fragment.trim.text with
      | none => simp [hcall, hname] at hread
      | some named =>
          simp only [hcall, hname, Except.ok.injEq] at hread
          rw [← hread]
          exact distinct_of_ofName? hname
  | some call =>
      obtain ⟨name, distinct, argument⟩ := call
      simp only [hcall] at hread
      split at hread
      next => simp at hread
      next aggregate haggregate =>
        split at hread
        next => simp at hread
        next named hnamed =>
          split at hread
          next => simp at hread
          next =>
            rw [Except.ok.injEq] at hread
            simp [← hread, isBareWildcard] at hbare

end ColumnTerm

/-! ## Conditions -/

namespace Fragment

/-- The first part of a chain has no connector in front of it. -/
theorem head?_closeChain (pending : Bool) (connector : Option Connector) (part : Fragment)
    (segments : List (Segment ChainMark)) :
    (closeChain pending connector part segments).head?.map ChainPart.connector =
      some connector := by
  induction segments generalizing pending part with
  | nil => rfl
  | cons segment segments ih =>
      rw [closeChain]
      cases segment.label with
      | between => exact ih _ _
      | connector next =>
          simp only
          split
          · exact ih _ _
          · rfl

end Fragment

namespace Condition

/-- A condition gets the operands of its operator. -/
theorem carriesOperands_of_readOperands {clause : Clause} {body right : Fragment}
    {term : ColumnTerm} {operator : Operator} {negated : Bool} {condition : Condition}
    (hread : readOperands clause body right { term, operator, negated } = .ok condition) :
    condition.term = term ∧ condition.CarriesOperands := by
  cases operator with
  | isNull | isNotNull =>
      simp only [readOperands] at hread
      split at hread
      next =>
        rw [Except.ok.injEq] at hread
        subst hread
        exact ⟨rfl, rfl, rfl, rfl, rfl⟩
      next => simp at hread
  | between =>
      rw [readOperands] at hread
      cases hsplit : right.splitFirst? (.ofKeyword .and_) with
      | none => simp [hsplit] at hread
      | some split =>
          simp only [hsplit, bind_eq_ok, Except.ok.injEq] at hread
          obtain ⟨low, -, high, -, rfl⟩ := hread
          exact ⟨rfl, rfl, rfl, rfl, rfl⟩
  | inList =>
      rw [readOperands] at hread
      cases hinner : right.inside? with
      | none => simp [hinner] at hread
      | some inner =>
          simp only [hinner] at hread
          split at hread
          next => simp at hread
          next hitems =>
            rw [bind_eq_ok] at hread
            obtain ⟨values, hvalues, hread⟩ := hread
            rw [Except.ok.injEq] at hread
            subst hread
            refine ⟨rfl, ?_, rfl, rfl, rfl⟩
            rintro rfl
            have hnil := List.forall₂_nil_right_iff.mp (forall₂_of_mapM hvalues)
            simp [hnil] at hitems
  | _ =>
      rw [readOperands, bind_eq_ok] at hread
      obtain ⟨value, -, hread⟩ := hread
      rw [Except.ok.injEq] at hread
      subst hread
      exact ⟨rfl, rfl, rfl, rfl, rfl⟩

/-- No wildcard stands alone in a condition that is read. -/
theorem isBareWildcard_of_readTerm {clause : Clause} {left : Fragment} {term : ColumnTerm}
    (hread : readTerm clause left = .ok term) : term.isBareWildcard = false := by
  rw [readTerm, bind_eq_ok] at hread
  obtain ⟨column, -, hread⟩ := hread
  split at hread
  next => simp at hread
  next hbare =>
    split at hread
    next => simp at hread
    next =>
      rw [Except.ok.injEq] at hread
      simpa [← hread] using hbare

/-- A condition that is read has the operands of its operator, and its column is no
wildcard that stands alone. -/
theorem carriesOperands_of_read {clause : Clause} {fragment : Fragment} {condition : Condition}
    (hread : read clause fragment = .ok condition) :
    condition.CarriesOperands ∧ condition.term.isBareWildcard = false := by
  rw [read] at hread
  split at hread
  next body negated hstrip =>
    split at hread
    next => simp at hread
    next =>
      rw [bind_eq_ok] at hread
      obtain ⟨split, -, hread⟩ := hread
      rw [bind_eq_ok] at hread
      obtain ⟨term, hterm, hread⟩ := hread
      obtain ⟨rfl, hcarries⟩ := carriesOperands_of_readOperands hread
      exact ⟨hcarries, isBareWildcard_of_readTerm hterm⟩

/-- A part of a chain is read with the connector in front of it. -/
theorem carriesOperands_of_readPart {clause : Clause} {chain : Fragment} {part : ChainPart}
    {condition : Condition} (hread : readPart clause chain part = .ok condition) :
    condition.connector = part.connector.getD .and ∧ condition.CarriesOperands ∧
      condition.term.isBareWildcard = false := by
  rw [readPart] at hread
  split at hread
  next => simp at hread
  next =>
    rw [bind_eq_ok] at hread
    obtain ⟨bare, hbare, hread⟩ := hread
    rw [Except.ok.injEq] at hread
    have hcanonical := carriesOperands_of_read hbare
    subst hread
    exact ⟨rfl, hcanonical⟩

/-- What every chain of conditions that is read is like. -/
structure IsCanonicalChain (conditions : List Condition) : Prop where
  first : ∀ first ∈ conditions.head?, first.connector = .and
  operands : ∀ condition ∈ conditions, condition.CarriesOperands
  terms : ∀ condition ∈ conditions, condition.term.isBareWildcard = false

theorem isCanonicalChain_of_readChain {clause : Clause} {fragment : Fragment}
    {conditions : List Condition} (hread : readChain clause fragment = .ok conditions) :
    IsCanonicalChain conditions := by
  have hall := forall_of_mapM hread fun part condition hpart =>
    (carriesOperands_of_readPart hpart).2
  refine ⟨?_, fun condition hmem => (hall condition hmem).1,
    fun condition hmem => (hall condition hmem).2⟩
  have hparts := forall₂_of_mapM hread
  have hhead := Fragment.head?_closeChain false none
    (fragment.segment (ChainMark.finder [.and, .or])).head
    (fragment.segment (ChainMark.finder [.and, .or])).tail
  rw [← Fragment.splitChain] at hhead
  generalize fragment.splitChain [.and, .or] = parts at hparts hhead
  cases hparts with
  | nil => simp
  | cons hpart _ =>
      rw [List.head?_cons, Option.map_some, Option.some.injEq] at hhead
      intro first hfirst
      obtain rfl := Option.some.inj hfirst
      rw [(carriesOperands_of_readPart hpart).1, hhead]
      rfl

end Condition

/-! ## Clauses -/

namespace SelectItem

theorem distinct_of_read {fragment : Fragment} {item : SelectItem}
    (hread : read fragment = .ok item) (hbare : item.term.isBareWildcard = true) :
    item.term.distinct = false := by
  rw [read] at hread
  split at hread
  next expression aliasName hsplit =>
    rw [bind_eq_ok] at hread
    obtain ⟨term, hterm, hread⟩ := hread
    have hdistinct := ColumnTerm.distinct_of_read hterm
    split at hread
    next =>
      rw [Except.ok.injEq] at hread
      subst hread
      exact hdistinct hbare
    next =>
      split at hread
      next => simp at hread
      next =>
        split at hread
        next => simp at hread
        next =>
          rw [Except.ok.injEq] at hread
          subst hread
          exact hdistinct hbare

theorem distinct_of_readList {fragment : Fragment} {distinct : Bool} {items : List SelectItem}
    (hread : readList fragment = .ok (distinct, items)) :
    ∀ item ∈ items, item.term.isBareWildcard = true → item.term.distinct = false := by
  rw [readList, bind_eq_ok] at hread
  obtain ⟨columns, hcolumns, hread⟩ := hread
  obtain ⟨-, rfl⟩ := Prod.mk.inj (Except.ok.inj hread)
  exact forall_of_mapM hcolumns fun fragment item hitem => distinct_of_read (read_of_ite hitem)

end SelectItem

namespace OrderItem

theorem isBareWildcard_of_read {fragment : Fragment} {item : OrderItem}
    (hread : read fragment = .ok item) : item.term.isBareWildcard = false := by
  rw [read] at hread
  split at hread
  next expression direction hsplit =>
    rw [bind_eq_ok] at hread
    obtain ⟨term, hterm, hread⟩ := hread
    split at hread
    next => simp at hread
    next hbare =>
      rw [Except.ok.injEq] at hread
      subst hread
      simpa using hbare

theorem isBareWildcard_of_readList {fragment : Fragment} {items : List OrderItem}
    (hread : readList fragment = .ok items) :
    ∀ item ∈ items, item.term.isBareWildcard = false :=
  forall_of_mapM hread fun _ _ hitem => isBareWildcard_of_read (read_of_ite hitem)

end OrderItem

namespace Query

/-- What a query that is read is like, clause by clause. -/
structure IsRead (query : Query) : Prop where
  columns : ∀ item ∈ query.columns,
    item.term.isBareWildcard = true → item.term.distinct = false
  filters : Condition.IsCanonicalChain query.filters
  groupFilters : Condition.IsCanonicalChain query.groupFilters
  orders : ∀ item ∈ query.orders, item.term.isBareWildcard = false

theorem isRead_empty : IsRead {} := by
  constructor
  · simp
  · exact ⟨by simp, by simp, by simp⟩
  · exact ⟨by simp, by simp, by simp⟩
  · simp

/-- The columns among the operands of a condition are not DISTINCT. -/
theorem distinct_of_mem_terms {condition : Condition}
    (hbare : condition.term.isBareWildcard = false) :
    ∀ term ∈ condition.terms, term.isBareWildcard = true → term.distinct = false := by
  rw [Condition.terms]
  refine List.forall_mem_cons.mpr ⟨?_, fun term hmem _ => ?_⟩
  · intro hwildcard
    rw [hbare] at hwildcard
    exact absurd hwildcard (by decide)
  · obtain ⟨operand, -, hterm⟩ := List.mem_filterMap.mp hmem
    cases operand with
    | column table name =>
        obtain rfl := Option.some.inj hterm
        rfl
    | parameter name => simp [Operand.term?] at hterm
    | literal value => simp [Operand.term?] at hterm

/-- A query that is read holds nothing which its text would not show. -/
theorem IsRead.isCanonical {query : Query} (hread : query.IsRead) : query.IsCanonical := by
  constructor
  · exact hread.filters.first
  · exact hread.groupFilters.first
  · exact List.forall_mem_append.mpr ⟨hread.filters.operands, hread.groupFilters.operands⟩
  · rw [forall_columnUses_iff query fun _ term =>
      term.isBareWildcard = true → term.distinct = false]
    refine ⟨hread.columns, ?_, ?_, ?_, fun _ _ _ => rfl, ?_⟩
    · intro join _ condition _ term hmem _
      simp only [JoinCondition.terms, List.mem_cons, List.not_mem_nil, or_false] at hmem
      rcases hmem with rfl | rfl <;> rfl
    · exact fun condition hmem => distinct_of_mem_terms (hread.filters.terms condition hmem)
    · exact fun condition hmem => distinct_of_mem_terms (hread.groupFilters.terms condition hmem)
    · intro item hmem hwildcard
      rw [hread.orders item hmem] at hwildcard
      exact absurd hwildcard (by decide)

end Query

namespace Statement

/-- Reading a clause keeps a query canonical. -/
theorem isRead_of_readClause {before after : Query} {located : LocatedClause}
    (hread : readClause before located = .ok after) (hbefore : before.IsRead) :
    after.IsRead := by
  rw [readClause] at hread
  cases hclause : located.clause with
  | select =>
      simp only [hclause, bind_eq_ok, Except.ok.injEq] at hread
      obtain ⟨⟨distinct, columns⟩, hlist, rfl⟩ := hread
      exact { hbefore with columns := SelectItem.distinct_of_readList hlist }
  | from_ =>
      simp only [hclause, bind_eq_ok, Except.ok.injEq] at hread
      obtain ⟨tables, -, joins, -, rfl⟩ := hread
      exact { hbefore with }
  | join =>
      simp only [hclause, Except.ok.injEq] at hread
      exact hread ▸ hbefore
  | where_ =>
      simp only [hclause, bind_eq_ok, Except.ok.injEq] at hread
      obtain ⟨filters, hchain, rfl⟩ := hread
      exact { hbefore with filters := Condition.isCanonicalChain_of_readChain hchain }
  | groupBy =>
      simp only [hclause, bind_eq_ok, Except.ok.injEq] at hread
      obtain ⟨groups, -, rfl⟩ := hread
      exact { hbefore with }
  | having =>
      simp only [hclause, bind_eq_ok, Except.ok.injEq] at hread
      obtain ⟨groupFilters, hchain, rfl⟩ := hread
      exact { hbefore with groupFilters := Condition.isCanonicalChain_of_readChain hchain }
  | orderBy =>
      simp only [hclause, bind_eq_ok, Except.ok.injEq] at hread
      obtain ⟨orders, hlist, rfl⟩ := hread
      exact { hbefore with orders := OrderItem.isBareWildcard_of_readList hlist }
  | paging =>
      simp only [hclause, bind_eq_ok, Except.ok.injEq] at hread
      obtain ⟨paging, -, rfl⟩ := hread
      exact { hbefore with }

/-- Reading clauses one after another keeps a query canonical. -/
theorem isRead_of_foldlM {clauses : List LocatedClause} {before after : Query}
    (hread : clauses.foldlM readClause before = .ok after) (hbefore : before.IsRead) :
    after.IsRead := by
  induction clauses generalizing before with
  | nil =>
      obtain rfl := Except.ok.inj hread
      exact hbefore
  | cons located clauses ih =>
      rw [List.foldlM_cons, bind_eq_ok] at hread
      obtain ⟨middle, hmiddle, hrest⟩ := hread
      exact ih hrest (isRead_of_readClause hmiddle hbefore)

end Statement

namespace Query

/-- Every query that is read is canonical. -/
theorem isCanonical_of_parse {sql : String} {query : Query} (hparse : parse sql = .ok query) :
    query.IsCanonical := by
  rw [parse, ofText, bind_eq_ok] at hparse
  obtain ⟨-, -, hparse⟩ := hparse
  rw [bind_eq_ok] at hparse
  obtain ⟨statement, -, hparse⟩ := hparse
  rw [bind_eq_ok] at hparse
  obtain ⟨-, -, hparse⟩ := hparse
  rw [bind_eq_ok] at hparse
  obtain ⟨-, -, hparse⟩ := hparse
  rw [bind_eq_ok] at hparse
  obtain ⟨clauses, -, hparse⟩ := hparse
  exact (Statement.isRead_of_foldlM hparse isRead_empty).isCanonical

end Query

end SelectForm

import Mathlib
import SelectForm.Statement.Parse
import SelectForm.Proofs.Statement.ReadCondition
import SelectForm.Proofs.Statement.ReadJoin
import SelectForm.Proofs.Statement.ReadPaging

/-!
# Reading written clauses

The parts of a statement are read as the entries of a query.  Each clause is read back
on its own, whatever blanks stand behind it.  A clause sets the entries that belong to it,
so reading one clause after another gathers the query.
-/

namespace SelectForm

open Lexeme

/-! ## Lists -/

namespace Fragment

/-- Blanks in front of a solid piece are skipped. -/
theorem skipAsciiBlanks_written {lexemes : List Lexeme} {pad trail : Text}
    (hpad : ∀ c ∈ pad, isLayoutBlank c = true) (hsolid : Solid lexemes) (start : Nat) :
    ∃ place, (mk (pad ++ (textOf lexemes ++ trail)) start).skipAsciiBlanks =
      ⟨textOf (lexemes ++ marks trail), place⟩ := by
  have hblank := fun c hc => (isSpacer_of_isLayoutBlank (hpad c hc)).2.2
  have hhead : (textOf lexemes ++ trail).takeWhile Text.isAsciiBlank = [] := by
    cases htext : textOf lexemes ++ trail with
    | nil => rfl
    | cons c others =>
        have hc := hsolid.tight.isAsciiBlank_head trail c (by simp [htext])
        simp [hc]
  have htake : (pad ++ (textOf lexemes ++ trail)).takeWhile Text.isAsciiBlank = pad := by
    rw [List.takeWhile_append_of_pos hblank, hhead, List.append_nil]
  refine ⟨start + Text.size pad, ?_⟩
  simp only [skipAsciiBlanks, drop, htake, List.drop_left, List.take_left, textOf_append,
    textOf_marks]

theorem length?_written {keyword : Keyword} {lexemes : List Lexeme} {trail : Text}
    (hplain : keyword.isPlain = true) (hsolid : Solid lexemes)
    (htrail : ∀ c ∈ trail, isLayoutBlank c = true) :
    keyword.length? none (textOf (lexemes ++ marks trail)).cells =
      (keyword.behind? (lexemes ++ marks trail)).map fun rest =>
        (textOf (lexemes ++ marks trail)).length - (textOf rest).length := by
  have hlexed := (hsolid.clean_padded (List.forall_mem_nil _) htrail).lexed
  rw [marks, List.map_nil, List.nil_append] at hlexed
  rw [hlexed.cells_textOf]
  exact Keyword.length?_cellsOf true hplain (startsBehind_none _) hlexed

end Fragment

namespace Layout

/-- A written list is read as its items, whatever blanks stand in front of it and
behind it. -/
theorem texts_splitList {layout : Layout} {items : List (List Lexeme)} {pad trail : Text}
    (hpad : ∀ c ∈ pad, isLayoutBlank c = true) (htrail : ∀ c ∈ trail, isLayoutBlank c = true)
    (hne : items ≠ []) (hitems : ∀ item ∈ items, Solid item ∧ Quiet [[',']] item) (start : Nat) :
    (Fragment.mk (pad ++ (textOf (spread (layout.gap items.length) items) ++ trail))
        start).splitList.map Fragment.text = items.map textOf :=
  have hgap := layout.isLayoutBlank_gap items.length
  Fragment.texts_splitList hpad hgap.2 hgap.1 htrail hne hitems start

theorem textOf_listLexemes_append (layout : Layout) (items : List (List Lexeme)) (trail : Text) :
    textOf (layout.listLexemes items) ++ trail =
      layout.gap items.length ++ (textOf (spread (layout.gap items.length) items) ++ trail) := by
  rw [listLexemes, textOf_append, textOf_marks, List.append_assoc]

end Layout

namespace SelectItem

/-- A list is read item by item behind `DISTINCT`, which may be missing. -/
theorem readList_of_texts {fragment list : Fragment} {items : List (List Lexeme)}
    {columns : List SelectItem} {count : Option Nat}
    (hreads : List.Forall₂ (ReadAs read) items columns)
    (hlist : fragment.skipAsciiBlanks = list)
    (hcount : Keyword.distinct.length? none list.text.cells = count)
    (htexts : (list.drop (count.getD 0)).splitList.map Fragment.text = items.map textOf) :
    readList fragment = .ok (count.isSome, columns) := by
  have hread := @mapM_of_texts _ ParseError read
    (fun item => .error (item.emptyItemError .emptySelectItem .select)) _ items columns
    htexts hreads
  rw [readList]
  simp only [hlist, hcount, hread]
  rfl

end SelectItem

/-! ## Parts -/

/-- The clauses in their order, without those of the optional ones that are absent. -/
def Clause.presentBut (noFilters noGroups noGroupFilters noOrders noPaging : Bool) :
    List Clause :=
  [Clause.select, Clause.from_] ++
    ((if noFilters then [] else [Clause.where_]) ++
      ((if noGroups then [] else [Clause.groupBy]) ++
        ((if noGroupFilters then [] else [Clause.having]) ++
          ((if noOrders then [] else [Clause.orderBy]) ++ if noPaging then [] else [Clause.paging]))))

namespace StatementParts

variable {parts : StatementParts} {query : Query} {layout : Layout} {trail : Text}

/-- The parts of a statement are read as the entries of a query, up to what its text cannot
show.  An entry of SELECT must not begin with a word that could be the one in front of it. -/
structure Reads (parts : StatementParts) (query : Query) : Prop where
  sound : parts.IsSound
  distinct : parts.distinct = query.distinct
  columns : List.Forall₂ (ReadAs SelectItem.read) parts.columns
    (query.columns.map SelectItem.canonical)
  heads : ∀ item ∈ parts.columns, ∀ lexeme ∈ item.head?, lexeme.label ≠ "DISTINCT".toList
  tables : List.Forall₂ (ReadAs (TableItem.read .from_)) parts.tables query.tables
  joins : List.Forall₂ Join.MarkedReads parts.joins query.joins
  filters : List.Forall₂ (Condition.LinkReads .where_) parts.filters query.filters
  groups : List.Forall₂ (ReadAs GroupItem.read) parts.groups query.groups
  groupFilters : List.Forall₂ (Condition.LinkReads .having) parts.groupFilters query.groupFilters
  orders : List.Forall₂ (ReadAs OrderItem.read) parts.orders query.orders
  paging : parts.paging = query.pagingEntries ∨ parts.paging = query.pagingEntries.reverse

/-- The items of a list, between commas. -/
theorem isItem {items : List (List Lexeme)}
    (hitems : ∀ item ∈ items, Solid item ∧ Quiet Lexeme.stops item) :
    ∀ item ∈ items, Solid item ∧ Quiet [[',']] item :=
  fun item hmem => (hitems item hmem).imp_right fun hquiet => hquiet.mono (by decide)

/-- The list of SELECT begins with its first entry. -/
theorem head?_spread {items : List (List Lexeme)} {gap : Text} {rest : List Lexeme}
    (hne : items ≠ []) (hitems : ∀ item ∈ items, item ≠ []) :
    ∃ first ∈ items, (spread gap items ++ rest).head? = first.head? := by
  cases items with
  | nil => exact absurd rfl hne
  | cons first others =>
      refine ⟨first, List.mem_cons_self, ?_⟩
      rw [spread, List.append_assoc,
        List.head?_append_of_ne_nil _ (hitems first List.mem_cons_self)]

/-- The body of SELECT is read back. -/
theorem readSelect (hreads : parts.Reads query) (htrail : ∀ c ∈ trail, isLayoutBlank c = true)
    (start : Nat) :
    SelectItem.readList ⟨textOf (parts.selectLexemes layout) ++ trail, start⟩ =
      .ok (query.distinct, query.columns.map SelectItem.canonical) := by
  have hne := hreads.sound.hasColumns
  have hitems := isItem hreads.sound.columns
  have hgap := layout.isLayoutBlank_gap parts.columns.length
  have htextList := layout.textOf_listLexemes_append parts.columns trail
  have hcases := hreads.distinct
  cases hdistinct : query.distinct with
  | true =>
      have hspace : ∀ c ∈ [' '], isLayoutBlank c = true := by simp [isLayoutBlank]
      have hword : Solid [word "DISTINCT".toList] := solid_keyword (by simp) rfl
      have hsolid := @solid_list layout _ _ hword hne hreads.sound.columns
      have hbody : textOf (parts.selectLexemes layout) ++ trail =
          [' '] ++ (textOf ([word "DISTINCT".toList] ++ layout.listLexemes parts.columns) ++
            trail) := by
        simp [selectLexemes, hcases, hdistinct, Lexeme.text]
      obtain ⟨place, hlist⟩ := @Fragment.skipAsciiBlanks_written _ _ trail hspace hsolid start
      have hbehind : Keyword.distinct.behind? ([word "DISTINCT".toList] ++
          layout.listLexemes parts.columns ++ marks trail) =
            some (layout.listLexemes parts.columns ++ marks trail) := rfl
      have hcount := @Fragment.length?_written .distinct _ trail rfl hsolid htrail
      rw [hbehind, Option.map_some, List.append_assoc, textOf_append, List.length_append,
        Nat.add_sub_cancel] at hcount
      rw [hbody]
      refine SelectItem.readList_of_texts hreads.columns hlist hcount ?_
      rw [Option.getD_some, Fragment.drop, List.append_assoc, textOf_append, List.drop_left,
        textOf_append, textOf_marks, htextList]
      exact layout.texts_splitList hgap.2 htrail hne hitems _
  | false =>
      have hsolid := solid_spread hgap.2 hne fun item hmem => (hitems item hmem).1
      have hbody : textOf (parts.selectLexemes layout) ++ trail =
          layout.gap parts.columns.length ++
            (textOf (spread (layout.gap parts.columns.length) parts.columns) ++ trail) := by
        rw [← htextList]
        simp [selectLexemes, hcases, hdistinct]
      obtain ⟨place, hlist⟩ := @Fragment.skipAsciiBlanks_written _ _ trail hgap.2 hsolid start
      have hcount := @Fragment.length?_written .distinct _ trail rfl hsolid htrail
      obtain ⟨first, hfirst, hhead⟩ := @head?_spread _ (layout.gap parts.columns.length)
        (marks trail) hne fun item hmem => (hitems item hmem).1.ne_nil
      rw [Keyword.behind?_eq_none rfl (hhead ▸ hreads.heads first hfirst),
        Option.map_none] at hcount
      have htexts := @Layout.texts_splitList layout _ [] trail (List.forall_mem_nil _) htrail hne
        hitems place
      rw [hbody]
      refine SelectItem.readList_of_texts hreads.columns hlist hcount ?_
      rw [textOf_append, textOf_marks]
      exact htexts

/-- The body of FROM is read back. -/
theorem readFrom (hreads : parts.Reads query) (htrail : ∀ c ∈ trail, isLayoutBlank c = true)
    (cursor : Cursor) (hposition : cursor.position = 0)
    (htext : cursor.text = textOf (parts.fromLexemes layout) ++ trail) :
    ∃ behind, TableItem.readList cursor = (.ok query.tables, behind) ∧
      (Join.readList behind).1 = .ok query.joins := by
  have hgap := layout.isLayoutBlank_gap parts.tables.length
  have hclean := (@solid_fromLexemes layout parts hreads.sound).clean_padded
    (List.forall_mem_nil _) htrail
  have hpieces : parts.fromLexemes layout ++ marks trail =
      marks (layout.gap parts.tables.length) ++
        (spread (layout.gap parts.tables.length) parts.tables ++
          Marked.lexemesOf (marks trail) parts.joins) := by
    simp [fromLexemes, Layout.listLexemes, Marked.lexemesOf]
  have hlexed : Lexed none (parts.fromLexemes layout ++ marks trail) := by
    have hwhole := hclean.lexed
    simp only [marks, List.map_nil, List.nil_append, List.cons_append] at hwhole
    exact hwhole.2.2
  have hbetween := Cursor.isBetween_nil (by rw [textOf_append, textOf_marks]; exact htext)
    hposition hlexed
  rw [hpieces] at hbetween
  obtain ⟨front, behind, htables, hbehind⟩ := TableItem.readList_of_texts hreads.sound.hasTables
    hreads.sound.tables hreads.tables hreads.joins hgap.2 hgap.1 htrail hbetween
  exact ⟨behind, htables, Join.readList_of_markedReads hreads.joins htrail hbehind⟩

theorem readGroups (hreads : parts.Reads query) (hne : parts.groups ≠ [])
    (htrail : ∀ c ∈ trail, isLayoutBlank c = true) (start : Nat) :
    GroupItem.readList ⟨textOf (layout.listLexemes parts.groups) ++ trail, start⟩ =
      .ok query.groups := by
  have hgap := layout.isLayoutBlank_gap parts.groups.length
  have htexts := layout.texts_splitList hgap.2 htrail hne (isItem hreads.sound.groups) start
  rw [layout.textOf_listLexemes_append]
  exact mapM_of_texts htexts hreads.groups

theorem readOrders (hreads : parts.Reads query) (hne : parts.orders ≠ [])
    (htrail : ∀ c ∈ trail, isLayoutBlank c = true) (start : Nat) :
    OrderItem.readList ⟨textOf (layout.listLexemes parts.orders) ++ trail, start⟩ =
      .ok query.orders := by
  have hgap := layout.isLayoutBlank_gap parts.orders.length
  have htexts := layout.texts_splitList hgap.2 htrail hne (isItem hreads.sound.orders) start
  rw [layout.textOf_listLexemes_append]
  exact mapM_of_texts htexts hreads.orders

/-- The numbers of a query are put into their places, in both orders of their keywords. -/
theorem foldl_put (hreads : parts.Reads query) :
    parts.paging.foldl Paging.put {} = ⟨query.limit, query.offset⟩ := by
  rcases hreads.paging with hpaging | hpaging <;> rw [hpaging, Query.pagingEntries] <;>
    cases query.limit <;> cases query.offset <;> rfl

theorem isEmpty_paging (hreads : parts.Reads query) :
    parts.paging.isEmpty = (query.limit.isNone && query.offset.isNone) := by
  rcases hreads.paging with hpaging | hpaging <;> rw [hpaging, Query.pagingEntries] <;>
    cases query.limit <;> cases query.offset <;> rfl

/-! ## Clauses -/

/-- What a clause holds behind its keyword; LIMIT and OFFSET are held with their
keywords. -/
def bodyOf (layout : Layout) (parts : StatementParts) : Clause → List Lexeme
  | .select => parts.selectLexemes layout
  | .from_ => parts.fromLexemes layout
  | .join => []
  | .where_ => layout.linkLexemes parts.filters
  | .groupBy => layout.listLexemes parts.groups
  | .having => layout.linkLexemes parts.groupFilters
  | .orderBy => layout.listLexemes parts.orders
  | .paging => Paging.lexemes parts.paging

/-- The clauses of a statement. -/
def clauses (parts : StatementParts) : List Clause :=
  Clause.presentBut parts.filters.isEmpty parts.groups.isEmpty parts.groupFilters.isEmpty
    parts.orders.isEmpty parts.paging.isEmpty

end StatementParts

namespace Query

/-- The clauses that are written of a query. -/
def writtenClauses (query : Query) : List Clause :=
  Clause.presentBut query.filters.isEmpty query.groups.isEmpty query.groupFilters.isEmpty
    query.orders.isEmpty (query.limit.isNone && query.offset.isNone)

/-- The query with the entries of a clause as another query has them. -/
def withClause (source query : Query) : Clause → Query
  | .select => { query with distinct := source.distinct, columns := source.columns }
  | .from_ => { query with tables := source.tables, joins := source.joins }
  | .join => query
  | .where_ => { query with filters := source.filters }
  | .groupBy => { query with groups := source.groups }
  | .having => { query with groupFilters := source.groupFilters }
  | .orderBy => { query with orders := source.orders }
  | .paging => { query with limit := source.limit, offset := source.offset }

/-- A clause that is left out may be taken as well, since it holds nothing. -/
theorem foldl_withClause_optional {source before : Query} {absent : Prop} [Decidable absent]
    {clause : Clause} (hsame : absent → source.withClause before clause = before) :
    (if absent then [] else [clause]).foldl source.withClause before =
      source.withClause before clause := by
  split
  next habsent => exact (hsame habsent).symm
  next => rfl

/-- The clauses that are written of a query hold all of it. -/
theorem foldl_withClause (query : Query) :
    query.writtenClauses.foldl query.withClause {} = query := by
  obtain ⟨columns, distinct, tables, joins, filters, groups, groupFilters, orders, limit, offset⟩ :=
    query
  rw [writtenClauses, Clause.presentBut, List.foldl_append, List.foldl_append, List.foldl_append,
    List.foldl_append, List.foldl_append, @foldl_withClause_optional _ _ _ _ .where_,
    @foldl_withClause_optional _ _ _ _ .groupBy, @foldl_withClause_optional _ _ _ _ .having,
    @foldl_withClause_optional _ _ _ _ .orderBy, @foldl_withClause_optional _ _ _ _ .paging]
  · rfl
  · intro habsent
    rw [Bool.and_eq_true, Option.isNone_iff_eq_none, Option.isNone_iff_eq_none] at habsent
    obtain ⟨rfl, rfl⟩ := habsent
    rfl
  · intro habsent
    obtain rfl := List.isEmpty_iff.mp habsent
    rfl
  · intro habsent
    obtain rfl := List.isEmpty_iff.mp habsent
    rfl
  · intro habsent
    obtain rfl := List.isEmpty_iff.mp habsent
    rfl
  · intro habsent
    obtain rfl := List.isEmpty_iff.mp habsent
    rfl

/-- A canonical query has the same clauses. -/
theorem writtenClauses_canonical (query : Query) :
    query.canonical.writtenClauses = query.writtenClauses := by
  have hempty : ∀ conditions : List Condition,
      (Condition.canonicalChain conditions).isEmpty = conditions.isEmpty := by
    intro conditions
    cases conditions <;> rfl
  simp only [writtenClauses, canonical, hempty]

end Query

theorem isEmpty_of_forall₂ {α β : Type} {holds : α → β → Prop} {first : List α}
    {second : List β} (hforall : List.Forall₂ holds first second) :
    first.isEmpty = second.isEmpty := by
  cases hforall <;> rfl

/-- A statement has the clauses of the query that it is read as. -/
theorem StatementParts.Reads.clauses_eq {parts : StatementParts} {query : Query}
    (hreads : parts.Reads query) : parts.clauses = query.writtenClauses := by
  rw [clauses, Query.writtenClauses, isEmpty_of_forall₂ hreads.filters,
    isEmpty_of_forall₂ hreads.groups, isEmpty_of_forall₂ hreads.groupFilters,
    isEmpty_of_forall₂ hreads.orders, isEmpty_paging hreads]

/-- A located clause that holds what is written of a statement; only LIMIT and OFFSET must
not have blanks behind them. -/
def LocatedClause.Holds (layout : Layout) (parts : StatementParts) (located : LocatedClause) :
    Prop :=
  ∃ trail, (∀ c ∈ trail, isLayoutBlank c = true) ∧ (located.clause = .paging → trail = []) ∧
    located.body.text = textOf (parts.bodyOf layout located.clause) ++ trail

namespace Statement

variable {parts : StatementParts} {query : Query} {layout : Layout}

/-- A clause is read back. -/
theorem readClause_of_holds {located : LocatedClause} (hreads : parts.Reads query)
    (hmem : located.clause ∈ parts.clauses) (hholds : located.Holds layout parts)
    (before : Query) :
    readClause before located = .ok (query.canonical.withClause before located.clause) := by
  obtain ⟨trail, htrail, hlast, htext⟩ := hholds
  obtain ⟨clause, keyword, ⟨text, start⟩⟩ := located
  simp only at htext hmem hlast
  subst htext
  rw [readClause]
  cases clause with
  | select =>
      have hread := @StatementParts.readSelect parts query layout trail hreads htrail start
      simp only [StatementParts.bodyOf, hread]
      rfl
  | from_ =>
      obtain ⟨behind, htables, hjoins⟩ := StatementParts.readFrom hreads htrail
        { text := textOf (parts.bodyOf layout .from_) ++ trail, offset := start,
          clause := some .from_ } rfl rfl
      simp only [htables, hjoins]
      rfl
  | join => rfl
  | where_ =>
      have hne : parts.filters ≠ [] := by
        simpa [StatementParts.clauses, Clause.presentBut] using hmem
      have hread := @Condition.readChain_of_linkReads .where_ layout _ _ trail hne hreads.filters
        htrail start
      simp only [StatementParts.bodyOf, hread]
      rfl
  | groupBy =>
      have hne : parts.groups ≠ [] := by
        simpa [StatementParts.clauses, Clause.presentBut] using hmem
      have hread := @StatementParts.readGroups parts query layout trail hreads hne htrail start
      simp only [StatementParts.bodyOf, hread]
      rfl
  | having =>
      have hne : parts.groupFilters ≠ [] := by
        simpa [StatementParts.clauses, Clause.presentBut] using hmem
      have hread := @Condition.readChain_of_linkReads .having layout _ _ trail hne
        hreads.groupFilters htrail start
      simp only [StatementParts.bodyOf, hread]
      rfl
  | orderBy =>
      have hne : parts.orders ≠ [] := by
        simpa [StatementParts.clauses, Clause.presentBut] using hmem
      have hread := @StatementParts.readOrders parts query layout trail hreads hne htrail start
      simp only [StatementParts.bodyOf, hread]
      rfl
  | paging =>
      obtain rfl := hlast rfl
      have hentries := StatementParts.keyword_of_mem hreads.sound.paging
      have hread := @Paging.read_lexemes
        { text := textOf (parts.bodyOf layout .paging) ++ [], offset := start,
          clause := some .paging } parts.paging hentries
        (Cursor.isBetween_nil (by rw [List.append_nil]; rfl) rfl
          (Paging.lexed_lexemes hentries))
      rw [StatementParts.foldl_put hreads] at hread
      simp only [hread]
      rfl

/-- Clauses are read back one after another. -/
theorem foldlM_readClause {clauses : List LocatedClause} (hreads : parts.Reads query)
    (hmem : ∀ located ∈ clauses, located.clause ∈ parts.clauses)
    (hholds : ∀ located ∈ clauses, located.Holds layout parts) (before : Query) :
    clauses.foldlM readClause before =
      .ok ((clauses.map LocatedClause.clause).foldl query.canonical.withClause before) := by
  induction clauses generalizing before with
  | nil => rfl
  | cons located clauses ih =>
      have hfirst := readClause_of_holds hreads (hmem located List.mem_cons_self)
        (hholds located List.mem_cons_self) before
      have hrest := ih (fun other hother => hmem other (List.mem_cons_of_mem located hother))
        (fun other hother => hholds other (List.mem_cons_of_mem located hother))
        (query.canonical.withClause before located.clause)
      rw [List.foldlM_cons, hfirst, List.map_cons, List.foldl_cons, ← hrest]
      rfl

end Statement

end SelectForm

import Mathlib
import SelectForm.Proofs.Sql.WrittenStatement

/-!
# The parts of a statement

A statement is put together from parts: the items of its lists, the links of its chains, its
joins and its numbers.  If every part is solid and holds no keyword but its own, the whole
statement is solid, and the keywords of clauses stand only where its row of clauses has them.

The parts of a query have several spellings.  The text that is written of a query has one of
them; every other text that is put together from spelled parts is a statement just the same.
-/

namespace SelectForm

open Lexeme

/-! ## Parts -/

/-- The parts of a statement. -/
structure StatementParts where
  distinct : Bool
  columns : List (List Lexeme)
  tables : List (List Lexeme)
  joins : List (Marked JoinMark)
  filters : List (Connector × ChainLink)
  groups : List (List Lexeme)
  groupFilters : List (Connector × ChainLink)
  orders : List (List Lexeme)
  /-- The keywords `LIMIT` and `OFFSET` with their numbers, in any order. -/
  paging : List (Keyword × UInt64)

namespace Layout

/-- A chain of links behind its keyword. -/
def linkLexemes (layout : Layout) : List (Connector × ChainLink) → List Lexeme
  | [] => []
  | first :: others => mark ' ' :: ChainLink.chain layout.continuation.toList first.2 others

theorem linkLexemes_map (layout : Layout) (conditions : List Condition) :
    layout.linkLexemes (conditions.map fun condition => (condition.connector, condition.link)) =
      layout.chainLexemes conditions := by
  cases conditions <;> rfl

end Layout

namespace StatementParts

open Query (clauseOf digits)

variable {layout : Layout} {parts : StatementParts}

/-- The body of SELECT. -/
def selectLexemes (layout : Layout) (parts : StatementParts) : List Lexeme :=
  (if parts.distinct then [mark ' ', word "DISTINCT".toList] else []) ++
    layout.listLexemes parts.columns

/-- The body of FROM. -/
def fromLexemes (layout : Layout) (parts : StatementParts) : List Lexeme :=
  layout.listLexemes parts.tables ++ Marked.lexemesOf [] parts.joins

/-- A number behind its keyword. -/
def pagingMarked (lead : List Lexeme) (entry : Keyword × UInt64) : Marked (String × Clause) :=
  ⟨lead, (entry.1.name, .paging), [word entry.1.name.toList], mark ' ' :: digits entry.2⟩

/-- LIMIT and OFFSET, one behind the other on one line. -/
def pagingRow (layout : Layout) : List (Keyword × UInt64) → List (Marked (String × Clause))
  | [] => []
  | first :: others =>
    pagingMarked (marks layout.separator.toList) first :: others.map (pagingMarked [mark ' '])

/-- The clauses between FROM and LIMIT. -/
def middleRow (layout : Layout) (parts : StatementParts) : List (Marked (String × Clause)) :=
  (if parts.filters.isEmpty then [] else
    [clauseOf layout .where_ .where_ [word "WHERE".toList] (layout.linkLexemes parts.filters)]) ++
  (if parts.groups.isEmpty then [] else
    [clauseOf layout .groupBy .groupBy [word "GROUP".toList, mark ' ', word "BY".toList]
      (layout.listLexemes parts.groups)]) ++
  (if parts.groupFilters.isEmpty then [] else
    [clauseOf layout .having .having [word "HAVING".toList]
      (layout.linkLexemes parts.groupFilters)]) ++
  (if parts.orders.isEmpty then [] else
    [clauseOf layout .orderBy .orderBy [word "ORDER".toList, mark ' ', word "BY".toList]
      (layout.listLexemes parts.orders)])

/-- The clauses behind SELECT. -/
def clauseRow (layout : Layout) (parts : StatementParts) : List (Marked (String × Clause)) :=
  clauseOf layout .from_ .from_ [word "FROM".toList] (parts.fromLexemes layout) ::
    (parts.middleRow layout ++ pagingRow layout parts.paging)

/-- The whole statement as a row of clauses. -/
def statementRow (layout : Layout) (parts : StatementParts) : List (Marked (String × Clause)) :=
  ⟨[], (Keyword.select.name, .select), [word "SELECT".toList], parts.selectLexemes layout⟩ ::
    parts.clauseRow layout

def lexemes (layout : Layout) (parts : StatementParts) : List Lexeme :=
  Marked.lexemesOf [] (parts.statementRow layout)

theorem lexemes_eq (layout : Layout) (parts : StatementParts) :
    parts.lexemes layout = [word "SELECT".toList] ++
      (parts.selectLexemes layout ++ Marked.lexemesOf [] (parts.clauseRow layout)) := by
  rw [lexemes, statementRow, Marked.lexemesOf_cons]
  rfl

/-- The labels that stand in no clause behind its keyword. -/
def bodyStops : List Text :=
  ["EXCEPT", "FROM", "GROUP", "HAVING", "INTERSECT", "LIMIT", "OFFSET", "ORDER", "OVER",
    "SELECT", "UNION", "WHERE", "WITH"].map String.toList ++ [[';'], ['?']]

/-- Every part is solid and holds no keyword but its own. -/
structure IsSound (parts : StatementParts) : Prop where
  hasColumns : parts.columns ≠ []
  hasTables : parts.tables ≠ []
  columns : ∀ item ∈ parts.columns, Solid item ∧ Quiet stops item
  tables : ∀ item ∈ parts.tables, Solid item ∧ Quiet stops item
  joins : ∀ marked ∈ parts.joins, marked.IsSolid ∧ Quiet bodyStops (marked.mark ++ marked.body)
  filters : ∀ entry ∈ parts.filters,
    entry.2.IsProper ∧ Quiet Condition.outerStops entry.2.lexemes
  groups : ∀ item ∈ parts.groups, Solid item ∧ Quiet stops item
  groupFilters : ∀ entry ∈ parts.groupFilters,
    entry.2.IsProper ∧ Quiet Condition.outerStops entry.2.lexemes
  orders : ∀ item ∈ parts.orders, Solid item ∧ Quiet stops item
  paging : parts.paging.map Prod.fst ∈
    [[], [Keyword.limit], [.offset], [.limit, .offset], [.offset, .limit]]

/-! ## Solid statements -/

theorem solid_list {items : List (List Lexeme)} (word : List Lexeme) (hword : Solid word)
    (hne : items ≠ []) (hitems : ∀ item ∈ items, Solid item ∧ Quiet stops item) :
    Solid (word ++ layout.listLexemes items) := by
  have hgap := layout.isLayoutBlank_gap items.length
  exact hword.glue (solid_spread hgap.2 hne fun item hmem => (hitems item hmem).1) hgap.1
    fun c hc => (isSpacer_of_isLayoutBlank (hgap.2 c hc)).1

theorem solid_links {links : List (Connector × ChainLink)} (word : List Lexeme)
    (hword : Solid word) (hne : links ≠ []) (hlinks : ∀ entry ∈ links, entry.2.IsProper) :
    Solid (word ++ layout.linkLexemes links) := by
  have hgap := layout.isLayoutBlank_continuation
  cases links with
  | nil => exact absurd rfl hne
  | cons first others =>
      exact hword.glue_space (ChainLink.solid_chain hgap.2 hgap.1
        (hlinks first List.mem_cons_self) fun other hmem =>
          hlinks other (List.mem_cons_of_mem first hmem))

theorem isSolid_clauseOf {keyword : Keyword} {clause : Clause} {mark body : List Lexeme}
    (hsolid : Solid (mark ++ body)) : (clauseOf layout keyword clause mark body).IsSolid :=
  ⟨hsolid, layout.separator.toList, layout.isLayoutBlank_separator.1,
    layout.isLayoutBlank_separator.2, rfl⟩

theorem solid_selectLexemes (hsound : parts.IsSound) :
    Solid (word "SELECT".toList :: parts.selectLexemes layout) := by
  have hselect : Solid [word "SELECT".toList] := solid_keyword (by simp) rfl
  have hdistinct : Solid [word "DISTINCT".toList] := solid_keyword (by simp) rfl
  rw [selectLexemes]
  cases parts.distinct with
  | true =>
      have hsolid := @solid_list layout _ _ (hselect.glue_space hdistinct) hsound.hasColumns
        hsound.columns
      simpa using hsolid
  | false =>
      have hsolid := @solid_list layout _ _ hselect hsound.hasColumns hsound.columns
      simpa using hsolid

theorem solid_fromLexemes (hsound : parts.IsSound) :
    Solid (word "FROM".toList :: parts.fromLexemes layout) := by
  have hfrom : Solid [word "FROM".toList] := solid_keyword (by simp) rfl
  exact Marked.solid_row (solid_list [word "FROM".toList] hfrom hsound.hasTables hsound.tables)
    fun marked hmem => (hsound.joins marked hmem).1

theorem keyword_of_mem {entries : List (Keyword × UInt64)}
    (hentries : entries.map Prod.fst ∈
      [[], [Keyword.limit], [.offset], [.limit, .offset], [.offset, .limit]]) :
    ∀ entry ∈ entries, entry.1 = Keyword.limit ∨ entry.1 = .offset := by
  have hkeys : ∀ keys ∈ [[], [Keyword.limit], [.offset], [.limit, .offset], [.offset, .limit]],
      ∀ key ∈ keys, key = Keyword.limit ∨ key = .offset := by decide
  exact fun entry hmem => hkeys _ hentries _ (List.mem_map_of_mem hmem)

theorem forall_mem_pagingRow {holds : Marked (String × Clause) → Prop}
    {entries : List (Keyword × UInt64)}
    (hentries : entries.map Prod.fst ∈
      [[], [Keyword.limit], [.offset], [.limit, .offset], [.offset, .limit]])
    (hholds : ∀ lead keyword number, lead = layout.separator.toList ∨ lead = [' '] →
      keyword = Keyword.limit ∨ keyword = .offset →
        holds (pagingMarked (marks lead) (keyword, number))) :
    ∀ marked ∈ pagingRow layout entries, holds marked := by
  have hkeyword := keyword_of_mem hentries
  cases entries with
  | nil => exact List.forall_mem_nil _
  | cons first others =>
      obtain ⟨hfirst, hothers⟩ := List.forall_mem_cons.mp hkeyword
      refine List.forall_mem_cons.mpr ⟨hholds _ first.1 first.2 (.inl rfl) hfirst, ?_⟩
      refine List.forall_mem_map.mpr fun entry hmem => ?_
      exact hholds [' '] entry.1 entry.2 (.inr rfl) (hothers entry hmem)

/-- What holds of every clause that a statement may have holds of all clauses behind
SELECT. -/
theorem forall_mem_clauseRow {holds : Marked (String × Clause) → Prop} (hsound : parts.IsSound)
    (hfrom : holds (clauseOf layout .from_ .from_ [word "FROM".toList]
      (parts.fromLexemes layout)))
    (hwhere : parts.filters ≠ [] → holds (clauseOf layout .where_ .where_
      [word "WHERE".toList] (layout.linkLexemes parts.filters)))
    (hgroup : parts.groups ≠ [] → holds (clauseOf layout .groupBy .groupBy
      [word "GROUP".toList, mark ' ', word "BY".toList] (layout.listLexemes parts.groups)))
    (hhaving : parts.groupFilters ≠ [] → holds (clauseOf layout .having .having
      [word "HAVING".toList] (layout.linkLexemes parts.groupFilters)))
    (horder : parts.orders ≠ [] → holds (clauseOf layout .orderBy .orderBy
      [word "ORDER".toList, mark ' ', word "BY".toList] (layout.listLexemes parts.orders)))
    (hpaging : ∀ lead keyword number, lead = layout.separator.toList ∨ lead = [' '] →
      keyword = Keyword.limit ∨ keyword = .offset →
        holds (pagingMarked (marks lead) (keyword, number))) :
    ∀ marked ∈ parts.clauseRow layout, holds marked := by
  have hoptional : ∀ {empty : Bool} {marked candidate : Marked (String × Clause)},
      (empty = false → holds candidate) → marked ∈ (if empty then [] else [candidate]) →
        holds marked := by
    intro empty marked candidate hholds hmem
    cases empty with
    | true => simp at hmem
    | false => exact List.mem_singleton.mp hmem ▸ hholds rfl
  intro marked hmem
  simp only [clauseRow, middleRow, List.mem_cons, List.mem_append] at hmem
  rcases hmem with rfl | (((hmem | hmem) | hmem) | hmem) | hmem
  · exact hfrom
  · exact hoptional (fun hne => hwhere (by simpa using hne)) hmem
  · exact hoptional (fun hne => hgroup (by simpa using hne)) hmem
  · exact hoptional (fun hne => hhaving (by simpa using hne)) hmem
  · exact hoptional (fun hne => horder (by simpa using hne)) hmem
  · exact forall_mem_pagingRow hsound.paging hpaging marked hmem

/-- Every clause behind SELECT is solid. -/
theorem isSolid_clauseRow (hsound : parts.IsSound) :
    ∀ marked ∈ parts.clauseRow layout, marked.IsSolid := by
  have hby : Solid [word "BY".toList] := solid_keyword (by simp) rfl
  have hgroup : Solid [word "GROUP".toList] := solid_keyword (by simp) rfl
  have horder : Solid [word "ORDER".toList] := solid_keyword (by simp) rfl
  have hwhere : Solid [word "WHERE".toList] := solid_keyword (by simp) rfl
  have hhaving : Solid [word "HAVING".toList] := solid_keyword (by simp) rfl
  refine forall_mem_clauseRow hsound ?_ ?_ ?_ ?_ ?_ ?_
  · exact isSolid_clauseOf (solid_fromLexemes hsound)
  · intro hne
    exact isSolid_clauseOf (solid_links _ hwhere hne fun entry hmem =>
      (hsound.filters entry hmem).1)
  · intro hne
    exact isSolid_clauseOf (solid_list _ (hgroup.glue_space hby) hne hsound.groups)
  · intro hne
    exact isSolid_clauseOf (solid_links _ hhaving hne fun entry hmem =>
      (hsound.groupFilters entry hmem).1)
  · intro hne
    exact isSolid_clauseOf (solid_list _ (horder.glue_space hby) hne hsound.orders)
  · intro lead keyword number hlead hkeyword
    have hword : Solid [word keyword.name.toList] := by
      rcases hkeyword with rfl | rfl <;> exact solid_keyword (by decide) rfl
    have hblank := layout.isLayoutBlank_separator
    refine ⟨hword.glue_space (Query.solid_digits number), lead, ?_, ?_, rfl⟩ <;>
      rcases hlead with rfl | rfl
    · exact hblank.1
    · simp
    · exact hblank.2
    · simp [isLayoutBlank]

theorem solid_lexemes (hsound : parts.IsSound) : Solid (parts.lexemes layout) := by
  have hsolid := Marked.solid_row (@solid_selectLexemes layout parts hsound)
    (@isSolid_clauseRow layout parts hsound)
  rw [lexemes_eq]
  simpa using hsolid

/-! ## Quiet statements -/

theorem quiet_gap {gap : Text} (hgap : ∀ c ∈ gap, isLayoutBlank c = true) :
    Quiet bodyStops (marks gap) :=
  quiet_marks hgap (by decide) (by decide)

theorem quiet_list {items : List (List Lexeme)}
    (hitems : ∀ item ∈ items, Solid item ∧ Quiet stops item) :
    Quiet bodyStops (layout.listLexemes items) := by
  have hgap := quiet_gap (layout.isLayoutBlank_gap items.length).2
  exact quiet_append.mpr ⟨hgap, quiet_spread (by decide) hgap fun item hmem =>
    (hitems item hmem).2.mono (by decide)⟩

theorem quiet_links {links : List (Connector × ChainLink)}
    (hlinks : ∀ entry ∈ links, entry.2.IsProper ∧ Quiet Condition.outerStops entry.2.lexemes) :
    Quiet bodyStops (layout.linkLexemes links) := by
  have hgap := quiet_gap layout.isLayoutBlank_continuation.2
  have hquiet := fun entry hmem => (hlinks entry hmem).2.mono
    (by decide : bodyStops ⊆ Condition.outerStops)
  have hspace : (mark ' ').label ∉ bodyStops := by decide
  cases links with
  | nil => exact quiet_nil _
  | cons first others =>
      refine quiet_cons.mpr ⟨hspace, quiet_append.mpr ⟨hquiet first List.mem_cons_self, ?_⟩⟩
      intro lexeme hmem
      simp only [List.mem_flatMap, List.mem_append, List.mem_cons] at hmem
      obtain ⟨entry, hentry, hmem | rfl | rfl | hmem⟩ := hmem
      · exact hgap lexeme hmem
      · cases entry.1 <;> decide
      · exact hspace
      · exact hquiet entry (List.mem_cons_of_mem first hentry) lexeme hmem

theorem quiet_selectLexemes (hsound : parts.IsSound) :
    Quiet bodyStops (parts.selectLexemes layout) := by
  refine quiet_append.mpr ⟨?_, quiet_list hsound.columns⟩
  split
  · exact quiet_cons.mpr ⟨by decide, quiet_cons.mpr ⟨by decide, quiet_nil _⟩⟩
  · exact quiet_nil _

theorem quiet_fromLexemes (hsound : parts.IsSound) :
    Quiet bodyStops (parts.fromLexemes layout) := by
  refine quiet_append.mpr ⟨quiet_list hsound.tables, Marked.quiet_lexemesOf fun marked hmem => ?_⟩
  obtain ⟨⟨-, gap, -, hgap, hlead⟩, hquiet⟩ := hsound.joins marked hmem
  rw [hlead]
  exact quiet_append.mpr ⟨quiet_gap hgap, hquiet⟩

theorem quiet_clauseRow (hsound : parts.IsSound) :
    ∀ marked ∈ parts.clauseRow layout,
      Quiet bodyStops marked.lead ∧ Quiet bodyStops marked.body := by
  have hlead := quiet_gap layout.isLayoutBlank_separator.2
  refine forall_mem_clauseRow hsound ?_ ?_ ?_ ?_ ?_ ?_
  · exact ⟨hlead, quiet_fromLexemes hsound⟩
  · exact fun _ => ⟨hlead, quiet_links hsound.filters⟩
  · exact fun _ => ⟨hlead, quiet_list hsound.groups⟩
  · exact fun _ => ⟨hlead, quiet_links hsound.groupFilters⟩
  · exact fun _ => ⟨hlead, quiet_list hsound.orders⟩
  · intro lead keyword number hcases _
    refine ⟨?_, quiet_cons.mpr ⟨by decide, (Query.quiet_digits number).mono (by decide)⟩⟩
    rcases hcases with rfl | rfl
    · exact hlead
    · exact quiet_cons.mpr ⟨by decide, quiet_nil _⟩

/-- The labels that stand nowhere behind the first word of a statement. -/
def foreignStops : List Text :=
  ["EXCEPT", "INTERSECT", "OVER", "SELECT", "UNION", "WITH"].map String.toList ++ [[';'], ['?']]

/-- Behind its first word a statement holds no second SELECT and no construct beyond
the language. -/
theorem quiet_rest (hsound : parts.IsSound) :
    Quiet foreignStops
      (parts.selectLexemes layout ++ Marked.lexemesOf [] (parts.clauseRow layout)) := by
  have hsubset : foreignStops ⊆ bodyStops := by decide
  have hmark : ∀ marked ∈ parts.clauseRow layout, Quiet foreignStops marked.mark := by
    refine forall_mem_clauseRow hsound ?_ ?_ ?_ ?_ ?_ ?_
    · exact quiet_cons.mpr ⟨by decide, quiet_nil _⟩
    · exact fun _ => quiet_cons.mpr ⟨by decide, quiet_nil _⟩
    · exact fun _ => quiet_cons.mpr ⟨by decide, quiet_cons.mpr ⟨by decide,
        quiet_cons.mpr ⟨by decide, quiet_nil _⟩⟩⟩
    · exact fun _ => quiet_cons.mpr ⟨by decide, quiet_nil _⟩
    · exact fun _ => quiet_cons.mpr ⟨by decide, quiet_cons.mpr ⟨by decide,
        quiet_cons.mpr ⟨by decide, quiet_nil _⟩⟩⟩
    · intro lead keyword number _ hkeyword
      have hnames : ∀ keyword ∈ [Keyword.limit, .offset],
          (word keyword.name.toList).label ∉ foreignStops := by decide
      exact quiet_cons.mpr ⟨hnames keyword (by simpa using hkeyword), quiet_nil _⟩
  refine quiet_append.mpr ⟨(quiet_selectLexemes hsound).mono hsubset,
    Marked.quiet_lexemesOf fun marked hmem => ?_⟩
  have hquiet := quiet_clauseRow hsound marked hmem
  exact quiet_append.mpr ⟨hquiet.1.mono hsubset, quiet_append.mpr ⟨hmark marked hmem,
    hquiet.2.mono hsubset⟩⟩

end StatementParts

/-! ## Spellings -/

namespace Query

/-- The choices that the text of a query leaves, place by place: words that may be left out,
the spellings of joins and conditions, and the order of LIMIT and OFFSET. -/
structure Spelling where
  /-- Whether `AS` stands in front of the alias of an entry of SELECT. -/
  columns : Nat → Bool
  /-- Whether `AS` stands in front of the alias of a table of FROM. -/
  tables : Nat → Bool
  joins : Nat → Join.Spelling
  filters : Nat → Condition.Spelling
  groupFilters : Nat → Condition.Spelling
  /-- Whether `ASC` stands behind an entry of ORDER BY that is ascending. -/
  orders : Nat → Bool
  offsetFirst : Bool
  /-- Whether a semicolon ends the statement. -/
  semicolon : Bool

/-- LIMIT and OFFSET with their numbers. -/
def pagingEntries (query : Query) : List (Keyword × UInt64) :=
  query.limit.toList.map (Keyword.limit, ·) ++ query.offset.toList.map (Keyword.offset, ·)

/-- The links of some conditions in their spellings. -/
def spelledLinks (spellings : Nat → Condition.Spelling) (conditions : List Condition) :
    List (Connector × ChainLink) :=
  conditions.mapIdx fun place condition =>
    (condition.connector, condition.spelledLink (spellings place))

/-- The parts of a query in a spelling. -/
def spelledParts (layout : Layout) (spelling : Spelling) (query : Query) : StatementParts where
  distinct := query.distinct
  columns := query.columns.mapIdx fun place item =>
    item.spelledLexemes (spelling.columns place)
  tables := query.tables.mapIdx fun place table =>
    table.spelledLexemes (spelling.tables place)
  joins := query.joins.mapIdx fun place join =>
    join.spelledMarked layout.separator.toList (spelling.joins place)
  filters := spelledLinks spelling.filters query.filters
  groups := query.groups.map fun item => item.term.lexemes
  groupFilters := spelledLinks spelling.groupFilters query.groupFilters
  orders := query.orders.mapIdx fun place item => item.spelledLexemes (spelling.orders place)
  paging := if spelling.offsetFirst then query.pagingEntries.reverse else query.pagingEntries

/-- The text of a query in a spelling, without line breaks and comments. -/
def spell (spelling : Spelling) (query : Query) : String :=
  String.ofList (textOf ((query.spelledParts .compact spelling).lexemes .compact) ++
    if spelling.semicolon then [';'] else [])

variable {layout : Layout} {spelling : Spelling} {query : Query}

theorem forall_spelledLinks {clause : Clause} {conditions : List Condition}
    {spellings : Nat → Condition.Spelling}
    (hconditions : ∀ condition ∈ conditions, condition.IsWritten clause) :
    ∀ entry ∈ spelledLinks spellings conditions,
      entry.2.IsProper ∧ Quiet Condition.outerStops entry.2.lexemes := by
  intro entry hmem
  obtain ⟨place, hplace, rfl⟩ := List.mem_mapIdx.mp hmem
  have hcondition := hconditions _ (List.getElem_mem hplace)
  rw [Condition.lexemes_spelledLink]
  exact ⟨Condition.isProper_spelledLink hcondition, Condition.quiet_outer hcondition⟩

theorem isSolid_spelledMarked {join : Join} {spelling : Join.Spelling}
    (hwritten : join.IsWritten) :
    (join.spelledMarked layout.separator.toList spelling).IsSolid ∧
      Quiet StatementParts.bodyStops
        (join.kind.spelledLexemes spelling.long ++ join.spelledBody spelling) := by
  have hkind : Quiet StatementParts.bodyStops (join.kind.spelledLexemes spelling.long) := by
    cases join.kind <;> cases spelling.long <;>
      simp only [JoinKind.spelledLexemes, quiet_cons, quiet_nil, if_true, Bool.false_eq_true,
        if_false] <;>
      decide
  exact ⟨⟨Join.solid_spelledBody hwritten, layout.separator.toList,
    layout.isLayoutBlank_separator.1, layout.isLayoutBlank_separator.2, rfl⟩,
    quiet_append.mpr ⟨hkind, Join.quiet_spelledBody hwritten (by decide) (by decide)⟩⟩

/-- The parts of a query that can be written are sound in every spelling. -/
theorem isSound_spelledParts (hwritten : query.IsWritten) :
    (query.spelledParts layout spelling).IsSound := by
  constructor
  · simpa [spelledParts] using hwritten.hasColumns
  · simpa [spelledParts] using hwritten.hasTables
  · intro item hmem
    obtain ⟨place, hplace, rfl⟩ := List.mem_mapIdx.mp hmem
    have hitem := hwritten.columns _ (List.getElem_mem hplace)
    exact ⟨SelectItem.solid_spelledLexemes hitem _, SelectItem.quiet_spelledLexemes hitem _⟩
  · intro item hmem
    obtain ⟨place, hplace, rfl⟩ := List.mem_mapIdx.mp hmem
    have htable := hwritten.tables _ (List.getElem_mem hplace)
    exact ⟨TableItem.solid_spelledLexemes htable _, TableItem.quiet_spelledLexemes htable _⟩
  · intro marked hmem
    obtain ⟨place, hplace, rfl⟩ := List.mem_mapIdx.mp hmem
    exact isSolid_spelledMarked (hwritten.joins _ (List.getElem_mem hplace))
  · exact forall_spelledLinks fun condition hmem => (hwritten.filters condition hmem).1
  · intro item hmem
    obtain ⟨group, hgroup, rfl⟩ := List.mem_map.mp hmem
    have hterm := (hwritten.groups group hgroup).1
    exact ⟨ColumnTerm.solid_lexemes hterm, ColumnTerm.quiet_lexemes hterm⟩
  · exact forall_spelledLinks hwritten.groupFilters
  · intro item hmem
    obtain ⟨place, hplace, rfl⟩ := List.mem_mapIdx.mp hmem
    have hterm := hwritten.orders _ (List.getElem_mem hplace)
    exact ⟨OrderItem.solid_spelledLexemes hterm _, OrderItem.quiet_spelledLexemes hterm _⟩
  · rw [spelledParts, pagingEntries]
    cases query.limit <;> cases query.offset <;> cases spelling.offsetFirst <;> simp

/-! ### The spelling in which a query is written -/

/-- The spelling in which a query is written. -/
def plain (query : Query) : Spelling where
  columns := fun _ => true
  tables := fun _ => false
  joins := fun place => { long := query.joins[place]?.any fun join => join.kind.isLong }
  filters := fun _ => {}
  groupFilters := fun _ => {}
  orders := fun _ => false
  offsetFirst := false
  semicolon := false

theorem mapIdx_eq_map {α β : Type} {items : List α} {spelled : Nat → α → β} {written : α → β}
    (hplain : ∀ place item, items[place]? = some item → spelled place item = written item) :
    items.mapIdx spelled = items.map written := by
  refine List.ext_getElem (by simp) fun place hplace _ => ?_
  rw [List.getElem_mapIdx, List.getElem_map]
  exact hplain place _ (List.getElem?_eq_getElem _)

theorem spelledLinks_plain (conditions : List Condition) :
    spelledLinks (fun _ => {}) conditions =
      conditions.map fun condition => (condition.connector, condition.link) :=
  mapIdx_eq_map fun _ condition _ => by rw [condition.spelledLink_plain]

/-- The text that is written of a query is one of its spellings. -/
theorem lexemes_spelledParts_plain (layout : Layout) (query : Query) :
    (query.spelledParts layout query.plain).lexemes layout = query.lexemes layout := by
  have hcolumns : (query.spelledParts layout query.plain).columns =
      query.columns.map SelectItem.lexemes :=
    mapIdx_eq_map fun _ item _ => item.spelledLexemes_plain
  have htables : (query.spelledParts layout query.plain).tables =
      query.tables.map TableItem.lexemes :=
    mapIdx_eq_map fun _ table _ => table.spelledLexemes_plain
  have hjoins : (query.spelledParts layout query.plain).joins = query.joinRow layout := by
    refine mapIdx_eq_map fun place join hjoin => ?_
    rw [← Join.spelledMarked_plain]
    simp [plain, hjoin]
  have horders : (query.spelledParts layout query.plain).orders =
      query.orders.map OrderItem.lexemes :=
    mapIdx_eq_map fun _ item _ => item.spelledLexemes_plain
  have hfilters : layout.linkLexemes (query.spelledParts layout query.plain).filters =
      layout.chainLexemes query.filters := by
    rw [← Layout.linkLexemes_map, ← spelledLinks_plain]
    rfl
  have hgroupFilters : layout.linkLexemes (query.spelledParts layout query.plain).groupFilters =
      layout.chainLexemes query.groupFilters := by
    rw [← Layout.linkLexemes_map, ← spelledLinks_plain]
    rfl
  have hpaging : StatementParts.pagingRow layout (query.spelledParts layout query.plain).paging =
      query.pagingRow layout := by
    rw [spelledParts, plain, pagingEntries, pagingRow]
    cases query.limit <;> cases query.offset <;> rfl
  have hempty : ∀ spellings conditions,
      (spelledLinks spellings conditions).isEmpty = conditions.isEmpty := by
    intro spellings conditions
    rw [Bool.eq_iff_iff, List.isEmpty_iff, List.isEmpty_iff]
    simp [spelledLinks]
  rw [StatementParts.lexemes, StatementParts.statementRow, StatementParts.clauseRow,
    StatementParts.middleRow, StatementParts.selectLexemes, StatementParts.fromLexemes, hcolumns,
    htables, hjoins, horders, hfilters, hgroupFilters, hpaging]
  simp only [lexemes, statementRow, clauseRow, middleRow, selectLexemes, tableLexemes,
    spelledParts, hempty, List.isEmpty_map]
  rfl

theorem solid_lexemes {query : Query} {layout : Layout} (hwritten : query.IsWritten) :
    Solid (query.lexemes layout) :=
  lexemes_spelledParts_plain layout query ▸
    StatementParts.solid_lexemes (isSound_spelledParts hwritten)

end Query

end SelectForm

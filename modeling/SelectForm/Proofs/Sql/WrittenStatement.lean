import Mathlib
import SelectForm.Proofs.Sql.WrittenItem

/-!
# Written statements

A statement is written as a row of clauses, each behind its keyword, and FROM
holds a row of joins.  This file takes the text of a query under a layout apart
into pieces, clause by clause.
-/

namespace SelectForm

open Lexeme

/-! ## Layouts -/

namespace Layout

/-- What stands in front of an entry of a list. -/
def gap (layout : Layout) (count : Nat) : Text :=
  if layout.multiline && 1 < count then '\n' :: layout.indent.toList else [' ']

/-- A list behind its keyword. -/
def listLexemes (layout : Layout) (items : List (List Lexeme)) : List Lexeme :=
  marks (layout.gap items.length) ++ spread (layout.gap items.length) items

/-- A chain of conditions behind its keyword. -/
def chainLexemes (layout : Layout) : List Condition → List Lexeme
  | [] => []
  | first :: others =>
    mark ' ' :: ChainLink.chain layout.continuation.toList first.link
      (others.map fun condition => (condition.connector, condition.link))

theorem isLayoutBlank_indent (layout : Layout) :
    ∀ c ∈ layout.indent.toList, isLayoutBlank c = true := by
  intro c hc
  rw [indent, String.toList_ofList] at hc
  rw [List.eq_of_mem_replicate hc]
  rfl

theorem isLayoutBlank_gap (layout : Layout) (count : Nat) :
    layout.gap count ≠ [] ∧ ∀ c ∈ layout.gap count, isLayoutBlank c = true := by
  rw [gap]
  split
  · exact ⟨by simp, List.forall_mem_cons.mpr ⟨rfl, layout.isLayoutBlank_indent⟩⟩
  · exact ⟨by simp, by simp [isLayoutBlank]⟩

theorem isLayoutBlank_continuation (layout : Layout) :
    layout.continuation.toList ≠ [] ∧
      ∀ c ∈ layout.continuation.toList, isLayoutBlank c = true := by
  rw [continuation]
  split
  · rw [String.toList_append]
    exact ⟨by simp, List.forall_mem_cons.mpr ⟨rfl, layout.isLayoutBlank_indent⟩⟩
  · exact ⟨by simp, by simp [isLayoutBlank]⟩

theorem isLayoutBlank_separator (layout : Layout) :
    layout.separator.toList ≠ [] ∧ ∀ c ∈ layout.separator.toList, isLayoutBlank c = true := by
  rw [separator]
  split <;> exact ⟨by simp, by simp [isLayoutBlank]⟩

theorem textOf_listLexemes {layout : Layout} {items : List (List Lexeme)}
    {entries : List String} (keyword : String)
    (hitems : items.map textOf = entries.map String.toList) :
    keyword.toList ++ textOf (layout.listLexemes items) =
      (layout.renderList keyword entries).toList := by
  have hlength : items.length = entries.length := by
    have hlengths := congrArg List.length hitems
    simpa using hlengths
  rw [listLexemes, renderList, textOf_append, textOf_marks, textOf_spread, hitems, gap, hlength]
  split
  next hmany =>
    have hindent : ∀ (indent : Text) (texts : List Text), texts ≠ [] →
        indent ++ (',' :: '\n' :: indent).intercalate texts =
          [',', '\n'].intercalate (texts.map (indent ++ ·)) := by
      intro indent texts hne
      induction texts with
      | nil => exact absurd rfl hne
      | cons first others ih =>
          cases others with
          | nil => simp [List.intercalate_singleton]
          | cons second others =>
              have hrest := ih (by simp)
              rw [List.map_cons, List.map_cons, List.intercalate_cons_cons,
                List.intercalate_cons_cons, ← List.map_cons, ← hrest]
              simp
    have hne : entries.map String.toList ≠ [] := by
      intro hnil
      rw [List.map_eq_nil_iff] at hnil
      simp [hnil] at hmany
    have htexts := hindent layout.indent.toList (entries.map String.toList) hne
    simp only [String.toList_append, String.toList_intercalate, List.map_map,
      List.cons_append, htexts]
    simp [Function.comp_def]
  next => simp [String.toList_intercalate]

theorem textOf_chainLexemes (layout : Layout) (keyword : String)
    (conditions : List Condition) :
    keyword.toList ++ textOf (layout.chainLexemes conditions) =
      (layout.renderConditions keyword conditions).toList := by
  have hcondition := Condition.textOf_lexemes
  cases conditions with
  | nil => simp [chainLexemes, renderConditions]
  | cons first others =>
      simp [chainLexemes, renderConditions, ChainLink.textOf_chain, Condition.lexemes_link,
        hcondition, List.flatMap_map, String.toList_join, text]

end Layout

/-! ## Statements -/

namespace Marked

variable {α : Type}

/-- A marked body that is solid together with its mark, behind a gap. -/
structure IsSolid (marked : Marked α) : Prop where
  solid : Solid (marked.mark ++ marked.body)
  lead : ∃ gap : Text, gap ≠ [] ∧ (∀ c ∈ gap, isLayoutBlank c = true) ∧
    marked.lead = marks gap

/-- A solid piece with a row of solid bodies behind it. -/
theorem solid_row {front : List Lexeme} {row : List (Marked α)} (hfront : Solid front)
    (hrow : ∀ marked ∈ row, marked.IsSolid) : Solid (front ++ lexemesOf [] row) := by
  induction row generalizing front with
  | nil => simpa [lexemesOf] using hfront
  | cons marked row ih =>
      obtain ⟨hsolid, gap, hne, hgap, hlead⟩ := hrow marked (by simp)
      have hnext := ih (hfront.glue hsolid hne fun c hc =>
        (isSpacer_of_isLayoutBlank (hgap c hc)).1) fun other hmem =>
          hrow other (List.mem_cons_of_mem marked hmem)
      rw [lexemesOf_cons, hlead]
      simpa using hnext

/-- The text of a marked body with its mark and what is in front of it. -/
def text (marked : Marked α) : Text :=
  textOf marked.lead ++ textOf (marked.mark ++ marked.body)

theorem textOf_lexemesOf (row : List (Marked α)) :
    textOf (lexemesOf [] row) = row.flatMap text := by
  induction row with
  | nil => rfl
  | cons marked row ih =>
      rw [lexemesOf_cons, List.flatMap_cons, ← ih]
      simp [text]

theorem quiet_lexemesOf {labels : List Text} {row : List (Marked α)}
    (hrow : ∀ marked ∈ row, Quiet labels (marked.lead ++ (marked.mark ++ marked.body))) :
    Quiet labels (lexemesOf [] row) := by
  induction row with
  | nil => exact quiet_nil _
  | cons marked row ih =>
      have hmarked := hrow marked (by simp)
      have hrest := ih fun other hmem => hrow other (List.mem_cons_of_mem marked hmem)
      simp only [quiet_append] at hmarked
      rw [lexemesOf_cons]
      exact quiet_append.mpr ⟨hmarked.1, quiet_append.mpr ⟨hmarked.2.1,
        quiet_append.mpr ⟨hmarked.2.2, hrest⟩⟩⟩

end Marked

namespace Query

/-- The digits of a number. -/
def digits (number : UInt64) : List Lexeme := [word (toString number.toNat).toList]

/-- The body of SELECT. -/
def selectLexemes (layout : Layout) (query : Query) : List Lexeme :=
  (if query.distinct then [mark ' ', word "DISTINCT".toList] else []) ++
    layout.listLexemes (query.columns.map SelectItem.lexemes)

/-- The joins of FROM. -/
def joinRow (layout : Layout) (query : Query) : List (Marked JoinMark) :=
  query.joins.map (Join.marked layout.separator.toList)

/-- The tables of FROM. -/
def tableLexemes (layout : Layout) (query : Query) : List Lexeme :=
  layout.listLexemes (query.tables.map TableItem.lexemes)

/-- A clause behind a separator. -/
def clauseOf (layout : Layout) (keyword : Keyword) (clause : Clause) (mark body : List Lexeme) :
    Marked (String × Clause) :=
  ⟨marks layout.separator.toList, (keyword.name, clause), mark, body⟩

/-- LIMIT and OFFSET. -/
def pagingRow (layout : Layout) (query : Query) : List (Marked (String × Clause)) :=
  match query.limit, query.offset with
  | some limit, some offset =>
    [clauseOf layout .limit .paging [word "LIMIT".toList] (mark ' ' :: digits limit),
      ⟨[mark ' '], (Keyword.offset.name, .paging), [word "OFFSET".toList],
        mark ' ' :: digits offset⟩]
  | some limit, none =>
    [clauseOf layout .limit .paging [word "LIMIT".toList] (mark ' ' :: digits limit)]
  | none, some offset =>
    [clauseOf layout .offset .paging [word "OFFSET".toList] (mark ' ' :: digits offset)]
  | none, none => []

/-- The clauses between FROM and LIMIT. -/
def middleRow (layout : Layout) (query : Query) : List (Marked (String × Clause)) :=
  (if query.filters.isEmpty then [] else
    [clauseOf layout .where_ .where_ [word "WHERE".toList] (layout.chainLexemes query.filters)]) ++
  (if query.groups.isEmpty then [] else
    [clauseOf layout .groupBy .groupBy [word "GROUP".toList, mark ' ', word "BY".toList]
      (layout.listLexemes (query.groups.map fun item => item.term.lexemes))]) ++
  (if query.groupFilters.isEmpty then [] else
    [clauseOf layout .having .having [word "HAVING".toList]
      (layout.chainLexemes query.groupFilters)]) ++
  (if query.orders.isEmpty then [] else
    [clauseOf layout .orderBy .orderBy [word "ORDER".toList, mark ' ', word "BY".toList]
      (layout.listLexemes (query.orders.map OrderItem.lexemes))])

/-- The clauses behind SELECT. -/
def clauseRow (layout : Layout) (query : Query) : List (Marked (String × Clause)) :=
  clauseOf layout .from_ .from_ [word "FROM".toList]
      (query.tableLexemes layout ++ Marked.lexemesOf [] (query.joinRow layout)) ::
    (query.middleRow layout ++ query.pagingRow layout)

/-- The whole statement as a row of clauses. -/
def statementRow (layout : Layout) (query : Query) : List (Marked (String × Clause)) :=
  ⟨[], (Keyword.select.name, .select), [word "SELECT".toList], query.selectLexemes layout⟩ ::
    query.clauseRow layout

/-- The statement without comments. -/
def lexemes (layout : Layout) (query : Query) : List Lexeme :=
  Marked.lexemesOf [] (query.statementRow layout)

/-- The text of the statement without comments. -/
def statement (layout : Layout) (query : Query) : String :=
  layout.separator.intercalate (query.renderClauses layout)

theorem toList_intercalate_cons (separator first : String) (others : List String) :
    (separator.intercalate (first :: others)).toList =
      first.toList ++ others.flatMap fun other => separator.toList ++ other.toList := by
  rw [String.toList_intercalate]
  induction others generalizing first with
  | nil => simp [List.intercalate_singleton]
  | cons second others ih =>
      rw [List.map_cons, List.map_cons, List.intercalate_cons_cons, ← List.map_cons, ih]
      simp

/-- A clause that is left out if it has no entries. -/
theorem flatMap_optional {layout : Layout} {keyword : Keyword} {clause : Clause}
    {mark body : List Lexeme} {rendered : String} (empty : Bool)
    (htext : textOf (mark ++ body) = rendered.toList) :
    (if empty then [] else [clauseOf layout keyword clause mark body]).flatMap Marked.text =
      (if empty then [] else [rendered]).flatMap fun other =>
        layout.separator.toList ++ other.toList := by
  cases empty with
  | true => rfl
  | false => simp [Marked.text, clauseOf, htext]

theorem textOf_selectLexemes (layout : Layout) (query : Query) :
    textOf (word "SELECT".toList :: query.selectLexemes layout) =
      (layout.renderList (if query.distinct then "SELECT DISTINCT" else "SELECT")
        (query.columns.map SelectItem.render)).toList := by
  have hitems : (query.columns.map SelectItem.lexemes).map textOf =
      (query.columns.map SelectItem.render).map String.toList := by
    simp [SelectItem.textOf_lexemes]
  rw [← Layout.textOf_listLexemes _ hitems, selectLexemes]
  cases query.distinct <;> simp [text]

theorem flatMap_joinRow (layout : Layout) (query : Query) :
    textOf (Marked.lexemesOf [] (query.joinRow layout)) =
      (query.joins.map Join.render).flatMap fun other =>
        layout.separator.toList ++ other.toList := by
  simp [Marked.textOf_lexemesOf, joinRow, List.flatMap_map, Marked.text, Join.marked,
    ← Join.textOf_lexemes]

theorem flatMap_middleRow (layout : Layout) (query : Query) :
    (query.middleRow layout).flatMap Marked.text =
      ((if query.filters.isEmpty then [] else
          [layout.renderConditions "WHERE" query.filters]) ++
        (if query.groups.isEmpty then [] else
          [layout.renderList "GROUP BY" (query.groups.map GroupItem.render)]) ++
        (if query.groupFilters.isEmpty then [] else
          [layout.renderConditions "HAVING" query.groupFilters]) ++
        (if query.orders.isEmpty then [] else
          [layout.renderList "ORDER BY" (query.orders.map OrderItem.render)])).flatMap
        fun other => layout.separator.toList ++ other.toList := by
  have hgroups : (query.groups.map fun item => item.term.lexemes).map textOf =
      (query.groups.map GroupItem.render).map String.toList := by
    simp [ColumnTerm.textOf_lexemes, GroupItem.render]
  have horders : (query.orders.map OrderItem.lexemes).map textOf =
      (query.orders.map OrderItem.render).map String.toList := by
    simp [OrderItem.textOf_lexemes]
  have hwhere := layout.textOf_chainLexemes "WHERE" query.filters
  have hgroup := @Layout.textOf_listLexemes layout _ _ "GROUP BY" hgroups
  have hhaving := layout.textOf_chainLexemes "HAVING" query.groupFilters
  have horder := @Layout.textOf_listLexemes layout _ _ "ORDER BY" horders
  rw [middleRow]
  simp only [List.flatMap_append]
  rw [flatMap_optional _ (by simpa [text] using hwhere),
    flatMap_optional _ (by simpa [text] using hgroup),
    flatMap_optional _ (by simpa [text] using hhaving),
    flatMap_optional _ (by simpa [text] using horder)]

theorem flatMap_pagingRow (layout : Layout) (query : Query) :
    (query.pagingRow layout).flatMap Marked.text =
      query.renderPaging.flatMap fun other => layout.separator.toList ++ other.toList := by
  rw [pagingRow, renderPaging]
  cases query.limit <;> cases query.offset <;>
    simp [Marked.text, clauseOf, digits, text]

theorem textOf_lexemes (layout : Layout) (query : Query) :
    textOf (query.lexemes layout) = (query.statement layout).toList := by
  have hselect := query.textOf_selectLexemes layout
  have htables : (query.tables.map TableItem.lexemes).map textOf =
      (query.tables.map TableItem.render).map String.toList := by
    simp [TableItem.textOf_lexemes]
  have hfrom := @Layout.textOf_listLexemes layout _ _ "FROM" htables
  have hrow : (query.clauseRow layout).flatMap Marked.text =
      ((layout.renderList "FROM" (query.tables.map TableItem.render) ::
          query.joins.map Join.render) ++
        (((if query.filters.isEmpty then [] else
            [layout.renderConditions "WHERE" query.filters]) ++
          (if query.groups.isEmpty then [] else
            [layout.renderList "GROUP BY" (query.groups.map GroupItem.render)]) ++
          (if query.groupFilters.isEmpty then [] else
            [layout.renderConditions "HAVING" query.groupFilters]) ++
          (if query.orders.isEmpty then [] else
            [layout.renderList "ORDER BY" (query.orders.map OrderItem.render)])) ++
          query.renderPaging)).flatMap fun other =>
        layout.separator.toList ++ other.toList := by
    rw [clauseRow, List.flatMap_cons, List.flatMap_append, List.flatMap_append,
      List.flatMap_append, flatMap_middleRow, flatMap_pagingRow, List.flatMap_cons,
      ← flatMap_joinRow, ← hfrom]
    simp [Marked.text, clauseOf, tableLexemes, text]
  rw [lexemes, Marked.textOf_lexemesOf, statementRow, statement, renderClauses]
  simp only [List.cons_append, List.nil_append, List.append_assoc] at hrow ⊢
  rw [toList_intercalate_cons, ← hrow, List.flatMap_cons, ← hselect]
  simp [Marked.text]

/-! ### Queries that can be written -/

/-- What the text of a query needs to be read back.  The checks demand this, apart from the
scope. -/
structure IsWritten (query : Query) : Prop where
  hasColumns : query.columns ≠ []
  hasTables : query.tables ≠ []
  columns : ∀ item ∈ query.columns, item.IsWritten
  tables : ∀ table ∈ query.tables, table.IsWritten
  joins : ∀ join ∈ query.joins, join.IsWritten
  filters : ∀ condition ∈ query.filters,
    condition.IsWritten .where_ ∧ condition.term.aggregate = none
  groups : ∀ item ∈ query.groups, item.term.IsSpelled .groupBy ∧ item.aggregate = none
  groupFilters : ∀ condition ∈ query.groupFilters, condition.IsWritten .having
  orders : ∀ item ∈ query.orders, item.term.IsSpelled .orderBy

/-- A column without problems is spelled as its clause demands. -/
theorem isSpelled_of_problems {scope : Scope} {clause : Clause} {term : ColumnTerm}
    (hnone : term.problems scope clause = []) : term.IsSpelled clause := by
  rw [ColumnTerm.problems_eq_nil_iff] at hnone
  exact ⟨fun name htable => (hnone.1 name htable).1, hnone.2.1, hnone.2.2⟩

/-- A plain column without problems is no wildcard, except in SELECT. -/
theorem isValid_of_problems {scope : Scope} {clause : Clause} {table : Option String}
    {column : String} (hclause : clause ≠ .select)
    (hnone : ColumnTerm.problems scope clause { table, column } = []) :
    (∀ name, table = some name → Identifier.isValid name = true) ∧
      Identifier.isValid column = true := by
  have hspelled := isSpelled_of_problems hnone
  refine ⟨hspelled.table, hspelled.column.resolve_right ?_⟩
  rintro ⟨-, ⟨hselect, -⟩ | ⟨haggregate, -⟩⟩
  · exact hclause hselect
  · simp at haggregate

theorem isWritten_condition {scope : Scope} {clause : Clause} {condition : Condition}
    (hclause : clause ≠ .select)
    (hterms : ∀ term ∈ condition.terms, term.problems scope clause = [])
    (hslots : condition.HasOperands)
    (hspelled : ∀ operand ∈ condition.operands, operand.IsSpelled) :
    condition.IsWritten clause := by
  refine ⟨isSpelled_of_problems (hterms condition.term (by simp [Condition.terms])),
    fun operand hmem => ⟨hspelled operand hmem, fun table column hoperand => ?_⟩, hslots⟩
  have hterm : ({ table, column } : ColumnTerm) ∈ condition.terms := by
    rw [Condition.terms, List.mem_cons, List.mem_filterMap]
    exact .inr ⟨operand, hmem, by rw [hoperand]; rfl⟩
  exact isValid_of_problems hclause (hterms _ hterm)

theorem isWritten_joinCondition {scope : Scope} {condition : JoinCondition}
    (hterms : ∀ term ∈ condition.terms, term.problems scope .join = [])
    (hoperator : condition.operator.isComparison = true) : condition.IsWritten := by
  have hleft := isValid_of_problems (by simp) (hterms _ List.mem_cons_self)
  have hright := isValid_of_problems (by simp)
    (hterms _ (List.mem_cons_of_mem _ List.mem_cons_self))
  exact ⟨Identifier.isName_of_isValid (hleft.1 _ rfl), Identifier.isName_of_isValid hleft.2,
    Identifier.isName_of_isValid (hright.1 _ rfl), Identifier.isName_of_isValid hright.2,
    hoperator⟩

/-- A query without problems can be written. -/
theorem isWritten_of_problems_eq_nil {query : Query} (hnone : query.problems = []) :
    query.IsWritten := by
  rw [problems_eq_nil_iff_parts, tableProblems_eq_nil_iff,
    forall_columnUses_iff query fun clause term => term.problems query.scope clause = []] at hnone
  obtain ⟨⟨htables, hitems, -⟩, hcolumns, ⟨hselect, hjoin, hwhere, hhaving, hgroup, horder⟩,
    haliases, hjoins, hfilters, hgroups, hconditions⟩ := hnone
  have htable : ∀ table ∈ query.tableItems, table.IsWritten := fun table hmem =>
    ⟨(hitems table hmem).1, (hitems table hmem).2⟩
  constructor
  · exact hcolumns
  · exact htables
  · exact fun item hmem => ⟨isSpelled_of_problems (hselect item hmem), haliases item hmem⟩
  · exact fun table hmem => htable table (List.mem_append_left _ hmem)
  · intro join hmem
    exact ⟨htable join.table (List.mem_append_right _ (List.mem_map_of_mem hmem)),
      (hjoins join hmem).1, fun condition hcondition =>
        isWritten_joinCondition (hjoin join hmem condition hcondition)
          ((hjoins join hmem).2 condition hcondition)⟩
  · intro condition hmem
    have hcondition := hconditions condition (List.mem_append_left _ hmem)
    exact ⟨isWritten_condition (by simp) (hwhere condition hmem) hcondition.1 hcondition.2,
      hfilters condition hmem⟩
  · exact fun item hmem => ⟨isSpelled_of_problems (hgroup item hmem), hgroups item hmem⟩
  · intro condition hmem
    have hcondition := hconditions condition (List.mem_append_right _ hmem)
    exact isWritten_condition (by simp) (hhaving condition hmem) hcondition.1 hcondition.2
  · exact fun item hmem => isSpelled_of_problems (horder item hmem)

theorem forall_digits (number : Nat) :
    (toString number).toList ≠ [] ∧ ∀ c ∈ (toString number).toList, c.isDigit = true := by
  have hdigits : (toString number).toList = Nat.toDigits 10 number := Nat.toList_repr
  rw [hdigits]
  exact ⟨Nat.toDigits_ne_nil, fun c hc => Nat.isDigit_of_mem_toDigits (by simp) (by simp) hc⟩

theorem isNameTail_of_isDigit {c : Char} (hc : c.isDigit = true) : Text.isNameTail c = true := by
  simp [Text.isNameTail, Char.isAlphanum, hc]

theorem solid_digits (number : UInt64) : Solid (digits number) := by
  have hdigits := forall_digits number.toNat
  have hchars := forall_isWordChar fun c hc => isNameTail_of_isDigit (hdigits.2 c hc)
  exact solid_word hdigits.1 hchars.1 hchars.2 fun c hc =>
    Text.toNat_lt_of_isNameTail (isNameTail_of_isDigit (hdigits.2 c hc))

theorem quiet_digits (number : UInt64) : Quiet stops (digits number) := by
  have hdigits := forall_digits number.toNat
  have hchars := forall_isWordChar fun c hc => isNameTail_of_isDigit (hdigits.2 c hc)
  obtain ⟨c, hc⟩ := List.exists_mem_of_ne_nil _ hdigits.1
  have halpha := Text.isAlpha_of_isDecimal (Text.isDecimal_of_isDigit (hdigits.2 c hc))
  exact quiet_cons.mpr ⟨word_not_mem_stops_of_mem hchars.1 hc halpha, quiet_nil _⟩

end Query

end SelectForm

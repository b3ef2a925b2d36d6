import Mathlib
import SelectForm.Proofs.Statement.ReadCanonical
import SelectForm.Proofs.Statement.WholeStatement

/-!
# Reading back what was written

A query that passed the checks is written under any layout and read back as its
canonical form.  The checks of the whole statement let it pass, it falls into the
clauses of the query, and the clauses are read one after another.  None of this depends on
the spelling that was chosen for a part, as long as the part is read as the entry it stands
for.
-/

namespace SelectForm

open Lexeme

namespace StatementParts

variable {parts : StatementParts} {query : Query} {layout : Layout} {pad : Text}

/-- A statement with blanks in front of it is read as the canonical query. -/
theorem readClauses (hreads : parts.Reads query) (hpad : ∀ c ∈ pad, isLayoutBlank c = true) :
    (LocatedClause.locate (textOf (marks pad ++ parts.lexemes layout)) >>= fun clauses =>
      clauses.foldlM Statement.readClause {}) = .ok query.canonical := by
  obtain ⟨clauses, hlocate, hclauses, hholds⟩ :=
    @LocatedClause.locate_lexemes parts layout pad hreads.sound hpad
  have hmem : ∀ located ∈ clauses, located.clause ∈ parts.clauses := fun located hmem =>
    hclauses ▸ List.mem_map_of_mem hmem
  have hread := Statement.foldlM_readClause hreads hmem hholds {}
  rw [textOf_append, textOf_marks, hlocate]
  rw [hclauses, hreads.clauses_eq, ← Query.writtenClauses_canonical,
    Query.foldl_withClause] at hread
  exact hread

/-- A text whose single statement is put together from parts is read as the query that the
parts are read as. -/
theorem ofText_of_reads {text : Text} (hreads : parts.Reads query)
    (hpad : ∀ c ∈ pad, isLayoutBlank c = true)
    (hclosed : Statement.rejectUnclosed text = .ok ())
    (hsingle : Statement.single text.maskComments =
      .ok (textOf (marks pad ++ parts.lexemes layout))) :
    Query.ofText text = .ok query.canonical := by
  have hlexed := @lexed_padded parts layout pad hreads.sound hpad
  have hbalanced := Statement.rejectUnbalanced_of_balance hlexed
    (balance_padded hreads.sound hpad)
  have hsupported := @rejectUnsupported_lexemes parts layout pad hreads.sound hpad
  have hread := @readClauses parts query layout pad hreads hpad
  rw [Query.ofText, hclosed, hsingle]
  simp only [bind, Except.bind] at hread ⊢
  rw [hbalanced, hsupported]
  exact hread

end StatementParts

namespace Query

variable {query : Query} {layout : Layout}

/-- In every spelling the parts of a query are read as its entries. -/
theorem reads_spelledParts (hwritten : query.IsWritten) (spelling : Spelling) :
    (query.spelledParts layout spelling).Reads query := by
  have hseparator := layout.isLayoutBlank_separator
  constructor
  · exact isSound_spelledParts hwritten
  · rfl
  · exact forall₂_mapIdx fun item hmem place =>
      ⟨SelectItem.solid_spelledLexemes (hwritten.columns item hmem) _,
        SelectItem.read_spelled (hwritten.columns item hmem) _⟩
  · intro item hmem
    obtain ⟨place, hplace, rfl⟩ := List.mem_mapIdx.mp hmem
    have hterm := (hwritten.columns _ (List.getElem_mem hplace)).term
    rw [SelectItem.head?_spelledLexemes hterm]
    exact ColumnTerm.label_head_ne hterm (by decide)
  · have hitems := @forall₂_mapIdx _ _ _ (ReadAs (TableItem.read .from_)) query.tables
      (fun place table => table.spelledLexemes (spelling.tables place)) id fun table hmem place =>
        have htable := hwritten.tables table hmem
        have hsolid := TableItem.solid_spelledLexemes htable (spelling.tables place)
        ⟨hsolid, TableItem.read_spelled htable hsolid.tight.trim_eq⟩
    rwa [List.map_id] at hitems
  · have hitems := @forall₂_mapIdx _ _ _ Join.MarkedReads query.joins
      (fun place join => join.spelledMarked layout.separator.toList (spelling.joins place)) id
      fun join hmem _ =>
        Join.markedReads_spelled (hwritten.joins join hmem) hseparator.1 hseparator.2
    rwa [List.map_id] at hitems
  · exact Condition.linkReads_spelled (by simp)
      (fun condition hmem => (hwritten.filters condition hmem).1)
      (fun condition hmem _ => (hwritten.filters condition hmem).2)
  · refine List.forall₂_map_left_iff.mpr (List.forall₂_same.mpr fun item hmem => ?_)
    have hterm := (hwritten.groups item hmem).1
    exact ⟨ColumnTerm.solid_lexemes hterm, GroupItem.read_written hterm
      (hwritten.groups item hmem).2⟩
  · exact Condition.linkReads_spelled (by simp) hwritten.groupFilters (by simp)
  · have hitems := @forall₂_mapIdx _ _ _ (ReadAs OrderItem.read) query.orders
      (fun place item => item.spelledLexemes (spelling.orders place)) id fun item hmem place =>
        ⟨OrderItem.solid_spelledLexemes (hwritten.orders item hmem) _,
          OrderItem.read_spelled (hwritten.orders item hmem) _⟩
    rwa [List.map_id] at hitems
  · rw [spelledParts]
    cases spelling.offsetFirst
    · exact .inl rfl
    · exact .inr rfl

/-- A written query is read back in its canonical form. -/
theorem parse_render_of_isWritten (hwritten : query.IsWritten) :
    parse (query.render layout) = .ok query.canonical := by
  have hparts := lexemes_spelledParts_plain layout query
  have hreads := @reads_spelledParts query layout hwritten query.plain
  obtain ⟨pad, hpad, hmask⟩ := @maskComments_render query layout hwritten
  have hclosed := Statement.rejectUnclosed_of_lexed (@lexed_preamble query layout hwritten)
  have hsingle := Statement.single_of_quiet
    (@StatementParts.lexed_padded _ layout pad hreads.sound hpad)
    (StatementParts.quiet_padded hreads.sound hpad (by decide) (by decide))
  rw [textOf_preamble] at hclosed
  rw [← hparts] at hmask
  exact StatementParts.ofText_of_reads hreads hpad hclosed (by rw [hmask, hsingle])

/-- A query that passed the checks is written under every layout to a text that is read
back as the query, up to what its text cannot show. -/
theorem parse_render (layout : Layout) (query : Query) (hnone : query.problems = []) :
    parse (query.render layout) = .ok query.canonical :=
  parse_render_of_isWritten (isWritten_of_problems_eq_nil hnone)

/-- A literal may hold what elsewhere would end it, open a comment or be a keyword. -/
theorem parse_render_hostile_literal :
    let query : Query :=
      { columns := [{ term := { column := "*", distinct := true } }]
        tables := [{ tableName := "notes" }]
        filters := [{
          term := { column := "body" }
          operator := .equal
          value := some (.string "it's -- /* ; ? AND\n SELECT")
          connector := .or }] }
    query.problems = [] ∧ parse (query.render .pretty) = .ok query.canonical :=
  ⟨by decide +kernel, parse_render .pretty _ (by decide +kernel)⟩

/-- A list that an earlier operator has left behind is not written, so it is not read back. -/
example :
    let left : Condition := { term := { column := "a" }, value := some (.number "1") }
    let query : Query :=
      { columns := [.wildcard]
        tables := [{ tableName := "t" }]
        filters := [{ left with values := [.number "2"] }] }
    parse (query.render .compact) = .ok { query with filters := [left] } := by
  decide +kernel

/-- Every text that is read at all gives a canonical query.  If it passes the checks, its
text under any layout is read back as the query itself, and writing that again gives the
text that the query has. -/
theorem canonical_and_stable_of_parse {sql : String} {query : Query}
    (hparse : parse sql = .ok query) :
    query.IsCanonical ∧
      (query.problems = [] → ∀ first second : Layout,
        parse (query.render first) = .ok query ∧
          (parse (query.render first)).map (render second) = .ok (query.render second)) := by
  have hcanonical := isCanonical_of_parse hparse
  refine ⟨hcanonical, fun hnone first second => ?_⟩
  have hread := @parse_render_of_isWritten query first (isWritten_of_problems_eq_nil hnone)
  rw [hcanonical.canonical_eq] at hread
  refine ⟨hread, ?_⟩
  rw [hread]
  rfl

/-- A text with other spellings than those that are written. -/
theorem canonical_and_stable_of_parse_spelling :
    let sql := "select distinct * from t where not (not a != 'x') offset 3 limit 2"
    let query : Query :=
      { columns := [{ term := { column := "*" } }]
        distinct := true
        tables := [{ tableName := "t" }]
        filters := [{
          term := { column := "a" }
          operator := .notEqual
          value := some (.string "x") }]
        limit := some 2
        offset := some 3 }
    parse sql = .ok query ∧ query.problems = [] ∧ query.IsCanonical ∧
      parse (query.render .compact) = .ok query := by
  intro sql query
  have hparse : parse sql = .ok query := by decide +kernel
  have hnone : query.problems = [] := by decide +kernel
  obtain ⟨hcanonical, hstable⟩ := canonical_and_stable_of_parse hparse
  exact ⟨hparse, hnone, hcanonical, (hstable hnone .compact .pretty).1⟩

end Query

end SelectForm

import Mathlib
import SelectForm.Proofs.Statement.ByteChecks
import SelectForm.Proofs.Statement.ByteClause
import SelectForm.Proofs.Statement.ByteCondition
import SelectForm.Proofs.Statement.ByteTable
import SelectForm.Statement.Parse

/-!
# Reading a statement byte by byte

A statement can be read with nothing but looks at single bytes and cuts at byte offsets.  Each look
and each cut has a result or the reading has none, and it always has one: it is the query, or the
error, of the statement.
-/

namespace SelectForm

namespace Bytewise

/-! ## Clauses -/

/-- The clauses of a statement, in order. -/
def locate (text : Text) : Checked (List LocatedClause) := do
  let start ← skip Text.isAsciiBlank { text }
  match ← lengthAt .select start with
  | none => do
    let stopped ← skip (fun c => !Text.isAsciiBlank c) start
    let word ← shown text start.position stopped.position
    throw ((Fragment.mk word start.position).error .notSelect none)
  | some _ => do
    let found ← marksAhead LocatedClause.entries start
    let behind ← segments ⟨text, 0⟩ found
    let clauses ← .of (LocatedClause.collect [] [] behind)
    if clauses.any fun located => located.clause = .from_ then
      pure clauses
    else
      throw ((Fragment.mk (Text.trimEnd text) 0).error .missingFrom none)

/-- Reads one clause of a statement into a query. -/
def readClause (statement : Text) (query : Query) (located : LocatedClause) : Checked Query := do
  let text ← statement.cut? located.body.start located.body.stop
  let clause : Fragment := ⟨text, located.body.start⟩
  match located.clause with
  | .select => do
    let (distinct, columns) ← selectList clause
    pure { query with distinct, columns }
  | .from_ => do
    let (tables, cursor) ← tables (.ofFragment .from_ clause)
    let joins ← joins cursor
    pure { query with tables, joins }
  | .join => pure query
  | .where_ => do
    let conditions ← body .where_ clause
    let filters ← chain .where_ conditions
    pure { query with filters }
  | .groupBy => do
    let groups ← groupList clause
    pure { query with groups }
  | .having => do
    let conditions ← body .having clause
    let groupFilters ← chain .having conditions
    pure { query with groupFilters }
  | .orderBy => do
    let orders ← orderList clause
    pure { query with orders }
  | .paging => do
    let paging ← paging clause
    pure { query with limit := paging.limit, offset := paging.offset }

/-- Reads a text. -/
def ofText (text : Text) : Checked Query := do
  rejectUnclosed text
  let masked ← maskComments text
  let statement ← single masked
  rejectUnbalanced statement
  rejectUnsupported statement
  let clauses ← locate statement
  clauses.foldlM (readClause statement) {}

/-! ## What is read -/

/-- The clauses are located by cuts as a cursor locates them. -/
theorem locate_eq (text : Text) : locate text = .of (LocatedClause.locate text) := by
  have hwalks : Cursor.WalksIn text { text } := ⟨Fragment.liesIn_whole text, [], text, rfl, rfl⟩
  have hread : (LocatedClause.read { text }).1 = LocatedClause.locate text := by
    rw [(LocatedClause.read_start rfl).1]
    cases LocatedClause.locate text <;> rfl
  have hstart := hwalks.skipBlanks
  have hskip := (@Cursor.skipBlanks_start { text } rfl).1
  have hselect : Keyword.select.isPlain = true := rfl
  have htext : (Cursor.skipBlanks { text }).text = text := by rw [hskip]
  have hoffset : (Cursor.skipBlanks { text }).offset = 0 := by rw [hskip]
  rw [locate, skipBlanks_eq hwalks, ← hread, LocatedClause.read]
  generalize Cursor.skipBlanks { text } = start at hstart htext hoffset
  subst htext
  obtain ⟨hcut, front, hfront, hposition⟩ := hstart.exists_ahead
  have hinside : start.position ≤ start.length := by
    rw [Cursor.length, hfront, Text.size_append, hposition]
    exact Nat.le_add_right _ _
  have habsolute : start.absolute start.position = start.position := by
    rw [Cursor.absolute, hoffset, Nat.zero_add, min_eq_left hinside]
  simp only [Checked.liftM_some, pure_bind, lengthAt_eq hselect hstart, Cursor.compare]
  cases start.keywordLength? .select with
  | none =>
      have hstopped := skip_eq isBytewise_isAsciiBlank.not hstart
      simp only [Option.map_none, hstopped, shown_eq, Checked.liftM_some, pure_bind]
      rw [hcut, hstart.jump_zero, habsolute]
      rfl
  | some count =>
      have hmarks := marksAhead_of_isPlain LocatedClause.isPlain_entries start
      have hsegment : start.segment LocatedClause.finder =
          .ofCells LocatedClause.finder start.ahead.before start.ahead.cells start.position := by
        rw [Cursor.segment, hcut, habsolute, Nat.add_zero]
      obtain ⟨-, hplace, htile, hend⟩ := hstart.segment LocatedClause.finder
      have hlies := hstart.lies
      rw [hoffset] at hlies hend
      have hbehind := segments_eq hlies (Nat.zero_le _) htile hend
      rw [← LocatedClause.finder_eq, hsegment] at hmarks
      rw [hsegment] at hbehind
      generalize Segmentation.ofCells LocatedClause.finder start.ahead.before start.ahead.cells
        start.position = keywords at hmarks hbehind
      simp only [Option.map_some, hmarks, hbehind, Checked.liftM_some, pure_bind,
        Option.isSome_some, if_true]
      cases LocatedClause.collect [] [] keywords.tail with
      | error error =>
          rw [hoffset]
          rfl
      | ok clauses =>
          simp only [Checked.of_ok, pure_bind]
          split
          · rfl
          · rw [Cursor.absolute, hoffset, Nat.zero_min]
            rfl

theorem readClause_eq {statement : Text} {located : LocatedClause}
    (hlies : located.body.LiesIn statement) (query : Query) :
    readClause statement query located = .of (Statement.readClause query located) := by
  obtain ⟨clause, keyword, text⟩ := located
  rw [readClause, hlies.cut?_eq, Statement.readClause.eq_def]
  simp only [Checked.liftM_some, pure_bind, body_eq]
  cases clause with
  | select => simp only [selectList_eq, Checked.of_bind, Checked.of_ok]
  | from_ =>
      obtain ⟨whole, hwalks⟩ := Cursor.exists_walksIn .from_ text
      have hmoved := (TableItem.placesErrors_readList hwalks).2
      have hcursor : Cursor.ofFragment .from_ text =
        { text := text.text, offset := text.start, clause := some .from_ } := rfl
      simp only [tables_eq hwalks]
      rw [← hcursor]
      generalize TableItem.readList (.ofFragment .from_ text) = found at hmoved
      obtain ⟨tables | tables, cursor⟩ := found
      · rfl
      · have hjoins := joins_eq (hmoved tables rfl)
        simp only [Except.map, Checked.of_ok, pure_bind, hjoins, Checked.of_bind]
  | join => rfl
  | where_ => simp only [chain_eq, Checked.of_bind, Checked.of_ok]
  | groupBy => simp only [groupList_eq, Checked.of_bind, Checked.of_ok]
  | having => simp only [chain_eq, Checked.of_bind, Checked.of_ok]
  | orderBy => simp only [orderList_eq, Checked.of_bind, Checked.of_ok]
  | paging =>
      simp only [paging_eq, Checked.of_bind, Checked.of_ok]
      rfl

/-- A text is read byte by byte as it is read, and no look or cut goes wrong. -/
theorem ofText_eq (text : Text) : ofText text = .of (Query.ofText text) := by
  rw [ofText, maskComments_eq, Query.ofText]
  simp only [Checked.liftM_some, pure_bind, rejectUnclosed_eq, single_eq, rejectUnbalanced_eq,
    rejectUnsupported_eq, locate_eq, Checked.of_bind]
  have hclauses : ∀ statement,
      (Checked.of (LocatedClause.locate statement) >>= fun clauses =>
        clauses.foldlM (readClause statement) {}) =
      Checked.of (LocatedClause.locate statement) >>= fun clauses =>
        Checked.of (clauses.foldlM Statement.readClause {}) := by
    intro statement
    cases hlocate : LocatedClause.locate statement with
    | error error => rfl
    | ok clauses =>
        have hlies := (LocatedClause.placesErrors_locate statement).2 clauses hlocate
        exact Checked.foldlM_of (fun located hmem => readClause_eq (hlies located hmem)) {}
  simp only [hclauses]

end Bytewise

end SelectForm

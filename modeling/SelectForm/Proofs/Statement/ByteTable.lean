import Mathlib
import SelectForm.Proofs.Statement.ByteCursor
import SelectForm.Proofs.Statement.PlacedStatement
import SelectForm.Proofs.Statement.ReadJoin

/-!
# Reading FROM byte by byte

The keywords of joins are found byte by byte, and the tables in front of them and the text behind
each of them are cut out at their offsets.  A condition of a join is opened by cuts as well.
-/

namespace SelectForm

/-! ## The segments ahead of a cursor -/

namespace Cursor

variable {whole : Text} {cursor : Cursor}

/-- The part in front of the first mark and the segments lie one behind the other from the cursor
on, up to the end of its text. -/
theorem WalksIn.segment (hwalks : cursor.WalksIn whole) {α : Type} (find : Finder α) :
    (cursor.segment find).head.LiesIn whole ∧
      (cursor.segment find).head.start = cursor.offset + cursor.position ∧
      Segment.Tile whole (cursor.segment find).head.stop (cursor.segment find).tail ∧
      (cursor.segment find).head.stop +
          Text.size (Cut.textOf ((cursor.segment find).tail.map Segment.cut)) =
        cursor.offset + cursor.length := by
  obtain ⟨hcut, front, htext, hposition⟩ := hwalks.exists_ahead
  have hlength : cursor.length =
      cursor.position + Text.size (Cell.text cursor.ahead.cells) := by
    conv_lhs => rw [length, htext, Text.size_append, ← hposition]
  have hplace : cursor.absolute cursor.position = cursor.offset + cursor.position := by
    rw [absolute, min_eq_left (by omega)]
  have hsegment : cursor.segment find =
      .ofCells find cursor.ahead.before cursor.ahead.cells (cursor.offset + cursor.position) := by
    rw [Cursor.segment, hcut, hplace, Nat.add_zero]
  have hlies := hwalks.rest
  rw [hplace] at hlies
  obtain ⟨hhead, htile⟩ :=
    @Segmentation.liesIn_ofCells _ whole _ _ find cursor.ahead.before hlies
  have hcells := congrArg Text.size (text_cutCells find 0 0 cursor.ahead.before cursor.ahead.cells)
  rw [List.drop_zero, Text.size_append] at hcells
  rw [hsegment]
  refine ⟨hhead, rfl, htile, ?_⟩
  have hstop : (Segmentation.ofCells find cursor.ahead.before cursor.ahead.cells
      (cursor.offset + cursor.position)).head.stop =
        cursor.offset + cursor.position +
          Text.size (cutCells find 0 0 cursor.ahead.before cursor.ahead.cells).1 := rfl
  rw [Segmentation.map_cut_tail_ofCells, hlength, ← hcells, hstop, Nat.add_assoc, Nat.add_assoc]

end Cursor

namespace Bytewise

/-! ## Conditions of joins -/

/-- Takes the parentheses around a fragment off, at most as many as `bound` says. -/
def openWithin (bound : Nat) (fragment : Fragment) : Option Fragment :=
  match bound with
  | 0 => some fragment.trim
  | bound + 1 => do
    match ← inside fragment with
    | some inner => openWithin bound inner
    | none => some fragment.trim

/-- Reads a comparison of two qualified columns, which may stand in parentheses. -/
def joinCondition (fragment : Fragment) : Checked JoinCondition := do
  let body ← openWithin fragment.text.length fragment
  match Text.comparison? body.text with
  | none => throw (body.error .unsupportedJoinCondition (some .join))
  | some ((some leftTable, leftColumn), operator, (some rightTable, rightColumn)) =>
    pure
      { leftTable := String.ofList leftTable
        leftColumn := String.ofList leftColumn
        operator
        rightTable := String.ofList rightTable
        rightColumn := String.ofList rightColumn }
  | some _ => throw (body.error .unqualifiedJoinColumn (some .join))

/-- Reads the conditions behind `ON`. -/
def joinConditions (fragment : Fragment) : Checked (List JoinCondition) := do
  match ← splitFirst [(Keyword.or_, ())] fragment with
  | some split => throw ((Fragment.mk "OR".toList split.mark.start).error .orInJoin (some .join))
  | none => do
    let parts ← splitChain [.and] fragment
    parts.mapM fun part =>
      if part.expression.text.isEmpty then
        throw
          ((Fragment.mk (Text.trim fragment.text) fragment.start).error
            .missingJoinCondition (some .join))
      else
        joinCondition part.expression

/-! ## Joins -/

/-- Reads what follows the keyword of a join. -/
def joinBody (kind : JoinKind) (body : Fragment) : Checked Join := do
  match ← splitFirst [(Keyword.using_, ())] body with
  | some split =>
    throw ((Fragment.mk "USING".toList split.mark.start).error .joinUsing (some .join))
  | none => do
    match ← splitFirst [(Keyword.on, ())] body with
    | none =>
      throw
        ((Fragment.mk (Text.trim body.text) body.start).error .joinWithoutOn (some .join))
    | some split => do
      let table ← .of (TableItem.read .join split.before)
      let conditions ← joinConditions split.after
      pure { kind, table, conditions }

/-- Reads a join with its keyword. -/
def join (segment : Segment JoinMark) : Checked Join :=
  match segment.label with
  | .join kind => joinBody kind segment.body
  | .cross => throw (segment.mark.error .crossJoin (some .join))
  | .natural => throw (segment.mark.error .naturalJoin (some .join))

/-- The tables of FROM, and the cursor before the first join. -/
def tables (cursor : Cursor) : Checked (List TableItem × Cursor) := do
  let start ← skip Text.isAsciiBlank cursor
  let found ← marksAhead JoinMark.entries start
  let list ← upTo ⟨start.text, start.offset⟩ (start.absolute start.position) found
  let items ← splitList list
  let tables ← .of <| items.mapM fun item =>
    if item.text.isEmpty then
      .error (list.error .missingTable (some .from_))
    else
      TableItem.read .from_ item
  pure (tables, { start.jump (Text.size list.text) with clause := some .join })

/-- The joins of FROM. -/
def joins (cursor : Cursor) : Checked (List Join) := do
  let start ← skip Text.isAsciiBlank cursor
  let found ← marksAhead JoinMark.entries start
  let before ← upTo ⟨start.text, start.offset⟩ (start.absolute start.position) found
  if !found.isEmpty && !before.text.isEmpty then
    throw
      ((Fragment.mk (Text.trimEnd before.text) (start.absolute start.position)).error
        .textBeforeJoin (some .join))
  else do
    let behind ← segments ⟨start.text, start.offset⟩ found
    behind.mapM join

/-! ## What is read -/

section Conditions

theorem openWithin_eq (bound : Nat) (fragment : Fragment) :
    openWithin bound fragment = some (fragment.openWithin bound) := by
  induction bound generalizing fragment with
  | zero => rfl
  | succ bound ih =>
      rw [openWithin, Fragment.openWithin, inside_eq]
      simp only [Option.bind_eq_bind, Option.bind_some]
      cases fragment.inside? with
      | none => rfl
      | some inner => exact ih inner

theorem joinCondition_eq (fragment : Fragment) :
    joinCondition fragment = .of (JoinCondition.read fragment) := by
  rw [joinCondition, openWithin_eq, JoinCondition.read, Fragment.openAll]
  simp only [Checked.liftM_some, pure_bind]
  generalize Fragment.openWithin fragment.text.length fragment = body
  rcases Text.comparison? body.text with
    _ | ⟨⟨_ | _, _⟩, _, ⟨_ | _, _⟩⟩ <;> rfl

theorem joinConditions_eq (fragment : Fragment) :
    joinConditions fragment = .of (JoinCondition.readChain fragment) := by
  have hor : ∀ entry ∈ [(Keyword.or_, ())], entry.1.isPlain = true := by decide
  rw [joinConditions, splitFirst_eq hor, JoinCondition.readChain, Finder.ofKeyword]
  simp only [Checked.liftM_some, pure_bind]
  cases fragment.splitFirst? (.ofKeywords [(Keyword.or_, ())]) with
  | some split => rfl
  | none =>
      simp only [splitChain_eq, Checked.liftM_some, pure_bind]
      refine Checked.mapM_of (fun part => ?_) _
      split
      · rfl
      · exact joinCondition_eq part.expression

theorem joinBody_eq (kind : JoinKind) (body : Fragment) :
    joinBody kind body = .of (Join.readBody kind body) := by
  have husing : ∀ entry ∈ [(Keyword.using_, ())], entry.1.isPlain = true := by decide
  have hon : ∀ entry ∈ [(Keyword.on, ())], entry.1.isPlain = true := by decide
  rw [joinBody, splitFirst_eq husing, Join.readBody, Finder.ofKeyword]
  simp only [Checked.liftM_some, pure_bind]
  cases body.splitFirst? (.ofKeywords [(Keyword.using_, ())]) with
  | some split => rfl
  | none =>
      simp only [splitFirst_eq hon, Checked.liftM_some, pure_bind]
      rw [Finder.ofKeyword]
      cases body.splitFirst? (.ofKeywords [(Keyword.on, ())]) with
      | none => rfl
      | some split => simp only [joinConditions_eq, Checked.of_bind, Checked.of_ok]

theorem join_eq (segment : Segment JoinMark) : join segment = .of (Join.readSegment segment) := by
  rw [join, Join.readSegment]
  cases segment.label with
  | join kind => exact joinBody_eq kind segment.body
  | cross | natural => rfl

end Conditions

section From

variable {whole : Text} {cursor : Cursor}

theorem marksAhead_joins (cursor : Cursor) :
    marksAhead JoinMark.entries cursor = some (cursor.joins.tail.map Segment.found) :=
  marksAhead_of_isPlain JoinMark.isPlain_entries cursor

/-- What stands in front of the first join is cut out as it is found. -/
theorem upTo_joins (hwalks : cursor.WalksIn whole) :
    upTo ⟨cursor.text, cursor.offset⟩ (cursor.absolute cursor.position)
        (cursor.joins.tail.map Segment.found) =
      some ⟨cursor.beforeJoins, cursor.absolute cursor.position⟩ := by
  obtain ⟨hbefore, -, hplace, -⟩ := hwalks.joins
  obtain ⟨hhead, hstart, htile, hend⟩ := hwalks.segment JoinMark.finder
  rw [hbefore, ← hplace]
  have hfirst : cursor.offset ≤ cursor.joins.head.start := hstart ▸ Nat.le_add_right _ _
  exact upTo_eq hwalks.lies hhead hfirst htile hend

theorem tables_eq (hwalks : cursor.WalksIn whole) :
    tables cursor = .of ((TableItem.readList cursor).1.map fun tables =>
      (tables, (TableItem.readList cursor).2)) := by
  have hstart := hwalks.skipBlanks
  have hjump : cursor.skipBlanks.ahead.cut + Text.size cursor.skipBlanks.joins.head.text =
      Text.size cursor.skipBlanks.beforeJoins := by
    rw [hstart.exists_ahead.1, hstart.joins.1, Nat.zero_add]
  rw [tables, skipBlanks_eq hwalks, TableItem.readList]
  simp only [Checked.liftM_some, pure_bind, marksAhead_joins, upTo_joins hstart, splitList_eq]
  rw [hjump]
  split <;> rename_i hread <;> rw [hread] <;> rfl

theorem joins_eq (hwalks : cursor.WalksIn whole) :
    joins cursor = .of (Join.readList cursor).1 := by
  have hstart := hwalks.skipBlanks
  obtain ⟨-, hplace, htile, hend⟩ := hstart.segment JoinMark.finder
  have hfirst : cursor.skipBlanks.offset ≤ cursor.skipBlanks.joins.head.stop :=
    (hplace ▸ Nat.le_add_right _ _ : _ ≤ cursor.skipBlanks.joins.head.start).trans
      (Nat.le_add_right _ _)
  have hbehind := segments_eq hstart.lies hfirst htile hend
  rw [joins, skipBlanks_eq hwalks, Join.readList]
  simp only [Checked.liftM_some, pure_bind, marksAhead_joins, upTo_joins hstart, List.isEmpty_map]
  split
  · rfl
  · rw [Cursor.joins_eq, hbehind]
    simp only [Checked.liftM_some, pure_bind, Checked.mapM_of join_eq]
    cases (cursor.skipBlanks.segment JoinMark.finder).tail.mapM Join.readSegment <;> rfl

end From

end Bytewise

end SelectForm

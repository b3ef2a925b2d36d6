import Mathlib
import SelectForm.Proofs.Statement.ByteCursor
import SelectForm.Proofs.Statement.ReadLocated
import SelectForm.Statement.Lists

/-!
# Reading lists and numbers byte by byte

The lists of a statement begin at a cursor at the front of their clause, and the numbers of LIMIT
and OFFSET are read by a cursor that walks through theirs.  Both cursors look at one byte after the
other, and always stand between two characters.
-/

namespace SelectForm

/-! ## What is ahead of a cursor -/

namespace Cursor

variable {whole : Text} {cursor : Cursor} {passed cells : List Cell}

theorem Faces.restFragment_eq (hfaces : cursor.Faces passed cells) :
    cursor.restFragment = ⟨Cell.text cells, cursor.offset + Text.size (Cell.text passed)⟩ := by
  have hlength := hfaces.length_eq
  rw [restFragment, Cursor.rest, hfaces.ahead_eq, if_pos rfl, absolute, hfaces.position,
    min_eq_left (by omega)]

/-- A cursor that moves over some characters has the text without them ahead. -/
theorem WalksIn.restFragment_jump (hwalks : cursor.WalksIn whole) {piece : Text}
    (hpiece : piece <+: Cell.text cursor.ahead.cells) :
    (cursor.jump (Text.size piece)).restFragment = cursor.restFragment.drop piece.length := by
  obtain ⟨passed, hfaces⟩ := Bytewise.exists_faces hwalks
  obtain ⟨rest, hrest⟩ := hpiece
  obtain ⟨front, back, hcells, rfl, rfl⟩ := List.map_eq_append_iff.mp hrest.symm
  rw [hcells] at hfaces
  have hmoved := hfaces.jump
  change (cursor.jump (Text.size (Cell.text front))).restFragment =
    cursor.restFragment.drop (Cell.text front).length
  rw [hmoved.restFragment_eq, hfaces.restFragment_eq, Fragment.drop]
  dsimp only
  rw [Cell.text_append front, List.take_left, List.drop_left, Cell.text_append, Text.size_append,
    Nat.add_assoc]
  rfl

theorem WalksIn.restFragment_skipBlanks (hwalks : cursor.WalksIn whole) :
    cursor.skipBlanks.restFragment = cursor.restFragment.skipAsciiBlanks := by
  have hcut := hwalks.exists_ahead.1
  have htext : cursor.restFragment.text = Cell.text cursor.ahead.cells := by
    rw [restFragment, Cursor.rest, if_pos hcut]
  rw [Cursor.skipBlanks, if_pos hcut, Cursor.skipWhile,
    hwalks.restFragment_jump (List.takeWhile_prefix Text.isAsciiBlank), Fragment.skipAsciiBlanks,
    htext]

theorem fst_consume (cursor : Cursor) (keyword : Keyword) :
    (cursor.consume keyword).1 = (cursor.keywordLength? keyword).isSome := by
  rw [Cursor.consume]
  cases cursor.keywordLength? keyword <;> rfl

theorem WalksIn.restFragment_consume (hwalks : cursor.WalksIn whole) (keyword : Keyword) :
    (cursor.consume keyword).2.restFragment =
      cursor.restFragment.drop ((cursor.keywordLength? keyword).getD 0) := by
  rw [Cursor.consume]
  cases hcount : cursor.keywordLength? keyword with
  | none => simp [Fragment.drop]
  | some count =>
      rw [keywordLength?, Option.ite_none_left_eq_some] at hcount
      obtain ⟨front, rest, hcells, rfl, -⟩ := Keyword.exists_of_length? hcount.2
      have hmoved := @restFragment_jump whole cursor hwalks (Cell.text front)
        ⟨Cell.text rest, by rw [hcells, Cell.text_append]⟩
      rw [Cell.text, List.length_map] at hmoved
      dsimp only
      rw [hcells, List.take_left]
      exact hmoved

/-- A cursor before the first character of a fragment. -/
def ofFragment (clause : Clause) (fragment : Fragment) : Cursor :=
  { text := fragment.text, offset := fragment.start, clause := some clause }

theorem exists_walksIn (clause : Clause) (fragment : Fragment) :
    ∃ whole, (ofFragment clause fragment).WalksIn whole := by
  obtain ⟨whole, hlies⟩ := fragment.exists_liesIn
  exact ⟨whole, hlies, [], fragment.text, rfl, rfl⟩

end Cursor

namespace Bytewise

/-! ## Lists -/

/-- The text of a clause, as a cursor at its front has it ahead. -/
def body (clause : Clause) (fragment : Fragment) : Option Fragment :=
  rest (.ofFragment clause fragment)

/-- Reads the SELECT list: whether the statement is DISTINCT, and its items. -/
def selectList (fragment : Fragment) : Checked (Bool × List SelectItem) := do
  let start ← skip Text.isAsciiBlank (.ofFragment .select fragment)
  let (distinct, behind) ← consume .distinct start
  let list ← rest behind
  let items ← splitList list
  let columns ← .of <| items.mapM fun item =>
    if item.text.isEmpty then
      .error (item.emptyItemError .emptySelectItem .select)
    else
      SelectItem.read item
  pure (distinct, columns)

/-- Reads the GROUP BY list. -/
def groupList (fragment : Fragment) : Checked (List GroupItem) := do
  let list ← body .groupBy fragment
  let items ← splitList list
  .of <| items.mapM fun item =>
    if item.text.isEmpty then
      .error (item.emptyItemError .emptyGroupItem .groupBy)
    else
      GroupItem.read item

/-- Reads the ORDER BY list. -/
def orderList (fragment : Fragment) : Checked (List OrderItem) := do
  let list ← body .orderBy fragment
  let items ← splitList list
  .of <| items.mapM fun item =>
    if item.text.isEmpty then
      .error (item.emptyItemError .emptyOrderItem .orderBy)
    else
      OrderItem.read item

/-! ## LIMIT and OFFSET -/

/-- Reads the number behind a keyword. -/
def number (keyword : String) (cursor : Cursor) : Option (Except ParseError UInt64 × Cursor) := do
  let start ← skip Text.isAsciiBlank cursor
  let first ← current start
  if first = '?' then
    (errorAt start.next start.position .positionalParameter).map fun error =>
      (.error error, start.next)
  else
    match ← word start with
    | (.error error, behind) => some (.error error, behind)
    | (.ok word, behind) => do
      let last ← current behind
      let fail (cause : ParseError.Cause) : Option (Except ParseError UInt64 × Cursor) :=
        (errorAt behind start.position cause).map fun error => (.error error, behind)
      if word.head? = some ':' then
        fail (.parameterInPaging keyword)
      else if last = ',' then
        fail (.commaInPaging keyword)
      else
        match Paging.number? word with
        | some number => some (.ok number, behind)
        | none => fail (.invalidNumber keyword)

/-- Reads the rest of a LIMIT and OFFSET clause, at most as many items as `bound` says. -/
def pagingWithin (bound : Nat) (paging : Paging) (cursor : Cursor) :
    Option (Except ParseError Paging × Cursor) := do
  let start ← skip Text.isAsciiBlank cursor
  match bound with
  | 0 => some (.ok paging, start)
  | bound + 1 =>
    if start.atEnd then
      some (.ok paging, start)
    else
      match ← consume .limit start with
      | (true, behind) => do
        match ← number "LIMIT" behind with
        | (.ok number, behind) => pagingWithin bound { paging with limit := some number } behind
        | (.error error, behind) => some (.error error, behind)
      | (false, _) => do
        match ← consume .offset start with
        | (true, behind) => do
          match ← number "OFFSET" behind with
          | (.ok number, behind) => pagingWithin bound { paging with offset := some number } behind
          | (.error error, behind) => some (.error error, behind)
        | (false, _) =>
          (errorAt start start.position .invalidPaging).map fun error => (.error error, start)

/-- Reads a LIMIT and OFFSET clause. -/
def paging (fragment : Fragment) : Checked Paging := do
  let cursor : Cursor := .ofFragment .paging fragment
  let (found, _) ← pagingWithin (cursor.length + 1) {} cursor
  .of found

/-! ## What is read -/

theorem body_eq (clause : Clause) (fragment : Fragment) : body clause fragment = some fragment := by
  obtain ⟨whole, hwalks⟩ := Cursor.exists_walksIn clause fragment
  rw [body, rest_eq hwalks, Cursor.restFragment_start rfl]
  rfl

theorem selectList_eq (fragment : Fragment) :
    selectList fragment = .of (SelectItem.readList fragment) := by
  obtain ⟨whole, hwalks⟩ := Cursor.exists_walksIn .select fragment
  have hstart := hwalks.skipBlanks
  have hlength := @LocatedClause.keywordLength?_skipBlanks (.ofFragment .select fragment) rfl
    .distinct rfl
  have hlist : (Cursor.ofFragment .select fragment).skipBlanks.restFragment =
      fragment.skipAsciiBlanks := by
    rw [hwalks.restFragment_skipBlanks, Cursor.restFragment_start rfl]
    rfl
  rw [selectList, skipBlanks_eq hwalks, SelectItem.readList]
  generalize (Cursor.ofFragment .select fragment).skipBlanks = start at hstart hlength hlist
  have hdistinct : Keyword.distinct.isPlain = true := rfl
  have hbehind := hstart.consume (Prod.mk.eta (p := start.consume .distinct)).symm
  simp only [Checked.liftM_some, pure_bind, consume_eq hdistinct hstart, rest_eq hbehind,
    hstart.restFragment_consume, Cursor.fst_consume, hlength, hlist, splitList_eq, Checked.of_bind,
    Checked.of_ok]
  rfl

theorem groupList_eq (fragment : Fragment) :
    groupList fragment = .of (GroupItem.readList fragment) := by
  rw [groupList, body_eq]
  simp only [Checked.liftM_some, pure_bind, splitList_eq]
  rfl

theorem orderList_eq (fragment : Fragment) :
    orderList fragment = .of (OrderItem.readList fragment) := by
  rw [orderList, body_eq]
  simp only [Checked.liftM_some, pure_bind, splitList_eq]
  rfl

section Paging

variable {whole : Text} {cursor : Cursor}

theorem number_eq (keyword : String) (hwalks : cursor.WalksIn whole) :
    number keyword cursor = some (Paging.readNumber keyword cursor) := by
  rw [number, skipBlanks_eq hwalks, Paging.readNumber]
  simp only [Option.bind_eq_bind, Option.bind_some, current_eq, word_eq hwalks.skipBlanks,
    errorAt_eq, Option.map_some]
  split
  · rfl
  · obtain ⟨result, behind⟩ := Reader.word cursor.skipBlanks
    cases result with
    | error error => rfl
    | ok word =>
        dsimp only
        split_ifs
        · rfl
        · rfl
        · cases Paging.number? word <;> rfl

theorem pagingWithin_eq (bound : Nat) (paging : Paging) (hwalks : cursor.WalksIn whole) :
    pagingWithin bound paging cursor = some (Paging.readWithin bound paging cursor) := by
  have hlimit : Keyword.limit.isPlain = true := rfl
  have hoffset : Keyword.offset.isPlain = true := rfl
  induction bound generalizing paging cursor with
  | zero =>
      rw [pagingWithin, skipBlanks_eq hwalks]
      rfl
  | succ bound ih =>
      have hstart := hwalks.skipBlanks
      rw [pagingWithin, skipBlanks_eq hwalks, Paging.readWithin]
      generalize cursor.skipBlanks = start at hstart
      simp only [Option.bind_eq_bind, Option.bind_some, consume_eq hlimit hstart,
        consume_eq hoffset hstart, errorAt_eq, Option.map_some]
      split
      · rfl
      -- Behind each of the two keywords a number is read, and then the rest of the clause.
      rcases hfirst : start.consume .limit with ⟨_ | _, behind⟩
      · rcases hsecond : start.consume .offset with ⟨_ | _, behind⟩
        · rfl
        · have hbehind := hstart.consume hsecond
          have hmoved := (@Paging.placesErrors_readNumber _ _ "OFFSET" hbehind).2
          simp only [number_eq "OFFSET" hbehind, Option.bind_some]
          generalize Paging.readNumber "OFFSET" behind = found at hmoved
          rcases found with ⟨_ | number, further⟩
          · rfl
          · exact ih _ hmoved
      · have hbehind := hstart.consume hfirst
        have hmoved := (@Paging.placesErrors_readNumber _ _ "LIMIT" hbehind).2
        simp only [number_eq "LIMIT" hbehind, Option.bind_some]
        generalize Paging.readNumber "LIMIT" behind = found at hmoved
        rcases found with ⟨_ | number, further⟩
        · rfl
        · exact ih _ hmoved

theorem paging_eq (fragment : Fragment) :
    paging fragment = .of (Paging.read (.ofFragment .paging fragment)).1 := by
  obtain ⟨whole, hwalks⟩ := Cursor.exists_walksIn .paging fragment
  rw [paging, pagingWithin_eq _ _ hwalks]
  rfl

end Paging

end Bytewise

end SelectForm

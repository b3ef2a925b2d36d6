import Mathlib
import SelectForm.Proofs.Statement.ByteSplit
import SelectForm.Proofs.Statement.Checked
import SelectForm.Proofs.Statement.CursorCells
import SelectForm.Proofs.Statement.CursorRun
import SelectForm.Proofs.Statement.PlacedPaging

/-!
# A cursor byte by byte

A cursor can look at one byte after the other.  One that stands between two characters, and looks
for blanks, words and keywords in this way, looks at no byte outside its text and moves as it does
over the characters: a byte that ends what it looks for is the first byte of a character.
-/

namespace SelectForm

namespace Bytewise

/-! ## Looking and moving -/

/-- Where the bytes that pass a test end. -/
def runEnd (test : Char → Bool) (text : Text) (place : Nat) : Option Nat :=
  if place < Text.size text then do
    let byte ← text.byteAt? place
    if test (Char.ofNat byte.toNat) then runEnd test text (place + 1) else some place
  else
    some place
termination_by Text.size text - place

/-- Moves over the bytes that pass a test. -/
def skip (test : Char → Bool) (cursor : Cursor) : Option Cursor :=
  (runEnd test cursor.text cursor.position).map fun place => { cursor with position := place }

/-- The byte at a cursor, as a character. -/
def current (cursor : Cursor) : Option Char :=
  if cursor.atEnd then
    some '\x00'
  else
    (cursor.text.byteAt? cursor.position).map fun byte => Char.ofNat byte.toNat

/-- Number of bytes of a keyword at a cursor. -/
def lengthAt (keyword : Keyword) (cursor : Cursor) : Option (Option Nat) :=
  if cursor.atEnd then
    some none
  else do
    let mask ← codeMask cursor.text
    matchAt cursor.text mask keyword cursor.position

/-- Moves over a keyword and tells whether it was there. -/
def consume (keyword : Keyword) (cursor : Cursor) : Option (Bool × Cursor) := do
  match ← lengthAt keyword cursor with
  | some count => some (true, cursor.jump count)
  | none => some (false, cursor)

/-- What the bytes between two places show, which are brought into the text and in order first. -/
def shown (text : Text) (first last : Nat) : Option Text :=
  let stop := min last (Text.size text)
  let start := min first stop
  (part? (Text.bytes text) start stop).map fun _ => text.slice start stop

/-- The error that points from a position to a cursor, and shows one byte more. -/
def errorAt (cursor : Cursor) (pivot : Nat) (cause : ParseError.Cause) : Option ParseError :=
  (shown cursor.text pivot (cursor.position + 1)).map fun text =>
    ⟨cause, cursor.clause, text, cursor.absolute pivot, cursor.absolute cursor.position⟩

/-- The text ahead of a cursor as a fragment. -/
def rest (cursor : Cursor) : Option Fragment :=
  (cursor.text.cut? cursor.position cursor.length).map (⟨·, cursor.absolute cursor.position⟩)

/-- Reads one word. -/
def word (cursor : Cursor) : Option (Except ParseError Text × Cursor) := do
  let stopped ← skip Text.isWordChar cursor
  let last ← current stopped
  if stopped.atEnd || Reader.endsWord last then
    (shown cursor.text cursor.position stopped.position).map fun text => (.ok text, stopped)
  else
    (errorAt stopped cursor.position .invalidText).map fun error => (.error error, stopped)

/-! ## Runs of bytes -/

/-- All bytes of a character pass a test exactly if the character does. -/
def IsBytewise (test : Char → Bool) : Prop :=
  ∀ c, ∀ byte ∈ String.utf8EncodeChar c, test (Char.ofNat byte.toNat) = test c

theorem isBytewise_isAsciiBlank : IsBytewise Text.isAsciiBlank :=
  fun _ _ hmem => isBlankByte_of_mem hmem

theorem isBytewise_isWordChar : IsBytewise Text.isWordChar :=
  fun _ _ hmem => Text.isWordByte_of_mem hmem

theorem IsBytewise.not {test : Char → Bool} (htest : IsBytewise test) :
    IsBytewise fun c => !test c :=
  fun c byte hmem => congrArg (!·) (htest c byte hmem)

theorem runEnd_eq {test : Char → Bool} (htest : IsBytewise test) (front back : Text) :
    runEnd test (front ++ back) (Text.size front) =
      some (Text.size front + Text.size (back.takeWhile test)) := by
  induction back generalizing front with
  | nil =>
      rw [runEnd, if_neg (by simp)]
      rfl
  | cons c back ih =>
      have hpos := c.utf8Size_pos
      cases hc : test c with
      | true =>
          have hpass : runEnd test (front ++ c :: back) (Text.size front) =
              runEnd test (front ++ c :: back) (Text.size front + c.utf8Size) := by
            refine Text.pass_char front back fun place byte _ _ hat hmem => ?_
            rw [runEnd, if_pos (Text.lt_size_of_byteAt? hat), hat]
            exact if_pos ((htest c byte hmem).trans hc)
          have hrest := ih (front ++ [c])
          rw [List.append_assoc, List.singleton_append, Text.size_append, Text.size_cons,
            Text.size_nil, Nat.add_zero] at hrest
          rw [hpass, hrest, List.takeWhile_cons_of_pos hc, Text.size_cons, Nat.add_assoc]
      | false =>
          obtain ⟨byte, hmem, hat⟩ := @Text.exists_byteAt?_of_mem c front back (Text.size front)
            le_rfl (by omega)
          rw [runEnd, if_pos (Text.lt_size_of_byteAt? hat), hat,
            List.takeWhile_cons_of_neg (by simp [hc])]
          exact if_neg (by simp [htest c byte hmem, hc])

theorem shown_eq (text : Text) (first last : Nat) :
    shown text first last = some (text.slice first last) := by
  have hlength : min last (Text.size text) ≤ (Text.bytes text).length := by
    rw [Text.length_bytes]
    exact Nat.min_le_right _ _
  rw [shown, part?_eq (Nat.min_le_right _ _) hlength, text.slice_clamp first last]
  rfl

theorem errorAt_eq (cursor : Cursor) (pivot : Nat) (cause : ParseError.Cause) :
    errorAt cursor pivot cause = some (cursor.error pivot cause) := by
  rw [errorAt, shown_eq]
  rfl

theorem current_eq (cursor : Cursor) : current cursor = some cursor.current := by
  rw [current, Cursor.current, Cursor.peek, Nat.add_zero]
  split
  · rename_i hend
    have hnone : cursor.text.byteAt? cursor.position = none := by
      rw [Text.byteAt?, List.getElem?_eq_none_iff, Text.length_bytes]
      exact of_decide_eq_true hend
    rw [hnone]
  · rename_i hend
    rw [Cursor.atEnd, decide_eq_true_iff, Nat.not_le] at hend
    obtain ⟨byte, hbyte⟩ := exists_byteAt? hend
    rw [hbyte]
    rfl

/-! ## Cursors between characters -/

section Cursors

variable {whole : Text} {cursor : Cursor}

theorem exists_faces (hwalks : cursor.WalksIn whole) :
    ∃ passed, cursor.Faces passed cursor.ahead.cells := by
  obtain ⟨front, back, htext, hposition⟩ := hwalks.boundary
  obtain ⟨passed, cells, hcells, rfl, -⟩ :=
    List.map_eq_append_iff.mp ((Mode.text_cells .between cursor.text).trans htext)
  have hfaces : cursor.Faces passed cells := ⟨hcells, hposition⟩
  refine ⟨passed, ?_⟩
  rw [hfaces.ahead_eq]
  exact hfaces

theorem skip_eq {test : Char → Bool} (htest : IsBytewise test) (hwalks : cursor.WalksIn whole) :
    skip test cursor = some (cursor.skipWhile test) := by
  obtain ⟨-, front, htext, hposition⟩ := hwalks.exists_ahead
  have hmoved := (hwalks.jump (List.takeWhile_prefix (l := Cell.text cursor.ahead.cells) test)).2
  have hend := runEnd_eq htest front (Cell.text cursor.ahead.cells)
  rw [← htext, ← hposition, ← hmoved] at hend
  rw [skip, hend]
  rfl

theorem skipBlanks_eq (hwalks : cursor.WalksIn whole) :
    skip Text.isAsciiBlank cursor = some cursor.skipBlanks := by
  rw [skip_eq isBytewise_isAsciiBlank hwalks, Cursor.skipBlanks, if_pos hwalks.exists_ahead.1]

theorem lengthAt_eq {keyword : Keyword} (hplain : keyword.isPlain = true)
    (hwalks : cursor.WalksIn whole) :
    lengthAt keyword cursor = some ((cursor.keywordLength? keyword).map fun count =>
      Text.size (Cell.text (cursor.ahead.cells.take count))) := by
  obtain ⟨passed, hfaces⟩ := exists_faces hwalks
  have hmatch := matchAt_of_cells hfaces.cells (Keyword.isCapital_of_isPlain hplain)
  have hbefore : cursor.ahead.before = (Cell.text passed).getLast? :=
    congrArg Ahead.before hfaces.ahead_eq
  rw [lengthAt, Cursor.keywordLength?, hwalks.exists_ahead.1, codeMask_eq, hfaces.position, hbefore]
  cases cursor.atEnd with
  | true => rfl
  | false => exact hmatch

theorem consume_eq {keyword : Keyword} (hplain : keyword.isPlain = true)
    (hwalks : cursor.WalksIn whole) : consume keyword cursor = some (cursor.consume keyword) := by
  rw [consume, lengthAt_eq hplain hwalks, Cursor.consume]
  cases cursor.keywordLength? keyword <;> rfl

theorem rest_eq (hwalks : cursor.WalksIn whole) : rest cursor = some cursor.restFragment := by
  obtain ⟨hcut, front, htext, hposition⟩ := hwalks.exists_ahead
  have hback := Text.cut?_back front (Cell.text cursor.ahead.cells)
  rw [← htext, ← hposition] at hback
  rw [rest, Cursor.length, hback, Cursor.restFragment, Cursor.rest, if_pos hcut]
  rfl

theorem word_eq (hwalks : cursor.WalksIn whole) : word cursor = some (Reader.word cursor) := by
  have hstart : cursor.jump cursor.ahead.cut = cursor := by
    rw [hwalks.exists_ahead.1, hwalks.jump_zero]
  rw [word, skip_eq isBytewise_isWordChar hwalks, Reader.word, hstart]
  simp only [Option.bind_eq_bind, Option.bind_some, current_eq, shown_eq, errorAt_eq,
    Option.map_some]
  split <;> rfl

end Cursors

end Bytewise

end SelectForm

import SelectForm.Lexis.Segment
import SelectForm.Lexis.Span
import SelectForm.Statement.ParseError

/-!
# Cursors

A cursor stands at a byte offset of a text, and may stand inside a character.  It
only moves forward and never beyond the end.  A reader is an action on a cursor:
it gives a value or an error, and leaves the cursor where it stopped in both
cases.
-/

namespace SelectForm

/-- A place in a text.  `offset` is the position of the text in the whole statement,
and `clause` is the clause that is being read. -/
structure Cursor where
  text : Text
  offset : Nat := 0
  position : Nat := 0
  clause : Option Clause := some .select
deriving DecidableEq, Repr

/-- What is ahead of a place in a text. -/
structure Ahead where
  /-- The character before the place, or the one that it cuts. -/
  before : Option Char
  /-- The number of bytes left of a character that the place cuts. -/
  cut : Nat
  cells : List Cell

namespace Ahead

/-- Passes over a number of bytes. -/
def seek (before : Option Char) : List Cell → Nat → Ahead
  | cells, 0 => ⟨before, 0, cells⟩
  | [], _ + 1 => ⟨before, 0, []⟩
  | cell :: rest, count + 1 =>
    if cell.char.utf8Size ≤ count + 1 then
      seek (some cell.char) rest (count + 1 - cell.char.utf8Size)
    else
      ⟨some cell.char, cell.char.utf8Size - (count + 1), rest⟩

/-- The text ahead, with a replacement character for each byte of a cut one. -/
def text (ahead : Ahead) : Text :=
  List.replicate ahead.cut Text.replacement ++ Cell.text ahead.cells

end Ahead

namespace Cursor

/-! ## Looking -/

def length (cursor : Cursor) : Nat := Text.size cursor.text

def atEnd (cursor : Cursor) : Bool := cursor.length ≤ cursor.position

/-- The offset of a position in the whole statement. -/
def absolute (cursor : Cursor) (position : Nat) : Nat :=
  cursor.offset + min position cursor.length

def ahead (cursor : Cursor) : Ahead := .seek none cursor.text.cells cursor.position

/-- The byte some places ahead, as the character of the same number; the null
character behind the end. -/
def peek (cursor : Cursor) (count : Nat) : Char :=
  match Text.byteAt? cursor.text (cursor.position + count) with
  | some byte => Char.ofNat byte.toNat
  | none => '\x00'

/-- The byte at the cursor, as a character. -/
def current (cursor : Cursor) : Char := cursor.peek 0

/-- Whether the byte at a position is code. -/
def isCodeAt (cursor : Cursor) (position : Nat) : Bool :=
  cursor.text.codeMask[position]?.getD false

/-- The text between two positions. -/
def range (cursor : Cursor) (first last : Nat) : Text :=
  Text.slice cursor.text first last

/-- The text between a position and the cursor. -/
def since (cursor : Cursor) (pivot : Nat) : Text := cursor.range pivot cursor.position

/-- The text ahead; there is none if the cursor is inside a character. -/
def rest (cursor : Cursor) : Text :=
  if cursor.ahead.cut = 0 then Cell.text cursor.ahead.cells else []

/-- The text ahead as a fragment of the whole statement. -/
def restFragment (cursor : Cursor) : Fragment :=
  ⟨cursor.rest, cursor.absolute cursor.position⟩

/-- Number of characters of a keyword at the cursor. -/
def keywordLength? (cursor : Cursor) (keyword : Keyword) : Option Nat :=
  if cursor.atEnd || cursor.ahead.cut ≠ 0 then
    none
  else
    keyword.length? cursor.ahead.before cursor.ahead.cells

/-- Whether a keyword stands at the cursor. -/
def compare (cursor : Cursor) (keyword : Keyword) : Bool :=
  (cursor.keywordLength? keyword).isSome

/-- The error that points from a position to the cursor, and shows one byte more. -/
def error (cursor : Cursor) (pivot : Nat) (cause : ParseError.Cause) : ParseError :=
  ⟨cause, cursor.clause, cursor.range pivot (cursor.position + 1), cursor.absolute pivot,
    cursor.absolute cursor.position⟩

/-! ## Moving -/

/-- Moves by a number of bytes, at most to the end. -/
def jump (cursor : Cursor) (count : Nat) : Cursor :=
  { cursor with position := min (cursor.position + count) cursor.length }

/-- Moves by one byte. -/
def next (cursor : Cursor) : Cursor := cursor.jump 1

/-- Moves to the end. -/
def finish (cursor : Cursor) : Cursor := cursor.jump cursor.length

/-- Moves over the characters ahead that pass a test. -/
def skipWhile (test : Char → Bool) (cursor : Cursor) : Cursor :=
  cursor.jump (Text.size ((Cell.text cursor.ahead.cells).takeWhile test))

/-- Moves over ASCII blanks. -/
def skipBlanks (cursor : Cursor) : Cursor :=
  if cursor.ahead.cut = 0 then cursor.skipWhile Text.isAsciiBlank else cursor

/-- Moves over a keyword and tells whether it was there. -/
def consume (cursor : Cursor) (keyword : Keyword) : Bool × Cursor :=
  match cursor.keywordLength? keyword with
  | some count =>
    (true, cursor.jump (Text.size (Cell.text (cursor.ahead.cells.take count))))
  | none => (false, cursor)

end Cursor

/-- An action on a cursor that gives a value or an error. -/
abbrev Reader (α : Type) := Cursor → Except ParseError α × Cursor

namespace Reader

/-- Reads all that is ahead as one fragment; the cursor moves only if that
succeeds. -/
def ofFragment {α : Type} (read : Fragment → Except ParseError α) : Reader α :=
  fun cursor =>
    match read cursor.restFragment with
    | .ok value => (.ok value, cursor.finish)
    | .error error => (.error error, cursor)

/-! ## Words -/

/-- Characters that end a word. -/
def endsWord (c : Char) : Bool :=
  Text.isAsciiBlank c || c == ',' || c == '(' || c == ')' || c == ';'

/-- Reads one word: an identifier, a number or a parameter.  It must end with a
delimiter or with the text. -/
def word : Reader Text := fun cursor =>
  let stopped := (cursor.jump cursor.ahead.cut).skipWhile Text.isWordChar
  if stopped.atEnd || endsWord stopped.current then
    (.ok (stopped.since cursor.position), stopped)
  else
    (.error (stopped.error cursor.position .invalidText), stopped)

end Reader

end SelectForm

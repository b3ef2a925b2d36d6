/-!
# Texts and their byte offsets

A text is a list of characters.  Every position that the library reports is a
byte offset into the UTF-8 form of a text, so this file measures texts in
bytes, reads the byte at an offset and cuts a text between two offsets.  An
offset may fall inside a character; a slice then shows one replacement
character for a character whose end was cut off, and one for each byte left of
a character whose beginning was cut off.
-/

namespace SelectForm

/-- A text, character by character. -/
abbrev Text := List Char

namespace Text

/-- Number of bytes of the UTF-8 form of a text. -/
def size : Text → Nat
  | [] => 0
  | c :: rest => c.utf8Size + size rest

@[simp] theorem size_nil : size [] = 0 := rfl

@[simp] theorem size_cons (c : Char) (rest : Text) :
    size (c :: rest) = c.utf8Size + size rest := rfl

@[simp] theorem size_append (left right : Text) :
    size (left ++ right) = size left + size right := by
  induction left with
  | nil => simp
  | cons c rest ih => simp [ih, Nat.add_assoc]

/-- The bytes of the UTF-8 form of a text. -/
def bytes (text : Text) : List UInt8 :=
  text.flatMap String.utf8EncodeChar

theorem length_bytes (text : Text) : (bytes text).length = size text := by
  induction text with
  | nil => rfl
  | cons c rest ih =>
    have hrest : (List.flatMap String.utf8EncodeChar rest).length = size rest := ih
    simp [bytes, hrest]

/-- The byte at a byte offset, if the offset lies inside the text. -/
def byteAt? (text : Text) (offset : Nat) : Option UInt8 :=
  (bytes text)[offset]?

/-- Stands in a slice for a part of a character. -/
def replacement : Char := '\uFFFD'

/-- The text between two byte offsets, with replacement characters where an
offset falls inside a character. -/
def slice : Text → Nat → Nat → Text
  | [], _, _ => []
  | c :: rest, first, last =>
    if last ≤ first then
      []
    else if c.utf8Size ≤ first then
      slice rest (first - c.utf8Size) (last - c.utf8Size)
    else if first = 0 then
      if c.utf8Size ≤ last then
        c :: slice rest 0 (last - c.utf8Size)
      else
        [replacement]
    else
      List.replicate (min c.utf8Size last - first) replacement ++
        slice rest 0 (last - c.utf8Size)

/-- The pieces between the occurrences of a separator; there is always one
piece more than there are separators. -/
def splitOn (separator : Char) : Text → List Text
  | [] => [[]]
  | c :: rest =>
    match splitOn separator rest with
    | piece :: pieces =>
      if c = separator then [] :: piece :: pieces else (c :: piece) :: pieces
    | [] => [[c]]

/-- Whether a text occurs somewhere inside another one. -/
def occursIn (needle : Text) : Text → Bool
  | [] => needle.isEmpty
  | c :: rest => needle.isPrefixOf (c :: rest) || occursIn needle rest

end Text

end SelectForm

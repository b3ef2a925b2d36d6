import SelectForm.Text.Basic

/-!
# Letters of names and keywords

Names are made of ASCII letters, digits, the underscore and the dollar sign.
Some items are compared without regard to case in the Unicode sense, where two
characters outside ASCII also count as letters: the long s (U+017F) folds to
`s` and the Kelvin sign (U+212A) folds to `k`.  They let such an item match,
and the stricter test of the name that was read then rejects it.
-/

namespace SelectForm

namespace Text

/-- A letter or an underscore may begin a name. -/
def isNameHead (c : Char) : Bool :=
  c.isAlpha || c == '_'

/-- Letters, digits, the underscore and the dollar sign continue a name. -/
def isNameTail (c : Char) : Bool :=
  c.isAlphanum || c == '_' || c == '$'

/-- Characters of a parameter name. -/
def isParameterChar (c : Char) : Bool :=
  c.isAlphanum || c == '_'

/-- Characters to which a keyword must not be glued: those of names, the
colon of a parameter, the dot of a qualified name and all beyond ASCII. -/
def isWordChar (c : Char) : Bool :=
  c.isAlphanum || c == '_' || c == '$' || c == ':' || c == '.' || 0x80 ≤ c.toNat

/-! ## Letters up to case -/

/-- The ASCII capital to which a character folds, where the long s and the
Kelvin sign fold to `S` and `K`. -/
def foldUpper (c : Char) : Char :=
  if c == '\u017F' then 'S' else if c == '\u212A' then 'K' else c.toUpper

/-- A character that folds to one that may begin a name. -/
def isFoldedHead (c : Char) : Bool := isNameHead (foldUpper c)

/-- A character that folds to one that may continue a name. -/
def isFoldedTail (c : Char) : Bool := isNameTail (foldUpper c)

/-- Whether a text folds to a word written in capitals. -/
def foldsTo (word text : Text) : Bool := text.map foldUpper == word

/-- Equality that ignores the case of ASCII letters. -/
def sameLetters (left right : Text) : Bool :=
  left.map Char.toLower == right.map Char.toLower

/-! ## Runs that form a name -/

/-- A nonempty text whose first character passes one test and whose other
characters pass another. -/
def isRun (head tail : Char → Bool) : Text → Bool
  | [] => false
  | c :: rest => head c && rest.all tail

/-- Splits a run, as long as possible, off the front of a text. -/
def takeRun? (head tail : Char → Bool) : Text → Option (Text × Text)
  | [] => none
  | c :: rest =>
    if head c then some (c :: rest.takeWhile tail, rest.dropWhile tail) else none

/-- The form of a bare name. -/
def isName (text : Text) : Bool := isRun isNameHead isNameTail text

/-- Splits a bare name off the front of a text. -/
def takeName? (text : Text) : Option (Text × Text) :=
  takeRun? isNameHead isNameTail text

end Text

end SelectForm

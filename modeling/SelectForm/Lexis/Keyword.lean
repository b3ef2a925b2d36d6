import SelectForm.Text.Blank
import SelectForm.Text.Letter
import SelectForm.Text.Uppercase
import SelectForm.Lexis.Cell

/-!
# Keywords

A keyword is a phrase, such as `GROUP BY`, or a symbol, such as `<=`.  It is
found in code only.  The words of a phrase are compared without regard to the
case of ASCII letters, any run of ASCII blanks may stand between two of them,
and no character of a name may touch the phrase.  A symbol stands for itself.
-/

namespace SelectForm

/-- How a keyword is written. -/
inductive Keyword.Form
  /-- Words in capitals. -/
  | phrase (words : List Text)
  /-- A text that needs no boundary around it. -/
  | symbol (text : Text)
deriving DecidableEq, Repr

/-- A keyword and the name under which messages mention it. -/
structure Keyword where
  name : String
  form : Keyword.Form
deriving DecidableEq, Repr

namespace Keyword

/-- The phrase made of some words in capitals. -/
def ofWords (words : List String) : Keyword :=
  ⟨" ".intercalate words, .phrase (words.map String.toList)⟩

/-- The phrase whose words are separated by blanks in a text. -/
def ofPhrase (phrase : String) : Keyword :=
  ⟨String.ofList (Text.capitals phrase.toList),
    .phrase ((Text.words phrase.toList).map (List.map Char.toUpper))⟩

/-- The symbol that is written as the given text. -/
def ofSymbol (symbol : String) : Keyword := ⟨symbol, .symbol symbol.toList⟩

/-! ## Matching -/

/-- What is behind a word of code, up to the case of ASCII letters. -/
def afterWord? : Text → List Cell → Option (List Cell)
  | [], cells => some cells
  | _ :: _, [] => none
  | c :: word, cell :: cells =>
    if cell.isCode && cell.char.toUpper == c then afterWord? word cells else none

/-- A blank that may stand between the words of a phrase. -/
def isGap (cell : Cell) : Bool := cell.isCode && Text.isAsciiBlank cell.char

/-- What is behind some words of code, each with a gap in front of it. -/
def afterWords? : List Text → List Cell → Option (List Cell)
  | [], cells => some cells
  | word :: words, cells =>
    if cells.head?.any isGap then
      match afterWord? word (cells.dropWhile isGap) with
      | some rest => afterWords? words rest
      | none => none
    else
      none

/-- What is behind a phrase. -/
def afterPhrase? : List Text → List Cell → Option (List Cell)
  | [], cells => some cells
  | word :: words, cells =>
    match afterWord? word cells with
    | some rest => afterWords? words rest
    | none => none

/-- What is behind a symbol. -/
def afterSymbol? : Text → List Cell → Option (List Cell)
  | [], cells => some cells
  | _ :: _, [] => none
  | c :: symbol, cell :: cells =>
    if cell.isCodeChar c then afterSymbol? symbol cells else none

/-- What is behind a keyword that stands at the front of some cells; `before`
is the character in front of them. -/
def after? (keyword : Keyword) (before : Option Char) (cells : List Cell) :
    Option (List Cell) :=
  match keyword.form with
  | .symbol symbol => afterSymbol? symbol cells
  | .phrase words =>
    if before.any Text.isWordChar then
      none
    else
      match afterPhrase? words cells with
      | some rest =>
        if rest.head?.any fun cell => Text.isWordChar cell.char then none else some rest
      | none => none

/-- Number of characters of a keyword that stands at the front of some cells. -/
def length? (keyword : Keyword) (before : Option Char) (cells : List Cell) :
    Option Nat :=
  (keyword.after? before cells).map fun rest => cells.length - rest.length

/-- Number of bytes of a keyword that stands at the given byte offset of a text.
Only an empty symbol stands inside a character. -/
def matchAt? (keyword : Keyword) (text : Text) (offset : Nat) : Option Nat :=
  go none text.cells offset
where
  go (before : Option Char) : List Cell → Nat → Option Nat
    | cells, 0 =>
      (keyword.length? before cells).map fun count =>
        Text.size (Cell.text (cells.take count))
    | [], _ + 1 => none
    | cell :: rest, offset + 1 =>
      if cell.char.utf8Size ≤ offset + 1 then
        go (some cell.char) rest (offset + 1 - cell.char.utf8Size)
      else if keyword.form = .symbol [] then
        some 0
      else
        none

/-! ## The keywords of a statement -/

def select : Keyword := ofWords ["SELECT"]
def distinct : Keyword := ofWords ["DISTINCT"]
def from_ : Keyword := ofWords ["FROM"]
def join : Keyword := ofWords ["JOIN"]
def innerJoin : Keyword := ofWords ["INNER", "JOIN"]
def leftJoin : Keyword := ofWords ["LEFT", "JOIN"]
def leftOuterJoin : Keyword := ofWords ["LEFT", "OUTER", "JOIN"]
def rightJoin : Keyword := ofWords ["RIGHT", "JOIN"]
def rightOuterJoin : Keyword := ofWords ["RIGHT", "OUTER", "JOIN"]
def fullJoin : Keyword := ofWords ["FULL", "JOIN"]
def fullOuterJoin : Keyword := ofWords ["FULL", "OUTER", "JOIN"]
def crossJoin : Keyword := ofWords ["CROSS", "JOIN"]
def natural : Keyword := ofWords ["NATURAL"]
def on : Keyword := ofWords ["ON"]
def using_ : Keyword := ofWords ["USING"]
def where_ : Keyword := ofWords ["WHERE"]
def groupBy : Keyword := ofWords ["GROUP", "BY"]
def having : Keyword := ofWords ["HAVING"]
def orderBy : Keyword := ofWords ["ORDER", "BY"]
def limit : Keyword := ofWords ["LIMIT"]
def offset : Keyword := ofWords ["OFFSET"]
def and_ : Keyword := ofWords ["AND"]
def or_ : Keyword := ofWords ["OR"]
def not_ : Keyword := ofWords ["NOT"]
def between : Keyword := ofWords ["BETWEEN"]
def in_ : Keyword := ofWords ["IN"]
def like : Keyword := ofWords ["LIKE"]
def isNull : Keyword := ofWords ["IS", "NULL"]
def isNotNull : Keyword := ofWords ["IS", "NOT", "NULL"]
def equal : Keyword := ofSymbol "="
def notEqual : Keyword := ofSymbol "<>"
def notEqualBang : Keyword := ofSymbol "!="
def greater : Keyword := ofSymbol ">"
def greaterOrEqual : Keyword := ofSymbol ">="
def less : Keyword := ofSymbol "<"
def lessOrEqual : Keyword := ofSymbol "<="
def with_ : Keyword := ofWords ["WITH"]
def union : Keyword := ofWords ["UNION"]
def intersect : Keyword := ofWords ["INTERSECT"]
def except : Keyword := ofWords ["EXCEPT"]
def over_ : Keyword := ofWords ["OVER"]
def insert : Keyword := ofWords ["INSERT"]
def update : Keyword := ofWords ["UPDATE"]
def delete : Keyword := ofWords ["DELETE"]

end Keyword

end SelectForm

import SelectForm.Text.Basic

/-!
# Lexical classes

Every character of a statement is code, part of a quoted literal or part of a
comment.  The class is found by an automaton that reads a text once, from left
to right, and looks one character ahead: a quotation mark opens a literal, two
hyphens open a comment that ends before the next line feed, a slash and a star
open one that ends with a star and a slash.  Inside a literal its quotation mark
is written twice.

The automaton never fails.  A literal or a block comment that is not closed
extends to the end of the text, and the mode in which the automaton stops tells
so.
-/

namespace SelectForm

/-- The quotation marks of literals. -/
inductive Quote
  | single
  | double
deriving DecidableEq, Repr

namespace Quote

/-- The character of a quotation mark. -/
def char : Quote → Char
  | single => '\''
  | double => '"'

/-- The quotation mark that a character is. -/
def ofChar? (c : Char) : Option Quote :=
  if c = '\'' then some single else if c = '"' then some double else none

end Quote

/-- The lexical class of a span of characters. -/
inductive SpanKind
  | code
  | quoted (quote : Quote)
  | lineComment
  | blockComment
deriving DecidableEq, Repr

namespace SpanKind

def isComment : SpanKind → Bool
  | lineComment | blockComment => true
  | _ => false

end SpanKind

/-- A character with its lexical class; `opens` marks the first character of a
span. -/
structure Cell where
  char : Char
  kind : SpanKind
  opens : Bool
deriving DecidableEq, Repr

namespace Cell

/-- Whether the character is code. -/
def isCode (cell : Cell) : Bool := cell.kind == .code

/-- Whether the character is code and is the given one. -/
def isCodeChar (c : Char) (cell : Cell) : Bool := cell.isCode && cell.char == c

/-- The characters of a list of cells. -/
def text (cells : List Cell) : Text := cells.map char

end Cell

/-- What the automaton has read so far. -/
inductive Mode
  /-- A span has just ended, or nothing has been read. -/
  | between
  /-- Inside code. -/
  | code
  /-- Inside a literal. -/
  | quoted (quote : Quote)
  /-- Between the two quotation marks that stand for one. -/
  | doubled (quote : Quote)
  /-- Inside a comment that ends with its line. -/
  | line
  /-- Between the slash and the star that open a comment. -/
  | blockHead
  /-- Inside a comment that ends with a star and a slash. -/
  | block
  /-- Between the star and the slash that close a comment. -/
  | blockTail
deriving DecidableEq, Repr

namespace Mode

/-- Reads a character of code or the first character of another span. -/
def enter (fresh : Bool) (c : Char) (next : Option Char) : Cell × Mode :=
  match Quote.ofChar? c with
  | some quote => (⟨c, .quoted quote, true⟩, .quoted quote)
  | none =>
    if c = '-' ∧ next = some '-' then
      (⟨c, .lineComment, true⟩, .line)
    else if c = '/' ∧ next = some '*' then
      (⟨c, .blockComment, true⟩, .blockHead)
    else
      (⟨c, .code, fresh⟩, .code)

/-- Reads one character, knowing the one behind it. -/
def step (mode : Mode) (c : Char) (next : Option Char) : Cell × Mode :=
  match mode with
  | .between => enter true c next
  | .code => enter false c next
  | .quoted quote =>
    (⟨c, .quoted quote, false⟩,
      if c = quote.char then
        if next = some quote.char then .doubled quote else .between
      else
        .quoted quote)
  | .doubled quote => (⟨c, .quoted quote, false⟩, .quoted quote)
  | .line =>
    if c = '\n' then (⟨c, .code, true⟩, .code) else (⟨c, .lineComment, false⟩, .line)
  | .blockHead => (⟨c, .blockComment, false⟩, .block)
  | .block =>
    (⟨c, .blockComment, false⟩,
      if c = '*' ∧ next = some '/' then .blockTail else .block)
  | .blockTail => (⟨c, .blockComment, false⟩, .between)

/-- The cells of a text that is read from a given mode on. -/
def cells (mode : Mode) : Text → List Cell
  | [] => []
  | c :: rest =>
    (mode.step c rest.head?).1 :: cells (mode.step c rest.head?).2 rest

/-- The mode behind a text that is read from a given mode on. -/
def after (mode : Mode) : Text → Mode
  | [] => mode
  | c :: rest => after (mode.step c rest.head?).2 rest

/-- Whether a literal or a block comment is still open. -/
def isOpen : Mode → Bool
  | quoted _ | doubled _ | blockHead | block | blockTail => true
  | between | code | line => false

end Mode

namespace Text

/-- The cells of a text. -/
def cells (text : Text) : List Cell := Mode.between.cells text

/-- Whether the last literal or block comment of a text is left open. -/
def endsOpen (text : Text) : Bool := (Mode.between.after text).isOpen

end Text

theorem Mode.text_cells (mode : Mode) (text : Text) :
    Cell.text (mode.cells text) = text := by
  have hchar : ∀ (mode : Mode) (c : Char) (next : Option Char),
      (mode.step c next).1.char = c := by
    intro mode c next
    cases mode <;> simp only [Mode.step, Mode.enter] <;> repeat' split
    all_goals rfl
  induction text generalizing mode with
  | nil => rfl
  | cons c rest ih =>
    simp only [Mode.cells, Cell.text, List.map_cons, hchar]
    exact congrArg (c :: ·) (ih _)

end SelectForm

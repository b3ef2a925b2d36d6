import SelectForm.Lexis.Span
import SelectForm.Statement.LocatedClause
import SelectForm.Statement.Condition
import SelectForm.Statement.Paging
import SelectForm.Statement.Table

/-!
# Reading a statement

A statement is checked as a whole before its clauses are read: literals and
comments must be closed, comments are masked, nothing but blanks may follow a
semicolon, parentheses must be balanced, and no construct outside the language
may appear.
-/

namespace SelectForm

namespace Statement

/-! ## Checks of the whole statement -/

/-- Rejects a literal or a comment that is not closed. -/
def rejectUnclosed (text : Text) : Except ParseError Unit :=
  match text.spans.find? fun span => !span.terminated with
  | none => .ok ()
  | some span =>
    let cause : ParseError.Cause :=
      match span.kind with
      | .blockComment => .unterminatedComment
      | .quoted .double => .unterminatedIdentifier
      | _ => .unterminatedString
    .error ((Fragment.mk span.text span.start).error cause none)

/-- The statement in front of a semicolon, which nothing may follow. -/
def single (text : Text) : Except ParseError Text :=
  let count := (text.cells.takeWhile fun cell => !cell.isCodeChar ';').length
  let trailing := (Fragment.mk text 0).drop (count + 1)
  if trailing.isBlank then
    .ok (text.take count)
  else
    .error (trailing.trim.error .multipleStatements none)

/-- The offset of a parenthesis without a partner: the first closing one, or else
the last opening one.  `opened` holds the offsets of the groups that are open. -/
def unbalanced? (opened : List Nat) (offset : Nat) : List Cell → Option (Char × Nat)
  | [] => opened.head?.map fun offset => ('(', offset)
  | cell :: rest =>
    let behind := offset + cell.char.utf8Size
    if cell.isCodeChar '(' then
      unbalanced? (offset :: opened) behind rest
    else if cell.isCodeChar ')' then
      match opened with
      | [] => some (')', offset)
      | _ :: opened => unbalanced? opened behind rest
    else
      unbalanced? opened behind rest

/-- Rejects parentheses that are not balanced. -/
def rejectUnbalanced (text : Text) : Except ParseError Unit :=
  match unbalanced? [] 0 text.cells with
  | none => .ok ()
  | some (c, offset) => .error ((Fragment.mk [c] offset).error .unbalancedParentheses none)

/-- The statement words that may not begin a statement. -/
def rejectedHeads : List (Keyword × ParseError.Cause) :=
  [(.with_, .commonTableExpression), (.insert, .notSelect), (.update, .notSelect),
    (.delete, .notSelect)]

/-- Words that may not stand in a statement, or only a number of times. -/
def rejectedWords : List (Keyword × ParseError.Cause × Nat) :=
  [(.union, .setOperation, 0), (.intersect, .setOperation, 0), (.except, .setOperation, 0),
    (.over_, .windowFunction, 0), (.select, .subquery, 1)]

/-- The offset of the first question mark in code. -/
def questionMark? (offset : Nat) : List Cell → Option Nat
  | [] => none
  | cell :: rest =>
    if cell.isCodeChar '?' then
      some offset
    else
      questionMark? (offset + cell.char.utf8Size) rest

/-- The first construct of a statement that is not supported. -/
def unsupported? (text : Text) : Option ParseError :=
  let whole : Fragment := ⟨text, 0⟩
  let start := whole.skipAsciiBlanks
  let head := rejectedHeads.findSome? fun (keyword, cause) =>
    (keyword.length? none start.text.cells).map fun _ =>
      (Fragment.mk keyword.name.toList start.start).error cause none
  let word := rejectedWords.findSome? fun (keyword, cause, allowed) =>
    (whole.occurrences keyword)[allowed]?.map fun place => place.error cause none
  let mark := (questionMark? 0 text.cells).map fun offset =>
    (Fragment.mk ['?'] offset).error .positionalParameter none
  head.or (word.or mark)

/-- Rejects constructs that are not supported. -/
def rejectUnsupported (text : Text) : Except ParseError Unit :=
  match unsupported? text with
  | some error => .error error
  | none => .ok ()

/-! ## Clauses -/

/-- Reads one clause into a query. -/
def readClause (query : Query) (located : LocatedClause) : Except ParseError Query :=
  match located.clause with
  | .select => do
    let (distinct, columns) ← SelectItem.readList located.body
    .ok { query with distinct, columns }
  | .from_ => do
    let cursor : Cursor :=
      { text := located.body.text, offset := located.body.start, clause := some .from_ }
    let (tables, cursor) := TableItem.readList cursor
    let tables ← tables
    let joins ← (Join.readList cursor).1
    .ok { query with tables, joins }
  | .join => .ok query
  | .where_ => do
    let filters ← Condition.readChain .where_ located.body
    .ok { query with filters }
  | .groupBy => do
    let groups ← GroupItem.readList located.body
    .ok { query with groups }
  | .having => do
    let groupFilters ← Condition.readChain .having located.body
    .ok { query with groupFilters }
  | .orderBy => do
    let orders ← OrderItem.readList located.body
    .ok { query with orders }
  | .paging => do
    let cursor : Cursor :=
      { text := located.body.text, offset := located.body.start, clause := some .paging }
    let paging ← (Paging.read cursor).1
    .ok { query with limit := paging.limit, offset := paging.offset }

end Statement

namespace Query

/-- Reads a text. -/
def ofText (text : Text) : Except ParseError Query := do
  Statement.rejectUnclosed text
  let statement ← Statement.single text.maskComments
  Statement.rejectUnbalanced statement
  Statement.rejectUnsupported statement
  let clauses ← LocatedClause.locate statement
  clauses.foldlM Statement.readClause {}

/-- Reads a SELECT statement into a query. -/
def parse (sql : String) : Except ParseError Query := ofText sql.toList

end Query

end SelectForm

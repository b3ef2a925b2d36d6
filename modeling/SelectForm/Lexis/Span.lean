import SelectForm.Lexis.Cell

/-!
# Spans

The cells of a text fall into spans: runs of characters of one lexical class, a
new one beginning where a cell says so.  Spans are never empty, and together
they are the text.  Only the last span can be unterminated.
-/

namespace SelectForm

/-- A run of characters of one class, at a byte offset. -/
structure Span where
  kind : SpanKind
  start : Nat
  text : Text
  terminated : Bool
deriving DecidableEq, Repr

namespace Span

/-- The byte offset behind the span. -/
def stop (span : Span) : Nat := span.start + Text.size span.text

/-- Groups cells into spans, the first of them at the given offset. -/
def ofCells (endsOpen : Bool) : Nat → List Cell → List Span
  | _, [] => []
  | start, cell :: rest =>
    match rest, ofCells endsOpen (start + cell.char.utf8Size) rest with
    | next :: _, span :: spans =>
      if next.opens then
        ⟨cell.kind, start, [cell.char], true⟩ :: span :: spans
      else
        { span with start := start, text := cell.char :: span.text } :: spans
    | _, _ => [⟨cell.kind, start, [cell.char], !endsOpen⟩]

end Span

namespace Text

/-- The spans of a text, in order. -/
def spans (text : Text) : List Span := Span.ofCells text.endsOpen 0 text.cells

/-- A text whose comments are replaced by spaces, byte for byte. -/
def maskComments (text : Text) : Text :=
  text.cells.flatMap fun cell =>
    if cell.kind.isComment then List.replicate cell.char.utf8Size ' ' else [cell.char]

/-- For every byte of a text, whether it is code. -/
def codeMask (text : Text) : List Bool :=
  text.cells.flatMap fun cell => List.replicate cell.char.utf8Size cell.isCode

end Text

end SelectForm

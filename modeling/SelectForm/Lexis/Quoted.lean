import SelectForm.Lexis.Cell

/-!
# Quoted literals

A literal is written between two quotation marks, and a quotation mark inside it
is written twice.
-/

namespace SelectForm

namespace Quote

/-- Writes each quotation mark of a text twice. -/
def doubleIn (quote : Quote) (text : Text) : Text :=
  text.flatMap fun c => if c = quote.char then [c, c] else [c]

/-- The written form of a literal. -/
def enclose (quote : Quote) (text : Text) : Text :=
  quote.char :: quote.doubleIn text ++ [quote.char]

/-- Reads two neighbouring quotation marks as one, from left to right. -/
def undouble (quote : Quote) : Text → Text
  | [] => []
  | [c] => [c]
  | c :: d :: rest =>
    if c = quote.char ∧ d = quote.char then
      c :: undouble quote rest
    else
      c :: undouble quote (d :: rest)

end Quote

namespace Text

/-- The content of a literal: the quotation marks at its ends are taken off and
doubled ones inside are read as one.  A text that does not begin with a
quotation mark is its own content. -/
def unquote (text : Text) : Text :=
  match text with
  | [] => []
  | c :: rest =>
    match Quote.ofChar? c with
    | none => c :: rest
    | some quote =>
      quote.undouble (if rest.getLast? = some c then rest.dropLast else rest)

end Text

end SelectForm

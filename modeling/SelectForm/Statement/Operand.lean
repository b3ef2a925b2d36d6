import SelectForm.Lexis.Span
import SelectForm.Statement.Column

/-!
# Reading operands

The right side of a condition: a named parameter, a literal or a column.  Text in
double quotes is read as a string, like text in single quotes.
-/

namespace SelectForm

namespace Text

/-- Whether a text is one literal in quotation marks, closed at its end. -/
def isQuotedLiteral (text : Text) : Bool :=
  match text.spans with
  | [span] =>
    match span.kind with
    | .quoted _ => span.terminated
    | _ => false
  | _ => false

/-- The name of a parameter that is written with its colon. -/
def parameterName? : Text → Option Text
  | ':' :: name => if isParameterName name then some name else none
  | _ => none

/-- Whether a text is a word in any case. -/
def isWord (word : String) (text : Text) : Bool := sameLetters word.toList text

end Text

namespace Operand

/-- The literal that a text writes. -/
def literalOf? (text : Text) : Option Literal :=
  if text.isQuotedLiteral then some (.string (String.ofList text.unquote))
  else if text.isNumber then some (.number (String.ofList text))
  else if text.isWord "TRUE" then some (.boolean true)
  else if text.isWord "FALSE" then some (.boolean false)
  else if text.isWord "NULL" then some .null
  else none

/-- Reads an operand. -/
def read (clause : Clause) (fragment : Fragment) : Except ParseError Operand :=
  let trimmed := fragment.trim
  if trimmed.text.isEmpty then
    .error ((Fragment.mk fragment.text trimmed.start).error .missingValue clause)
  else if trimmed.text = ['?'] then
    .error (trimmed.error .positionalParameter clause)
  else
    match Text.parameterName? trimmed.text with
    | some name => .ok (.parameter (String.ofList name))
    | none =>
      match literalOf? trimmed.text with
      | some value => .ok (.literal value)
      | none =>
        match ColumnTerm.read clause trimmed with
        | .ok term =>
          if term.aggregate.isNone && !term.isWildcard then
            .ok (.column term.table term.column)
          else
            .error (trimmed.error .unsupportedValue clause)
        | .error _ => .error (trimmed.error .unsupportedValue clause)

end Operand

end SelectForm

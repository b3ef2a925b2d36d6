import SelectForm.Text.Digit
import SelectForm.Lexis.Quoted
import SelectForm.Query.Identifier

/-!
# Literals and operands

The values on the right side of a condition: named parameters, literals and
columns.  A number is kept as it was written.
-/

namespace SelectForm

/-! ## Numbers and parameter names -/

namespace Text

/-- What is behind an optional sign. -/
def afterSign : Text → Text
  | '+' :: rest => rest
  | '-' :: rest => rest
  | text => text

/-- Whether a text is an exponent, or empty. -/
def isExponent : Text → Bool
  | [] => true
  | c :: rest =>
    (c == 'e' || c == 'E') && isRun isDecimal isDecimal (afterSign rest)

/-- Whether a text is a decimal number: an optional sign, digits with an optional
point before, among or behind them, and an optional exponent. -/
def isNumber (text : Text) : Bool :=
  let unsigned := afterSign text
  match unsigned.takeWhile isDecimal, unsigned.dropWhile isDecimal with
  | [], '.' :: rest =>
    !(rest.takeWhile isDecimal).isEmpty && isExponent (rest.dropWhile isDecimal)
  | [], _ => false
  | _ :: _, '.' :: rest => isExponent (rest.dropWhile isDecimal)
  | _ :: _, rest => isExponent rest

/-- Whether a text may name a parameter. -/
def isParameterName (text : Text) : Bool := isRun isParameterChar isParameterChar text

end Text

/-! ## Literals -/

inductive Literal
  | string (value : String)
  /-- A number as it is written. -/
  | number (text : String)
  | boolean (value : Bool)
  | null
deriving DecidableEq, Repr

namespace Literal

/-- The literal as it is written in a statement. -/
def render : Literal → String
  | string value => String.ofList (Quote.single.enclose value.toList)
  | number text => text
  | boolean true => "TRUE"
  | boolean false => "FALSE"
  | null => "NULL"

end Literal

/-! ## Operands -/

inductive Operand
  | parameter (name : String)
  | literal (value : Literal)
  | column (table : Option String) (name : String)
deriving DecidableEq, Repr

namespace Operand

/-- A column name behind its table, if it has one. -/
def qualified (table : Option String) (column : String) : String :=
  match table with
  | some table => table ++ "." ++ column
  | none => column

/-- The operand as it is written in a statement. -/
def render : Operand → String
  | parameter name => ":" ++ name
  | literal value => value.render
  | column table name => qualified table name

/-- A parameter whose name may be given with its colon. -/
def ofParameter (name : String) : Operand :=
  .parameter (String.ofList (name.toList.dropWhile (· == ':')))

def string (value : String) : Operand := .literal (.string value)

def number (text : String) : Operand := .literal (.number text)

def boolean (value : Bool) : Operand := .literal (.boolean value)

def null : Operand := .literal .null

def parameterName? : Operand → Option String
  | parameter name => some name
  | _ => none

end Operand

end SelectForm

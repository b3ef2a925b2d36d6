import SelectForm.Text.Letter
import SelectForm.Lexis.Cell

/-!
# Named parameters

A parameter is a colon with a name behind it, in code.  Behind another colon it is
the type of a cast and no parameter.  A statement with named parameters turns into
one with question marks, and values are then bound in the order of the marks.
-/

namespace SelectForm

/-- A piece of a statement: a character, or a parameter with its colon. -/
inductive TemplatePart
  | plain (c : Char)
  | parameter (name : Text)
deriving DecidableEq, Repr

namespace TemplatePart

/-- The piece as it stands in the statement. -/
def text : TemplatePart → Text
  | plain c => [c]
  | parameter name => ':' :: name

/-- The piece with a question mark in the place of a parameter. -/
def positional : TemplatePart → Text
  | plain c => [c]
  | parameter _ => ['?']

def name? : TemplatePart → Option String
  | plain _ => none
  | parameter name => some (String.ofList name)

/-- Takes cells apart at parameters.  `skip` counts the characters of a parameter
that are still to be passed over. -/
def ofCells (skip : Nat) (before : Option Char) : List Cell → List TemplatePart
  | [] => []
  | cell :: rest =>
    match skip with
    | count + 1 => ofCells count (some cell.char) rest
    | 0 =>
      let name := Cell.text (rest.takeWhile fun next =>
        next.isCode && Text.isParameterChar next.char)
      if cell.isCodeChar ':' && before != some ':' && !name.isEmpty then
        parameter name :: ofCells name.length (some cell.char) rest
      else
        plain cell.char :: ofCells 0 (some cell.char) rest

end TemplatePart

/-- A parameter in a statement, at the byte offset of its colon. -/
structure ParameterPlace where
  name : String
  start : Nat
  stop : Nat
deriving DecidableEq, Repr

/-- Gives offsets to the parameters among some pieces. -/
def ParameterPlace.ofTemplate (start : Nat) : List TemplatePart → List ParameterPlace
  | [] => []
  | part :: rest =>
    let stop := start + Text.size part.text
    match part.name? with
    | some name => ⟨name, start, stop⟩ :: ofTemplate stop rest
    | none => ofTemplate stop rest

namespace Text

/-- The pieces of a statement. -/
def template (text : Text) : List TemplatePart := TemplatePart.ofCells 0 none text.cells

/-- The parameters of a statement, in order. -/
def parameterPlaces (text : Text) : List ParameterPlace :=
  ParameterPlace.ofTemplate 0 text.template

/-- The names of the parameters of a statement, each once, in the order of their
first places. -/
def parameterNames (text : Text) : List String :=
  (text.template.filterMap TemplatePart.name?).eraseDups

end Text

/-- A statement with a question mark for each parameter, and the names of the
parameters in the order of the marks. -/
structure PositionalStatement where
  text : Text
  parameters : List String
deriving DecidableEq, Repr

inductive BindError
  | missing (name : String)
deriving DecidableEq, Repr

namespace BindError

def message : BindError → String
  | missing name => "No value supplied for parameter ':" ++ name ++ "'"

end BindError

namespace PositionalStatement

/-- Puts question marks in the places of parameters. -/
def ofText (text : Text) : PositionalStatement where
  text := text.template.flatMap TemplatePart.positional
  parameters := text.template.filterMap TemplatePart.name?

/-- The values for the question marks, in order; a name that stands twice is bound
twice. -/
def bind {α : Type} (statement : PositionalStatement) (value? : String → Option α) :
    Except BindError (List α) :=
  statement.parameters.mapM fun name =>
    match value? name with
    | some value => .ok value
    | none => .error (.missing name)

end PositionalStatement

end SelectForm

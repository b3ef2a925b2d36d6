import SelectForm.Check.ParameterType
import SelectForm.Check.Problem
import SelectForm.Check.Warning
import SelectForm.Service.Settings
import SelectForm.Sql.Render
import SelectForm.Statement.Parse

/-!
# Exchanging queries for statements

A query becomes a statement if the checks find no problem in it; its warnings and
the types of its parameters are told in any case.  A statement becomes a query if
it is neither blank nor too long and can be read.
-/

namespace SelectForm

/-! ## From a query to a statement -/

structure WriteRequest where
  query : Query := {}
  /-- The layout that this request asks for. -/
  layout : Option Layout := none
deriving DecidableEq, Repr

namespace WriteRequest

def ofJson? (json : Json) : Option WriteRequest := do
  let members ← Json.record? ["structure", "options"] json
  let query ← members.read? "structure" Query.ofJson? {}
  let layout ← members.read? "options" (Json.nullable? Layout.ofJson?) none
  some { query, layout }

end WriteRequest

/-- What becomes of a query that is to be written. -/
structure WriteReport where
  /-- The statement, if there are no problems. -/
  sql : Option String
  problems : List Problem
  warnings : List Warning
  parameterTypes : List (String × ParameterType)
deriving DecidableEq, Repr

namespace WriteReport

def isValid (report : WriteReport) : Bool := report.problems.isEmpty

end WriteReport

namespace Query

/-- Checks a query and writes it. -/
def report (layout : Layout) (query : Query) : WriteReport where
  sql := if query.isValid then some (query.render layout) else none
  problems := query.problems
  warnings := query.warnings
  parameterTypes := query.parameterTypes

/-- Writes a query that has no problems and reads the statement again. -/
def reread? (layout : Layout) (query : Query) :
    Option (String × Except ParseError Query) :=
  (query.report layout).sql.map fun sql => (sql, parse sql)

end Query

/-! ## From a statement to a query -/

/-- Why no query is made of a text. -/
inductive Refusal
  | emptyText
  | tooLong (maxLength : UInt64)
  | unreadable (error : ParseError)
deriving DecidableEq, Repr

namespace Refusal

def message : Refusal → String
  | emptyText => "SQL text is empty"
  | tooLong maxLength =>
    "SQL text exceeds the maximum length of " ++ toString maxLength.toNat ++ " bytes"
  | unreadable error => error.message

/-- The error of reading that points into the text, if the text was read. -/
def error? : Refusal → Option ParseError
  | unreadable error => some error
  | _ => none

end Refusal

namespace Settings

/-- Writes the query of a request. -/
def write (settings : Settings) (request : WriteRequest) : WriteReport :=
  request.query.report (request.layout.getD settings.layout)

/-- Reads a statement that is neither blank nor too long. -/
def read (settings : Settings) (sql : String) : Except Refusal Query :=
  if sql.toList.all Text.isBlank then
    .error .emptyText
  else if settings.maxLength.toNat < Text.size sql.toList then
    .error (.tooLong settings.maxLength)
  else
    (Query.parse sql).mapError .unreadable

end Settings

end SelectForm

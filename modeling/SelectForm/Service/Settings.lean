import SelectForm.Json.Reader
import SelectForm.Sql.Layout

/-!
# Settings

How queries and statements are exchanged: the layout of statements, unless a
request asks for another one, and the greatest length of a statement that is read.
-/

namespace SelectForm

structure Settings where
  layout : Layout := {}
  /-- The greatest number of bytes of a statement. -/
  maxLength : UInt64 := 100000
deriving DecidableEq, Repr

inductive SettingsError
  /-- The text is not JSON, or not of the right form. -/
  | malformed
  | invalidValue (field reason : String)
deriving DecidableEq, Repr

namespace SettingsError

def message : SettingsError → String
  | malformed => "Invalid configuration JSON"
  | invalidValue field reason =>
    "Invalid configuration value for '" ++ field ++ "': " ++ reason

end SettingsError

namespace Settings

def compact : Settings := { layout := .compact }

def toJson (settings : Settings) : Json :=
  .object
    [("build", settings.layout.toJson), ("maxSqlLength", Json.ofWord settings.maxLength)]

def ofJson? (json : Json) : Option Settings := do
  let members ← Json.record? ["build", "maxSqlLength"] json
  let layout ← members.read? "build" Layout.ofJson? {}
  let maxLength ← members.read? "maxSqlLength" Json.word? 100000
  some { layout, maxLength }

/-- Rejects settings under which no statement could be read. -/
def validate (settings : Settings) : Except SettingsError Unit :=
  if settings.maxLength = 0 then
    .error (.invalidValue "maxSqlLength" "must be greater than zero")
  else
    .ok ()

/-- Reads settings from a JSON text. -/
def ofText (text : String) : Except SettingsError Settings :=
  match (Json.parse? text).bind ofJson? with
  | none => .error .malformed
  | some settings => do
    settings.validate
    .ok settings

end Settings

end SelectForm

import SelectForm.Json.Basic
import SelectForm.Query.Codec

/-!
# Layouts

How a statement is laid out: on one line, or with one clause on each line and
indented lists; with or without comments that describe the query.
-/

namespace SelectForm

/-- The layout of a written statement. -/
structure Layout where
  /-- One clause on each line. -/
  multiline : Bool := true
  /-- Comments in front of the statement. -/
  comments : Bool := false
  indentWidth : UInt64 := 4
deriving DecidableEq, Repr

namespace Layout

def pretty : Layout := {}

def compact : Layout := { multiline := false }

/-- The blanks in front of an entry of a list. -/
def indent (layout : Layout) : String :=
  String.ofList (List.replicate layout.indentWidth.toNat ' ')

/-- What stands between two clauses. -/
def separator (layout : Layout) : String := if layout.multiline then "\n" else " "

/-- The layout with a given name; `+comments` behind the name adds comments. -/
def ofName? : String → Option Layout
  | "pretty" => some pretty
  | "compact" => some compact
  | "pretty+comments" => some { pretty with comments := true }
  | "compact+comments" => some { compact with comments := true }
  | "indent2" => some { pretty with indentWidth := 2 }
  | _ => none

def toJson (layout : Layout) : Json :=
  .object
    [("formatSql", .boolean layout.multiline),
      ("includeComments", .boolean layout.comments),
      ("indentWidth", Json.ofWord layout.indentWidth)]

def ofJson? (json : Json) : Option Layout := do
  let members ← Json.record? ["formatSql", "includeComments", "indentWidth"] json
  let multiline ← members.read? "formatSql" Json.boolean? true
  let comments ← members.read? "includeComments" Json.boolean? false
  let indentWidth ← members.read? "indentWidth" Json.word? 4
  some { multiline, comments, indentWidth }

end Layout

end SelectForm

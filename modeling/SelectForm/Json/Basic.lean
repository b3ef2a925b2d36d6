/-!
# JSON values

The values in which queries and settings are exchanged.  A natural number is
kept by value; any other number is kept as it is written, because nothing here
computes with it.  Reading a record is lenient: members that are not asked for
are ignored and missing ones take a default.  It is strict about the members
that it knows: each may be given only once.
-/

namespace SelectForm

inductive Json
  | null
  | boolean (value : Bool)
  | natural (value : Nat)
  /-- A number with a sign, a fraction or an exponent, as it is written. -/
  | decimal (text : String)
  | string (value : String)
  | array (items : List Json)
  | object (members : List (String × Json))
  /-- A value with half of a surrogate pair in it, which stands for no text: it can
  be skipped but not read. -/
  | unreadable

namespace Json

/-! ## Simple values -/

def boolean? : Json → Option Bool
  | boolean value => some value
  | _ => none

def string? : Json → Option String
  | string value => some value
  | _ => none

/-- A natural number of 64 bits. -/
def word? : Json → Option UInt64
  | natural value => if value < UInt64.size then some (UInt64.ofNat value) else none
  | _ => none

/-- A value that may be null. -/
def nullable? {α : Type} (read? : Json → Option α) : Json → Option (Option α)
  | null => some none
  | json => (read? json).map some

/-- Reads all values of a list. -/
def readAll? {α : Type} (read? : Json → Option α) : List Json → Option (List α)
  | [] => some []
  | json :: rest =>
    match read? json, readAll? read? rest with
    | some value, some values => some (value :: values)
    | _, _ => none

/-- A list of values. -/
def list? {α : Type} (read? : Json → Option α) : Json → Option (List α)
  | array items => readAll? read? items
  | _ => none

/-- A constant given by its name: a string, or an object whose only member has the
name and the value null. -/
def constant? {α : Type} (ofName? : String → Option α) : Json → Option α
  | string name => ofName? name
  | object [(name, null)] => ofName? name
  | _ => none

/-! ## Records -/

/-- The members of a record. -/
abbrev Members := List (String × Json)

/-- The members of a record with the given names.  A record is written as an object,
or as the list of its values in the order of the names. -/
def record? (names : List String) : Json → Option Members
  | object members =>
    if names.all fun name => (members.filter (·.1 == name)).length ≤ 1 then
      some members
    else
      none
  | array items =>
    if items.length ≤ names.length then some (names.zip items) else none
  | _ => none

namespace Members

/-- Reads a member, or takes the default where it is missing. -/
def read? {α : Type} (members : Members) (name : String) (read? : Json → Option α)
    (default : α) : Option α :=
  match members.lookup name with
  | some json => read? json
  | none => some default

end Members

/-- The tag of a tagged value and its content, if it has one.  A tag in an object is
the name of a constant, and a tag in a list is a string. -/
def tagged? (tag content : String) : Json → Option (String × Option Json)
  | array [.string name, json] => some (name, some json)
  | object members => do
    let members ← record? [tag, content] (object members)
    let name ← members.lookup tag
    let name ← constant? some name
    some (name, members.lookup content)
  | _ => none

/-- The member of an object with a given name. -/
def member? (name : String) : Json → Option Json
  | object members => members.lookup name
  | _ => none

end Json

end SelectForm

import SelectForm.Json.Basic

/-!
# Writing JSON texts

The compact text of a value: no blanks between its parts, and in strings only
quotation marks, backslashes and control characters are escaped.
-/

namespace SelectForm

namespace Json

namespace Writer

/-- The hexadecimal digit of a number below sixteen. -/
def hexDigit (n : Nat) : Char := Nat.digitChar n

/-- A character inside a string. -/
def escape (c : Char) : List Char :=
  if c == '"' then ['\\', '"']
  else if c == '\\' then ['\\', '\\']
  else if c.toNat < 0x20 then
    ['\\', 'u', '0', '0', hexDigit (c.toNat / 16), hexDigit (c.toNat % 16)]
  else [c]

/-- A string between quotation marks. -/
def quote (text : String) : List Char := '"' :: text.toList.flatMap escape ++ ['"']

mutual

/-- The text of a value. -/
def chars : Json → List Char
  | null => ['n', 'u', 'l', 'l']
  | boolean true => ['t', 'r', 'u', 'e']
  | boolean false => ['f', 'a', 'l', 's', 'e']
  | natural value => (toString value).toList
  | decimal text => text.toList
  | string value => quote value
  | array items => '[' :: itemChars items
  | object members => '{' :: memberChars members
  | unreadable => ['n', 'u', 'l', 'l']

/-- The text of the items of a list with the closing bracket. -/
def itemChars : List Json → List Char
  | [] => [']']
  | [item] => chars item ++ [']']
  | item :: next :: rest => chars item ++ ',' :: itemChars (next :: rest)

/-- The text of the members of an object with the closing brace. -/
def memberChars : List (String × Json) → List Char
  | [] => ['}']
  | [(name, json)] => quote name ++ ':' :: chars json ++ ['}']
  | (name, json) :: next :: rest =>
    quote name ++ ':' :: chars json ++ ',' :: memberChars (next :: rest)

end

end Writer

/-- The compact text of a value. -/
def render (json : Json) : String := String.ofList (Writer.chars json)

end Json

end SelectForm

import SelectForm.Json.Basic

/-!
# Reading JSON texts

Reads a JSON text into a value.  The text must hold one value and nothing else
but blanks.  Numbers have no leading zeros, strings no control characters, and
an escape that names half of a surrogate pair is well formed but makes the value
around it unreadable.

Every step of the reader consumes a character, so a bound on the number of steps
that is one more than the length of the text is never reached.
-/

namespace SelectForm

namespace Json

namespace Reader

/-- What is behind the blanks of a JSON text. -/
def skipBlanks (text : List Char) : List Char :=
  text.dropWhile fun c => c == ' ' || c == '\n' || c == '\t' || c == '\r'

/-! ## Strings -/

/-- The value of a hexadecimal digit. -/
def hexDigit? (c : Char) : Option Nat :=
  if '0' ≤ c ∧ c ≤ '9' then some (c.toNat - '0'.toNat)
  else if 'a' ≤ c ∧ c ≤ 'f' then some (c.toNat - 'a'.toNat + 10)
  else if 'A' ≤ c ∧ c ≤ 'F' then some (c.toNat - 'A'.toNat + 10)
  else none

/-- The value of four hexadecimal digits. -/
def unit? (a b c d : Char) : Option Nat :=
  match hexDigit? a, hexDigit? b, hexDigit? c, hexDigit? d with
  | some a, some b, some c, some d => some (((a * 16 + b) * 16 + c) * 16 + d)
  | _, _, _, _ => none

/-- The character that an escape of one letter stands for. -/
def escape? : Char → Option Char
  | '"' => some '"'
  | '\\' => some '\\'
  | '/' => some '/'
  | 'b' => some '\x08'
  | 'f' => some '\x0C'
  | 'n' => some '\n'
  | 'r' => some '\r'
  | 't' => some '\t'
  | _ => none

/-- The code points and surrogates of a string up to its closing quotation mark,
and what is behind it. -/
def units? : List Char → Option (List Nat × List Char)
  | '"' :: rest => some ([], rest)
  | '\\' :: 'u' :: a :: b :: c :: d :: rest =>
    match unit? a b c d, units? rest with
    | some unit, some (units, behind) => some (unit :: units, behind)
    | _, _ => none
  | '\\' :: c :: rest =>
    match escape? c, units? rest with
    | some c, some (units, behind) => some (c.toNat :: units, behind)
    | _, _ => none
  | c :: rest =>
    if c.toNat < 0x20 || c == '\\' then
      none
    else
      match units? rest with
      | some (units, behind) => some (c.toNat :: units, behind)
      | none => none
  | [] => none

/-- The text of some code points, with each pair of surrogates joined. -/
def join? : List Nat → Option (List Char)
  | [] => some []
  | [unit] => if unit.isValidChar then some [Char.ofNat unit] else none
  | high :: low :: rest =>
    if high.isValidChar then
      (join? (low :: rest)).map (Char.ofNat high :: ·)
    else if high < 0xDC00 ∧ 0xDC00 ≤ low ∧ low < 0xE000 then
      (join? rest).map
        (Char.ofNat (0x10000 + (high - 0xD800) * 0x400 + (low - 0xDC00)) :: ·)
    else
      none

/-- A string behind its opening quotation mark, or nothing in its place if it is not
a text. -/
def string? (text : List Char) : Option (Option String × List Char) :=
  (units? text).map fun (units, behind) => ((join? units).map String.ofList, behind)

/-! ## Numbers -/

/-- The digits at the front of a text, at least one. -/
def digits? (text : List Char) : Option (List Char × List Char) :=
  match text.takeWhile Char.isDigit with
  | [] => none
  | digits => some (digits, text.dropWhile Char.isDigit)

/-- A whole number without leading zeros. -/
def whole? (text : List Char) : Option (List Char × List Char) :=
  match digits? text with
  | some ('0' :: _ :: _, _) => none
  | result => result

/-- A fraction, if the text begins with a point. -/
def fraction? : List Char → Option (List Char × List Char)
  | '.' :: rest => (digits? rest).map fun (digits, behind) => ('.' :: digits, behind)
  | text => some ([], text)

/-- The sign of an exponent. -/
def exponentSign : List Char → List Char × List Char
  | '+' :: rest => (['+'], rest)
  | '-' :: rest => (['-'], rest)
  | text => ([], text)

/-- An exponent, if the text begins with the letter `e`. -/
def exponent? : List Char → Option (List Char × List Char)
  | [] => some ([], [])
  | c :: rest =>
    if c == 'e' || c == 'E' then
      let (sign, behind) := exponentSign rest
      (digits? behind).map fun (digits, behind) => (c :: sign ++ digits, behind)
    else
      some ([], c :: rest)

/-- The number that some decimal digits write. -/
def value (digits : List Char) : Nat :=
  digits.foldl (fun n c => n * 10 + (c.toNat - '0'.toNat)) 0

/-- A number behind its sign. -/
def number? (sign text : List Char) : Option (Json × List Char) := do
  let (whole, behind) ← whole? text
  let (fraction, behind) ← fraction? behind
  let (exponent, behind) ← exponent? behind
  match sign, fraction, exponent with
  | [], [], [] => some (natural (value whole), behind)
  | _, _, _ => some (decimal (String.ofList (sign ++ whole ++ fraction ++ exponent)), behind)

/-! ## Values -/

/-- A member in front of other members. -/
def consMember (name : Option String) (json : Json) : Json → Json
  | object members =>
    match name with
    | some name => object ((name, json) :: members)
    | none => unreadable
  | other => other

mutual

/-- A value, behind blanks. -/
def value? (fuel : Nat) (text : List Char) : Option (Json × List Char) :=
  match fuel with
  | 0 => none
  | fuel + 1 =>
    match skipBlanks text with
    | 'n' :: 'u' :: 'l' :: 'l' :: rest => some (null, rest)
    | 't' :: 'r' :: 'u' :: 'e' :: rest => some (boolean true, rest)
    | 'f' :: 'a' :: 'l' :: 's' :: 'e' :: rest => some (boolean false, rest)
    | '"' :: rest =>
      (string? rest).map fun (text, behind) =>
        (match text with | some text => string text | none => unreadable, behind)
    | '[' :: rest =>
      match skipBlanks rest with
      | ']' :: behind => some (array [], behind)
      | _ => (items? fuel rest).map fun (items, behind) => (array items, behind)
    | '{' :: rest =>
      match skipBlanks rest with
      | '}' :: behind => some (object [], behind)
      | _ => members? fuel rest
    | '-' :: rest => number? ['-'] rest
    | rest => number? [] rest

/-- The items of a list up to its closing bracket. -/
def items? (fuel : Nat) (text : List Char) : Option (List Json × List Char) :=
  match fuel with
  | 0 => none
  | fuel + 1 =>
    match value? fuel text with
    | none => none
    | some (item, behind) =>
      match skipBlanks behind with
      | ',' :: rest =>
        (items? fuel rest).map fun (items, behind) => (item :: items, behind)
      | ']' :: rest => some ([item], rest)
      | _ => none

/-- The members of an object up to its closing brace. -/
def members? (fuel : Nat) (text : List Char) : Option (Json × List Char) :=
  match fuel with
  | 0 => none
  | fuel + 1 =>
    match skipBlanks text with
    | '"' :: rest =>
      match string? rest with
      | none => none
      | some (name, behind) =>
        match skipBlanks behind with
        | ':' :: rest =>
          match value? fuel rest with
          | none => none
          | some (json, behind) =>
            match skipBlanks behind with
            | ',' :: rest =>
              (members? fuel rest).map fun (others, behind) =>
                (consMember name json others, behind)
            | '}' :: rest => some (consMember name json (object []), rest)
            | _ => none
        | _ => none
    | _ => none

end

end Reader

/-- The value that a JSON text holds. -/
def parse? (text : String) : Option Json :=
  match Reader.value? (text.toList.length + 1) text.toList with
  | some (json, behind) => if (Reader.skipBlanks behind).isEmpty then some json else none
  | none => none

end Json

end SelectForm

import SelectForm.Statement.Cursor

/-!
# Reading LIMIT and OFFSET

`LIMIT` and `OFFSET` come in any order, each with a number of 64 bits; a later one
replaces an earlier one of its kind.
-/

namespace SelectForm

/-- The numbers of LIMIT and OFFSET. -/
structure Paging where
  limit : Option UInt64 := none
  offset : Option UInt64 := none
deriving DecidableEq, Repr

namespace Paging

/-- The number that ASCII digits write, if it has 64 bits. -/
def number? (text : Text) : Option UInt64 :=
  if text.isEmpty || !text.all Char.isDigit then
    none
  else
    let value := text.foldl (fun n c => n * 10 + (c.toNat - '0'.toNat)) 0
    if value < UInt64.size then some (UInt64.ofNat value) else none

/-- Reads the number behind a keyword. -/
def readNumber (keyword : String) : Reader UInt64 := fun cursor =>
  let start := cursor.skipBlanks
  if start.current = '?' then
    (.error (start.next.error start.position .positionalParameter), start.next)
  else
    match Reader.word start with
    | (.error error, behind) => (.error error, behind)
    | (.ok word, behind) =>
      let fail (cause : ParseError.Cause) : Except ParseError UInt64 × Cursor :=
        (.error (behind.error start.position cause), behind)
      if word.head? = some ':' then
        fail (.parameterInPaging keyword)
      else if behind.current = ',' then
        fail (.commaInPaging keyword)
      else
        match number? word with
        | some number => (.ok number, behind)
        | none => fail (.invalidNumber keyword)

/-- Reads the rest of a LIMIT and OFFSET clause, at most as many items as `bound`
says. -/
def readWithin (bound : Nat) (paging : Paging) : Reader Paging := fun cursor =>
  let start := cursor.skipBlanks
  match bound with
  | 0 => (.ok paging, start)
  | bound + 1 =>
    if start.atEnd then
      (.ok paging, start)
    else
      match start.consume .limit with
      | (true, behind) =>
        match readNumber "LIMIT" behind with
        | (.ok number, behind) => readWithin bound { paging with limit := some number } behind
        | (.error error, behind) => (.error error, behind)
      | (false, _) =>
        match start.consume .offset with
        | (true, behind) =>
          match readNumber "OFFSET" behind with
          | (.ok number, behind) =>
            readWithin bound { paging with offset := some number } behind
          | (.error error, behind) => (.error error, behind)
        | (false, _) => (.error (start.error start.position .invalidPaging), start)

/-- Reads a LIMIT and OFFSET clause.  An item takes several bytes, so the length of
the text bounds their number. -/
def read : Reader Paging := fun cursor => readWithin (cursor.length + 1) {} cursor

end Paging

end SelectForm

import SelectForm.Query.Basic
import SelectForm.Statement.ParseError

/-!
# Reading columns and aliases

A column is a name, qualified by a table or not, or a wildcard, and it may be the
argument of an aggregate function.  Blanks may stand around the dot and inside
the parentheses of the function.

An alias is the last word of an item.  It needs no `AS` in front of it if what is
before it ends like a column: with a character of a name, a closing parenthesis
or a star.
-/

namespace SelectForm

namespace Text

/-- The part of a text before its last word, and that word; blanks must stand
between them. -/
def splitLastWord? (text : Text) : Option (Text × Text) :=
  match text.reverse.dropWhile fun c => !isBlank c with
  | [] => none
  | c :: rest =>
    some (trimEnd (c :: rest).reverse, (text.reverse.takeWhile fun c => !isBlank c).reverse)

/-- The table, if there is one, and the name of a column or wildcard. -/
def columnName? (text : Text) : Option (Option Text × Text) :=
  match trim text with
  | ['*'] => some (none, ['*'])
  | trimmed =>
    match takeName? trimmed with
    | some (name, []) => some (none, name)
    | some (table, rest) =>
      match trimStart rest with
      | '.' :: rest =>
        let column := trimStart rest
        if column == ['*'] || isName column then some (some table, column) else none
      | _ => none
    | none => none

/-- The parts of a call of a function: its name, whether `DISTINCT` stands in front
of the argument, and the argument. -/
def call? (text : Text) : Option (Text × Bool × Text) :=
  match takeRun? isFoldedHead (fun c => isParameterChar (foldUpper c)) text with
  | none => none
  | some (name, rest) =>
    match trimStart rest with
    | '(' :: rest =>
      if rest.getLast? = some ')' then
        let argument := trimStart rest.dropLast
        let behind := argument.drop 8
        if foldsTo "DISTINCT".toList (argument.take 8) && behind.head?.any isBlank then
          some (name, true, trim behind)
        else
          some (name, false, trimEnd argument)
      else
        none
    | _ => none

/-- An item and the alias behind it, if it has one. -/
def splitAlias (text : Text) : Text × Option Text :=
  match splitLastWord? (trim text) with
  | none => (trim text, none)
  | some (front, word) =>
    match splitLastWord? front with
    | some (expression, as) =>
      if foldsTo "AS".toList as && isRun isFoldedHead isFoldedTail word then
        (expression, some word)
      else
        bare front word
    | none => bare front word
where
  bare (front word : Text) : Text × Option Text :=
    let endsItem := front.getLast?.any fun c => isNameTail c || c == ')' || c == '*'
    if endsItem && isName word then (front, some word) else (trim text, none)

end Text

namespace ColumnTerm

/-- The column that a text names, if its identifiers are valid. -/
def ofName? (text : Text) : Option ColumnTerm :=
  match Text.columnName? text with
  | none => none
  | some (table, column) =>
    let table := table.map String.ofList
    let column := String.ofList column
    if table.all Identifier.isValid && (column == "*" || Identifier.isValid column) then
      some { table, column }
    else
      none

/-- Reads a column, alone or as the argument of an aggregate function.  A wildcard
is an argument only of `COUNT`, without a table and without `DISTINCT`. -/
def read (clause : Clause) (fragment : Fragment) : Except ParseError ColumnTerm :=
  let trimmed := fragment.trim
  let fail (cause : ParseError.Cause) : Except ParseError ColumnTerm :=
    .error (trimmed.error cause clause)
  match Text.call? trimmed.text with
  | some (name, distinct, argument) =>
    match Aggregate.ofName? (String.ofList name) with
    | none => fail (.unsupportedFunction (String.ofList name))
    | some aggregate =>
      match ofName? argument with
      | none => fail .unsupportedArgument
      | some term =>
        if term.isWildcard &&
            (term.table.isSome || distinct || !aggregate.acceptsWildcard) then
          fail (.aggregatedWildcard aggregate)
        else
          .ok { term with aggregate := some aggregate, distinct }
  | none =>
    match ofName? trimmed.text with
    | some term => .ok term
    | none => fail .unsupportedColumn

end ColumnTerm

end SelectForm

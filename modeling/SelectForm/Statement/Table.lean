import SelectForm.Query.Basic
import SelectForm.Statement.Column
import SelectForm.Statement.Cursor
import SelectForm.Statement.Split

/-!
# Reading tables and joins

FROM holds tables between commas and then joins.  A join is a keyword, a table and
the conditions behind `ON`; it ends where the next join keyword stands.
-/

namespace SelectForm

/-! ## Tables -/

namespace Text

/-- A table name, which may be qualified by a schema, at the front of a text. -/
def takeTableName? (text : Text) : Option (Text × Text) :=
  match takeRun? isFoldedHead isFoldedTail text with
  | some (schema, '.' :: rest) =>
    match takeRun? isFoldedHead isFoldedTail rest with
    | some (table, rest) => some (schema ++ '.' :: table, rest)
    | none => none
  | result => result

/-- The alias behind a table name, with or without `AS`. -/
def tableAlias? (text : Text) : Option Text :=
  if isRun isFoldedHead isFoldedTail text then
    some text
  else
    match splitLastWord? text with
    | some (as, word) =>
      if foldsTo "AS".toList as && isRun isFoldedHead isFoldedTail word then
        some word
      else
        none
    | none => none

/-- The name and the alias of a table. -/
def tableReference? (text : Text) : Option (Text × Option Text) :=
  match takeTableName? text with
  | none => none
  | some (name, []) => some (name, none)
  | some (name, c :: rest) =>
    if isBlank c then
      (tableAlias? (trimStart rest)).map fun aliasName => (name, some aliasName)
    else
      none

end Text

namespace TableItem

/-- Reads a table with its alias. -/
def read (clause : Clause) (fragment : Fragment) : Except ParseError TableItem :=
  let trimmed := fragment.trim
  let fail (cause : ParseError.Cause) : Except ParseError TableItem :=
    .error (trimmed.error cause clause)
  if trimmed.text.head? = some '(' then
    fail .derivedTable
  else
    match Text.tableReference? trimmed.text with
    | none => fail .invalidTable
    | some (name, aliasName) =>
      let tableName := String.ofList name
      if !Identifier.isValidTable tableName then
        fail (.invalidTableName tableName)
      else
        match aliasName.map String.ofList with
        | none => .ok { tableName }
        | some aliasName =>
          if Identifier.isValid aliasName then
            .ok { tableName, aliasName := some aliasName }
          else
            fail (.invalidAlias aliasName)

end TableItem

/-! ## Conditions of joins -/

namespace Text

/-- A column that may be qualified by a table, without blanks around the dot, at the
front of a text. -/
def takeQualified? (text : Text) : Option ((Option Text × Text) × Text) :=
  match takeName? text with
  | some (table, '.' :: rest) =>
    (takeName? rest).map fun (column, rest) => ((some table, column), rest)
  | some (column, rest) => some ((none, column), rest)
  | none => none

/-- A comparison symbol at the front of a text. -/
def takeComparison? : Text → Option (Operator × Text)
  | '<' :: '>' :: rest => some (.notEqual, rest)
  | '!' :: '=' :: rest => some (.notEqual, rest)
  | '<' :: '=' :: rest => some (.lessOrEqual, rest)
  | '>' :: '=' :: rest => some (.greaterOrEqual, rest)
  | '=' :: rest => some (.equal, rest)
  | '<' :: rest => some (.less, rest)
  | '>' :: rest => some (.greater, rest)
  | _ => none

/-- A comparison of two columns. -/
def comparison? (text : Text) :
    Option ((Option Text × Text) × Operator × (Option Text × Text)) := do
  let (left, rest) ← takeQualified? text
  let (operator, rest) ← takeComparison? (trimStart rest)
  match ← takeQualified? (trimStart rest) with
  | (right, []) => some (left, operator, right)
  | _ => none

end Text

namespace Fragment

/-- Takes the parentheses around a fragment off, at most as many as `bound` says. -/
def openWithin (bound : Nat) (fragment : Fragment) : Fragment :=
  match bound with
  | 0 => fragment.trim
  | bound + 1 =>
    match fragment.inside? with
    | some inner => openWithin bound inner
    | none => fragment.trim

/-- Takes all parentheses around a fragment off. -/
def openAll (fragment : Fragment) : Fragment :=
  fragment.openWithin fragment.text.length

end Fragment

namespace JoinCondition

/-- Reads a comparison of two qualified columns, which may stand in parentheses. -/
def read (fragment : Fragment) : Except ParseError JoinCondition :=
  let body := fragment.openAll
  match Text.comparison? body.text with
  | none => .error (body.error .unsupportedJoinCondition (some .join))
  | some ((some leftTable, leftColumn), operator, (some rightTable, rightColumn)) =>
    .ok
      { leftTable := String.ofList leftTable
        leftColumn := String.ofList leftColumn
        operator
        rightTable := String.ofList rightTable
        rightColumn := String.ofList rightColumn }
  | some _ => .error (body.error .unqualifiedJoinColumn (some .join))

/-- Reads the conditions behind `ON`. -/
def readChain (fragment : Fragment) : Except ParseError (List JoinCondition) :=
  match fragment.splitFirst? (.ofKeyword .or_) with
  | some split =>
    .error ((Fragment.mk "OR".toList split.mark.start).error .orInJoin (some .join))
  | none =>
    (fragment.splitChain [.and]).mapM fun part =>
      if part.expression.text.isEmpty then
        .error
          ((Fragment.mk (Text.trim fragment.text) fragment.start).error
            .missingJoinCondition (some .join))
      else
        read part.expression

end JoinCondition

/-! ## Joins -/

/-- What a join keyword announces. -/
inductive JoinMark
  | join (kind : JoinKind)
  | cross
  | natural
deriving DecidableEq, Repr

namespace JoinMark

/-- Finds the keywords of joins; a longer one comes before one that it begins
with. -/
def finder : Finder JoinMark :=
  .ofKeywords
    [(.leftOuterJoin, .join .left), (.leftJoin, .join .left),
      (.rightOuterJoin, .join .right), (.rightJoin, .join .right),
      (.fullOuterJoin, .join .fullOuter), (.fullJoin, .join .fullOuter),
      (.innerJoin, .join .inner), (.crossJoin, .cross), (.natural, .natural),
      (.join, .join .inner)]

end JoinMark

namespace Join

/-- Reads what follows the keyword of a join. -/
def readBody (kind : JoinKind) (body : Fragment) : Except ParseError Join :=
  match body.splitFirst? (.ofKeyword .using_) with
  | some split =>
    .error ((Fragment.mk "USING".toList split.mark.start).error .joinUsing (some .join))
  | none =>
    match body.splitFirst? (.ofKeyword .on) with
    | none =>
      .error
        ((Fragment.mk (Text.trim body.text) body.start).error .joinWithoutOn (some .join))
    | some split => do
      let table ← TableItem.read .join split.before
      let conditions ← JoinCondition.readChain split.after
      .ok { kind, table, conditions }

/-- Reads a join with its keyword. -/
def readSegment (segment : Segment JoinMark) : Except ParseError Join :=
  match segment.label with
  | .join kind => readBody kind segment.body
  | .cross => .error (segment.mark.error .crossJoin (some .join))
  | .natural => .error (segment.mark.error .naturalJoin (some .join))

end Join

namespace Cursor

/-- The text ahead of a cursor, cut at the keywords of joins.  Bytes left of a cut
character are not part of it. -/
def joins (cursor : Cursor) : Segmentation JoinMark :=
  .ofCells JoinMark.finder cursor.ahead.before cursor.ahead.cells
    (cursor.absolute cursor.position + cursor.ahead.cut)

/-- The text between a cursor and the first keyword of a join. -/
def beforeJoins (cursor : Cursor) : Text :=
  List.replicate cursor.ahead.cut Text.replacement ++ cursor.joins.head.text

end Cursor

namespace TableItem

/-- Reads the tables of FROM and stops before the first join. -/
def readList : Reader (List TableItem) := fun cursor =>
  let start := cursor.skipBlanks
  let list : Fragment := ⟨start.beforeJoins, start.absolute start.position⟩
  let tables := list.splitList.mapM fun item =>
    if item.text.isEmpty then
      .error (list.error .missingTable (some .from_))
    else
      read .from_ item
  match tables with
  | .ok tables =>
    (.ok tables,
      { start.jump (start.ahead.cut + Text.size start.joins.head.text) with
        clause := some .join })
  | .error error => (.error error, start)

end TableItem

namespace Join

/-- Reads the joins of FROM. -/
def readList : Reader (List Join) := fun cursor =>
  let start := cursor.skipBlanks
  if !start.joins.tail.isEmpty && !start.beforeJoins.isEmpty then
    (.error
      ((Fragment.mk (Text.trimEnd start.beforeJoins) (start.absolute start.position)).error
        .textBeforeJoin (some .join)),
      start)
  else
    match start.joins.tail.mapM readSegment with
    | .ok joins => (.ok joins, start.finish)
    | .error error => (.error error, start)

end Join

end SelectForm

import SelectForm.Statement.Column
import SelectForm.Statement.Split

/-!
# Reading the lists of a statement

The items of SELECT, GROUP BY and ORDER BY stand between commas, and no item may
be empty.
-/

namespace SelectForm

namespace Fragment

/-- The fragment without the ASCII blanks in front of it. -/
def skipAsciiBlanks (fragment : Fragment) : Fragment :=
  fragment.drop (fragment.text.takeWhile Text.isAsciiBlank).length

/-- The error for an empty item of a list: it points at the comma behind it. -/
def emptyItemError (item : Fragment) (cause : ParseError.Cause) (clause : Clause) :
    ParseError :=
  (Fragment.mk [','] item.start).error cause clause

end Fragment

/-! ## SELECT -/

namespace SelectItem

/-- Reads a column with its alias. -/
def read (item : Fragment) : Except ParseError SelectItem := do
  let (expression, aliasName) := Text.splitAlias item.text
  let term ← ColumnTerm.read .select ⟨expression, item.start⟩
  match aliasName.map String.ofList with
  | none => .ok { term }
  | some aliasName =>
    if !Identifier.isValid aliasName then
      .error (item.error (.invalidAlias aliasName) (some .select))
    else if term.isBareWildcard then
      .error (item.error .aliasedWildcard (some .select))
    else
      .ok { term, aliasName := some aliasName }

/-- Reads the SELECT list: whether the statement is DISTINCT, and its items. -/
def readList (fragment : Fragment) : Except ParseError (Bool × List SelectItem) := do
  let list := fragment.skipAsciiBlanks
  let keyword := Keyword.distinct.length? none list.text.cells
  let items ← (list.drop (keyword.getD 0)).splitList.mapM fun item =>
    if item.text.isEmpty then
      .error (item.emptyItemError .emptySelectItem .select)
    else
      read item
  .ok (keyword.isSome, items)

end SelectItem

/-! ## GROUP BY -/

namespace GroupItem

/-- Reads a grouped column. -/
def read (item : Fragment) : Except ParseError GroupItem := do
  let term ← ColumnTerm.read .groupBy item
  if term.aggregate.isSome then
    .error (item.error .aggregateInGroupBy (some .groupBy))
  else if term.isWildcard then
    .error (item.error .groupedWildcard (some .groupBy))
  else
    .ok { table := term.table, column := term.column }

/-- Reads the GROUP BY list. -/
def readList (fragment : Fragment) : Except ParseError (List GroupItem) :=
  fragment.splitList.mapM fun item =>
    if item.text.isEmpty then
      .error (item.emptyItemError .emptyGroupItem .groupBy)
    else
      read item

end GroupItem

/-! ## ORDER BY -/

namespace Text

/-- A column and the direction behind it.  A word that only folds to `DESC` ends the
column but means no descending order. -/
def splitDirection (text : Text) : Text × Direction :=
  match splitLastWord? (trim text) with
  | some (front, word) =>
    if foldsTo "ASC".toList word || foldsTo "DESC".toList word then
      (front, if sameLetters "DESC".toList word then .descending else .ascending)
    else
      (trim text, .ascending)
  | none => (trim text, .ascending)

end Text

namespace OrderItem

/-- Reads a column with its direction. -/
def read (item : Fragment) : Except ParseError OrderItem := do
  let (expression, direction) := Text.splitDirection item.text
  let term ← ColumnTerm.read .orderBy ⟨expression, item.start⟩
  if term.isBareWildcard then
    .error (item.error .orderedWildcard (some .orderBy))
  else
    .ok { term, direction }

/-- Reads the ORDER BY list. -/
def readList (fragment : Fragment) : Except ParseError (List OrderItem) :=
  fragment.splitList.mapM fun item =>
    if item.text.isEmpty then
      .error (item.emptyItemError .emptyOrderItem .orderBy)
    else
      read item

end OrderItem

end SelectForm

import SelectForm.Query.Reference

/-!
# Renaming a table

A declared table gets a new alias, and every qualifier that was its old reference
follows.  The new alias must be a valid identifier that no other table answers
to, be it by its reference or by its own name.
-/

namespace SelectForm

inductive RenameError
  | invalidAlias (aliasName : String)
  | notDeclared (aliasName : String)
  | conflict (aliasName tableName : String)
deriving DecidableEq, Repr

namespace RenameError

def message : RenameError → String
  | invalidAlias aliasName => "'" ++ aliasName ++ "' is not a valid alias"
  | notDeclared aliasName => "Alias '" ++ aliasName ++ "' is not declared in FROM or JOIN"
  | conflict aliasName tableName =>
    "Alias '" ++ aliasName ++ "' is already used by table '" ++ tableName ++ "'"

end RenameError

namespace TableItem

/-- Whether a table is referred to by a name. -/
def isReferredToBy (name : String) (table : TableItem) : Bool :=
  Identifier.same table.reference name

/-- Whether a table answers to a name: as its reference or as its own name. -/
def answersTo (name : String) (table : TableItem) : Bool :=
  Identifier.same table.reference name || Identifier.same table.tableName name ||
    Identifier.same (Identifier.ofTable table.tableName) name

end TableItem

namespace Query

/-- The position of the first declared table that is referred to by a name. -/
def declaration? (query : Query) (name : String) : Option Nat :=
  query.tableItems.findIdx? (TableItem.isReferredToBy name)

/-- The first table, other than the one at a position, that answers to a name. -/
def conflict? (query : Query) (position : Nat) (name : String) : Option TableItem :=
  (query.tableItems.eraseIdx position).find? (TableItem.answersTo name)

/-- Gives an alias to the declared table at a position. -/
def setAlias (query : Query) (position : Nat) (aliasName : String) : Query :=
  { query with
    tables := query.tables.modify position fun table =>
      { table with aliasName := some aliasName }
    joins :=
      if position < query.tables.length then
        query.joins
      else
        query.joins.modify (position - query.tables.length) fun join =>
          { join with table := { join.table with aliasName := some aliasName } } }

/-- Gives a declared table the new alias in place of its old reference. -/
def rename (query : Query) (old new : String) : Except RenameError Query :=
  let old := String.ofList (Text.trim old.toList)
  let new := String.ofList (Text.trim new.toList)
  if !Identifier.isValid new then
    .error (.invalidAlias new)
  else
    match query.declaration? old with
    | none => .error (.notDeclared old)
    | some position =>
      match query.conflict? position new with
      | some table => .error (.conflict new table.tableName)
      | none =>
        .ok ((query.setAlias position new).mapQualifiers fun name =>
          if Identifier.same name old then new else name)

end Query

end SelectForm

import SelectForm.Text.Letter

/-!
# Identifiers

Columns, aliases and tables are named by bare identifiers: a letter or an
underscore, then letters, digits, underscores and dollar signs, and no reserved
word.  A table name may be qualified by a schema.  Identifiers are compared
without regard to the case of ASCII letters.
-/

namespace SelectForm

namespace Identifier

def reservedWords : List String :=
  ["ALL", "AND", "AS", "ASC", "BETWEEN", "BY", "CROSS", "DESC", "DISTINCT", "EXCEPT",
    "FALSE", "FROM", "FULL", "GROUP", "HAVING", "IN", "INNER", "INTERSECT", "IS", "JOIN",
    "LEFT", "LIKE", "LIMIT", "NATURAL", "NOT", "NULL", "OFFSET", "ON", "OR", "ORDER",
    "OUTER", "OVER", "RIGHT", "SELECT", "TRUE", "UNION", "USING", "WHERE", "WITH"]

/-- Whether two names are equal up to the case of ASCII letters. -/
def same (left right : String) : Bool := Text.sameLetters left.toList right.toList

/-- A name in small ASCII letters. -/
def lower (name : String) : String := String.ofList (name.toList.map Char.toLower)

def isReserved (word : String) : Bool :=
  reservedWords.any fun reserved => same reserved word

/-- Whether a name may stand for a column, an alias or a table reference. -/
def isValid (name : String) : Bool :=
  Text.isName name.toList && !isReserved name

/-- The parts of a table name between its dots. -/
def parts (tableName : String) : List String :=
  (Text.splitOn '.' tableName.toList).map String.ofList

/-- Whether a name may stand for a table: one identifier, or a schema and a
table. -/
def isValidTable (tableName : String) : Bool :=
  (parts tableName).length ≤ 2 && (parts tableName).all isValid

/-- The name by which a statement refers to a table without an alias: what
follows the last dot. -/
def ofTable (tableName : String) : String :=
  (parts tableName).getLastD tableName

end Identifier

end SelectForm

import SelectForm.Query.Basic

/-!
# Types of parameters

The type of the value of a parameter is inferred from the conditions in which the
parameter stands: from the operator, from an aggregate function, and from hints
in the names of the parameter and of the column.
-/

namespace SelectForm

inductive ParameterType
  | string
  | number
  | boolean
  | date
  | list
  | any
deriving DecidableEq, Repr

namespace ParameterType

def name : ParameterType → String
  | string => "string"
  | number => "number"
  | boolean => "boolean"
  | date => "date"
  | list => "list"
  | any => "any"

/-- Words in a name that hint at a number. -/
def numberWords : List String :=
  ["id", "count", "age", "amount", "price", "qty", "total", "limit", "offset", "number",
    "num"]

/-- The type at which a name hints. -/
def ofName? (name : String) : Option ParameterType :=
  let text := name.toList.map Char.toLower
  if "is_".toList.isPrefixOf text || "has_".toList.isPrefixOf text then
    some boolean
  else if Text.occursIn "date".toList text || Text.occursIn "time".toList text ||
      "_at".toList.isSuffixOf text then
    some date
  else if (Text.splitOn '_' text).any fun part =>
      numberWords.contains (String.ofList part) then
    some number
  else
    none

/-- The type of a parameter in a condition. -/
def infer (condition : Condition) (name : String) : ParameterType :=
  match condition.operator with
  | .like => string
  | .inList => list
  | operator =>
    if condition.term.aggregate.any Aggregate.isNumeric then
      number
    else
      match (ofName? name).or (ofName? condition.term.column) with
      | some hinted => hinted
      | none => if operator.isRange then any else string

/-- Records one more use of a parameter: a later use makes an open type definite and
never changes a definite one. -/
def record (types : List (String × ParameterType)) (name : String)
    (type : ParameterType) : List (String × ParameterType) :=
  match types with
  | [] => [(name, type)]
  | (other, known) :: rest =>
    if other = name then
      (other, if known = any then type else known) :: rest
    else
      (other, known) :: record rest name type

end ParameterType

namespace Query

/-- The conditions of WHERE, then those of HAVING. -/
def conditions (query : Query) : List Condition := query.filters ++ query.groupFilters

/-- Every use of a parameter with the type inferred there. -/
def parameterUses (query : Query) : List (String × ParameterType) :=
  query.conditions.flatMap fun condition =>
    condition.operands.filterMap fun operand =>
      operand.parameterName?.map fun name => (name, ParameterType.infer condition name)

/-- The parameters of a query in the order of their first uses, with their types. -/
def parameterTypes (query : Query) : List (String × ParameterType) :=
  query.parameterUses.foldl (fun types (name, type) => ParameterType.record types name type)
    []

end Query

end SelectForm

import SelectForm.Query.Rename
import SelectForm.Statement.Parse

/-!
# Editing a query step by step

An editor holds one query and changes it by edits: it replaces the query as a whole,
adds an entry to one of its lists or sets one of its values.  An edit that fails
leaves the query as it was.
-/

namespace SelectForm

inductive Edit
  | parse (sql : String)
  | load (query : Query)
  | rename (old new : String)
  | clear
  | select (item : SelectItem)
  | from_ (table : TableItem)
  | join (join : Join)
  | where_ (condition : Condition)
  | groupBy (item : GroupItem)
  | having (condition : Condition)
  | orderBy (item : OrderItem)
  | distinct (value : Bool)
  | limit (value : UInt64)
  | offset (value : UInt64)
deriving Repr

inductive EditError
  | unreadable (error : ParseError)
  | renaming (error : RenameError)
deriving Repr

namespace Edit

/-- The query after an edit. -/
def apply (query : Query) : Edit → Except EditError Query
  | parse sql => (Query.parse sql).mapError .unreadable
  | load query => .ok query
  | rename old new => (query.rename old new).mapError .renaming
  | clear => .ok {}
  | select item => .ok { query with columns := query.columns ++ [item] }
  | from_ table => .ok { query with tables := query.tables ++ [table] }
  | join item => .ok { query with joins := query.joins ++ [item] }
  | where_ condition => .ok { query with filters := query.filters ++ [condition] }
  | groupBy item => .ok { query with groups := query.groups ++ [item] }
  | having condition =>
    .ok { query with groupFilters := query.groupFilters ++ [condition] }
  | orderBy item => .ok { query with orders := query.orders ++ [item] }
  | distinct value => .ok { query with distinct := value }
  | limit value => .ok { query with limit := some value }
  | offset value => .ok { query with offset := some value }

end Edit

/-- A change of a condition that has been begun. -/
inductive ConditionEdit
  | table (name : String)
  | connect (connector : Connector)
  | negate
  | negated (value : Bool)
  | aggregate (function : Aggregate)
  | aggregateDistinct
deriving DecidableEq, Repr

namespace ConditionEdit

/-- The condition after a change. -/
def apply (condition : Condition) : ConditionEdit → Condition
  | table name =>
    { condition with term := { condition.term with table := some name } }
  | connect connector => { condition with connector }
  | negate => { condition with negated := !condition.negated }
  | negated value => { condition with negated := value }
  | aggregate function =>
    { condition with term := { condition.term with aggregate := some function } }
  | aggregateDistinct =>
    { condition with term := { condition.term with distinct := true } }

end ConditionEdit

end SelectForm

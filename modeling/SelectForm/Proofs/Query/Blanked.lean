import Mathlib
import SelectForm.Check.ParameterType
import SelectForm.Proofs.Query.Recased
import SelectForm.Proofs.Query.Tokens
import SelectForm.Proofs.Sql.WrittenLiterals

/-!
# The string literals of a query

The literals in quotation marks of a query are the operands of its conditions that are
strings.  A query is blanked by emptying them.  So a blanked query and its literals, taken
in order, make up the query.
-/

namespace SelectForm

/-- An operand with its literal emptied. -/
def Operand.blanked : Operand → Operand
  | literal (.string _) => .string ""
  | operand => operand

/-- A condition with its literals emptied. -/
def Condition.blanked (condition : Condition) : Condition :=
  { condition with
    value := condition.value.map Operand.blanked
    values := condition.values.map Operand.blanked
    minValue := condition.minValue.map Operand.blanked
    maxValue := condition.maxValue.map Operand.blanked }

namespace Query

/-- A query with its literals emptied. -/
def blanked (query : Query) : Query :=
  { query with
    filters := query.filters.map Condition.blanked
    groupFilters := query.groupFilters.map Condition.blanked }

/-- The contents of the literals of WHERE, then of HAVING, in the order in which they are
written. -/
def strings (query : Query) : List String :=
  query.conditions.flatMap fun condition => condition.operands.filterMap Operand.string?

end Query

/-! ## Likeness -/

variable {related : Text → Text → Prop}

theorem map_eq_of_forall₂ {α β : Type} {R : α → α → Prop} {next : α → β} {items items' : List α}
    (himp : ∀ item item', R item item' → next item' = next item)
    (hitems : List.Forall₂ R items items') : items'.map next = items.map next := by
  induction hitems with
  | nil => rfl
  | cons hitem _ ih => rw [List.map_cons, List.map_cons, himp _ _ hitem, ih]

theorem Operand.Recased.blanked_eq {operand operand' : Operand}
    (hlike : Recased id related operand operand') : operand'.blanked = operand.blanked := by
  cases hlike with
  | string _ => rfl
  | plain _ => rw [recase_id, id]

theorem Condition.Like.blanked_eq {condition condition' : Condition}
    (hlike : condition.Like (.recased id related) condition') :
    condition'.blanked = condition.blanked := by
  have hoption : ∀ {value value' : Option Operand}, Option.Rel (Operand.Recased id related) value value' →
      value'.map Operand.blanked = value.map Operand.blanked := by
    intro value value' hvalue
    cases hvalue with
    | none => rfl
    | some hvalue => rw [Option.map_some, Option.map_some, hvalue.blanked_eq]
  have hvalues : condition'.values.map Operand.blanked = condition.values.map Operand.blanked :=
    map_eq_of_forall₂ (fun _ _ => Operand.Recased.blanked_eq) hlike.values
  have hterm : condition'.term = condition.term := by
    have hlike : condition'.term = condition.term.recase id := hlike.term
    rwa [ColumnTerm.recase_id] at hlike
  rw [blanked, blanked, hvalues, hoption hlike.value, hoption hlike.minValue, hoption hlike.maxValue,
    hterm, hlike.operator, hlike.negated, hlike.connector]

/-- Queries that differ at most in the contents of their literals. -/
theorem Query.Like.blanked_eq {query query' : Query}
    (hlike : query.Like (.recased id related) query') : query'.blanked = query.blanked := by
  have hsame : ∀ {α : Type} {f : α → α} {items items' : List α}, f = id →
      List.Forall₂ (fun item item' => item' = f item) items items' → items' = items := by
    intro α f items items' hf hitems
    rw [eq_map_of_forall₂ (fun _ _ => id) hitems, hf, List.map_id]
  have hconditions : ∀ {conditions conditions' : List Condition},
      List.Forall₂ (Condition.Like (.recased id related)) conditions conditions' →
        conditions'.map Condition.blanked = conditions.map Condition.blanked :=
    map_eq_of_forall₂ fun _ _ => Condition.Like.blanked_eq
  have hjoins : query'.joins = query.joins :=
    hsame Join.recase_id (hlike.joins.imp fun _ _ => Join.Like.eq_recase)
  rw [blanked, blanked, hconditions hlike.filters, hconditions hlike.groupFilters,
    hsame SelectItem.recase_id hlike.columns, hsame TableItem.recase_id hlike.tables, hjoins,
    hsame GroupItem.recase_id hlike.groups, hsame OrderItem.recase_id hlike.orders, hlike.distinct,
    hlike.limit, hlike.offset]

/-! ## Tokens -/

/-- The content of a literal among tokens. -/
def Token.string? : Token → Option Text
  | string value => some value
  | _ => none

theorem Operand.filterMap_string? (operand : Operand) :
    operand.tokens.filterMap Token.string? = operand.string?.toList.map String.toList := by
  cases operand with
  | parameter name => rfl
  | literal value => cases value <;> rfl
  | column table name => exact filterMap_column (fun _ => rfl) table name

theorem Query.filterMap_string? (query : Query) :
    query.tokens.filterMap Token.string? = query.strings.map String.toList := by
  rw [filterMap_tokens fun _ => rfl, strings, List.map_flatMap]
  refine List.flatMap_congr fun condition _ => ?_
  rw [List.filterMap_eq_flatMap_toList, List.map_flatMap]
  exact List.flatMap_congr fun operand _ => operand.filterMap_string?

end SelectForm

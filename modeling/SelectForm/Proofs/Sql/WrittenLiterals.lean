import Mathlib
import SelectForm.Proofs.Sql.WrittenStatement

/-!
# Literals in written statements

A written statement holds nothing but code, apart from the string literals of its
conditions.  They stand in the order of WHERE and HAVING, and each is the literal of an
operand that the operator of its condition writes.
-/

namespace SelectForm

namespace Lexeme

/-- The literals and comments among some pieces. -/
def literalsOf (lexemes : List Lexeme) : List Lexeme := lexemes.filter fun lexeme => !lexeme.isCode

@[simp] theorem literalsOf_nil : literalsOf [] = [] := rfl

@[simp] theorem literalsOf_word (text : Text) (rest : List Lexeme) :
    literalsOf (word text :: rest) = literalsOf rest := rfl

@[simp] theorem literalsOf_mark (c : Char) (rest : List Lexeme) :
    literalsOf (mark c :: rest) = literalsOf rest := rfl

@[simp] theorem literalsOf_literal (quote : Quote) (content : Text) (rest : List Lexeme) :
    literalsOf (literal quote content :: rest) = literal quote content :: literalsOf rest := rfl

@[simp] theorem literalsOf_append (first second : List Lexeme) :
    literalsOf (first ++ second) = literalsOf first ++ literalsOf second :=
  List.filter_append first second

theorem literalsOf_flatMap {α : Type} (items : List α) (pieces : α → List Lexeme) :
    literalsOf (items.flatMap pieces) = items.flatMap fun item => literalsOf (pieces item) :=
  List.filter_flatMap

@[simp] theorem literalsOf_marks (text : Text) : literalsOf (marks text) = [] := by
  induction text with
  | nil => rfl
  | cons c rest ih => exact ih

@[simp] theorem literalsOf_spread (gap : Text) (items : List (List Lexeme)) :
    literalsOf (spread gap items) = items.flatMap literalsOf := by
  cases items with
  | nil => rfl
  | cons first others => simp [spread, literalsOf_flatMap]

@[simp] theorem literalsOf_ofName (table : Option String) (column : String) :
    literalsOf (ofName table column) = [] := by
  cases table with
  | none =>
      rw [ofName]
      split <;> rfl
  | some table =>
      rw [ofName]
      split <;> rfl

@[simp] theorem literalsOf_consCode (c : Char) (lexemes : List Lexeme) :
    literalsOf (consCode c lexemes) = literalsOf lexemes := by
  cases hword : Text.isWordChar c with
  | false => rw [consCode_mark hword, literalsOf_mark]
  | true =>
      cases lexemes with
      | nil => rw [consCode_first hword rfl, literalsOf_word]
      | cons lexeme lexemes =>
          cases lexeme with
          | word text => rw [consCode_word hword, literalsOf_word, literalsOf_word]
          | _ => rw [consCode_first hword rfl, literalsOf_word]

@[simp] theorem literalsOf_ofCode (text : Text) : literalsOf (ofCode text) = [] := by
  induction text with
  | nil => rfl
  | cons c rest ih =>
      have hcode : ofCode (c :: rest) = consCode c (ofCode rest) := rfl
      rw [hcode, literalsOf_consCode, ih]

end Lexeme

open Lexeme

namespace ChainLink

@[simp] theorem literalsOf_chain (gap : Text) (first : ChainLink)
    (others : List (Connector × ChainLink)) :
    literalsOf (chain gap first others) =
      literalsOf first.lexemes ++ others.flatMap fun other => literalsOf other.2.lexemes := by
  simp [chain, literalsOf_flatMap]

end ChainLink

namespace Marked

variable {α : Type}

theorem literalsOf_lexemesOf (row : List (Marked α)) :
    literalsOf (lexemesOf [] row) = row.flatMap fun marked => literalsOf marked.lexemes := by
  rw [lexemesOf, List.append_nil, literalsOf_flatMap]

end Marked

/-! ## Code -/

@[simp] theorem ColumnTerm.literalsOf_lexemes (term : ColumnTerm) :
    literalsOf term.lexemes = [] := by
  rw [lexemes]
  cases term.aggregate with
  | none => simp
  | some aggregate =>
      simp only [argumentLexemes]
      split <;> simp

@[simp] theorem SelectItem.literalsOf_lexemes (item : SelectItem) :
    literalsOf item.lexemes = [] := by
  rw [lexemes]
  cases item.aliasName <;> simp

@[simp] theorem OrderItem.literalsOf_lexemes (item : OrderItem) :
    literalsOf item.lexemes = [] := by
  rw [lexemes]
  cases item.direction <;> simp

@[simp] theorem TableItem.literalsOf_lexemes (table : TableItem) :
    literalsOf table.lexemes = [] := by
  rw [lexemes]
  cases table.aliasName <;> simp

@[simp] theorem Operator.literalsOf_lexemes (operator : Operator) :
    literalsOf operator.lexemes = [] := by
  cases operator <;> simp [lexemes]

@[simp] theorem JoinCondition.literalsOf_lexemes (condition : JoinCondition) :
    literalsOf condition.lexemes = [] := by
  simp [lexemes]

@[simp] theorem JoinKind.literalsOf_lexemes (kind : JoinKind) : literalsOf kind.lexemes = [] := by
  cases kind <;> simp [lexemes]

@[simp] theorem Join.literalsOf_bodyLexemes (join : Join) : literalsOf join.bodyLexemes = [] := by
  rw [bodyLexemes]
  cases join.conditions with
  | nil => simp
  | cons first others => simp [JoinCondition.lexemes_link, List.flatMap_map]

/-! ## Conditions -/

namespace Operand

/-- The value of a string literal. -/
def string? : Operand → Option String
  | literal (.string value) => some value
  | _ => none

theorem literalsOf_lexemes (operand : Operand) :
    literalsOf operand.lexemes =
      operand.string?.toList.map fun value => Lexeme.literal .single value.toList := by
  cases operand with
  | parameter name => rfl
  | literal value =>
      cases value with
      | string value => rfl
      | number text => simp [lexemes, string?]
      | boolean value => cases value <;> rfl
      | null => rfl
  | column table name => simp [lexemes, string?]

end Operand

namespace Condition

/-- The operands that the operator of a condition writes, in order. -/
def writtenOperands (condition : Condition) : List Operand :=
  match condition.operator with
  | .between => condition.minValue.toList ++ condition.maxValue.toList
  | .inList => condition.values
  | .isNull | .isNotNull => []
  | _ => condition.value.toList

/-- The values of the string literals that a condition writes. -/
def writtenStrings (condition : Condition) : List String :=
  condition.writtenOperands.filterMap Operand.string?

theorem literalsOf_slotLexemes (slot : Option Operand) :
    literalsOf (slotLexemes slot) =
      (slot.toList.filterMap Operand.string?).map fun value =>
        Lexeme.literal .single value.toList := by
  cases slot with
  | none => rfl
  | some operand =>
      rw [slotLexemes, Operand.literalsOf_lexemes, Option.toList_some, List.filterMap_cons]
      cases operand.string? <;> rfl

theorem literalsOf_operands (operands : List Operand) :
    (operands.map Operand.lexemes).flatMap literalsOf =
      (operands.filterMap Operand.string?).map fun value =>
        Lexeme.literal .single value.toList := by
  induction operands with
  | nil => rfl
  | cons operand operands ih =>
      rw [List.map_cons, List.flatMap_cons, ih, Operand.literalsOf_lexemes, List.filterMap_cons]
      cases operand.string? <;> rfl

theorem literalsOf_operandLexemes (condition : Condition) :
    literalsOf condition.operandLexemes =
      condition.writtenStrings.map fun value => Lexeme.literal .single value.toList := by
  rw [operandLexemes, writtenStrings, writtenOperands]
  cases condition.operator <;>
    simp [literalsOf_slotLexemes, literalsOf_operands, List.filterMap_append]

theorem literalsOf_lexemes (condition : Condition) :
    literalsOf condition.lexemes =
      condition.writtenStrings.map fun value => Lexeme.literal .single value.toList := by
  have hnegation : literalsOf condition.negationLexemes = [] := by
    rw [negationLexemes]
    split <;> rfl
  have hbody : literalsOf condition.bodyLexemes =
      condition.writtenStrings.map fun value => Lexeme.literal .single value.toList := by
    simp [bodyLexemes, hnegation, literalsOf_operandLexemes]
  rw [lexemes]
  split
  next => simp [hbody]
  next => exact hbody

end Condition

/-! ## Statements -/

namespace Layout

@[simp] theorem literalsOf_listLexemes (layout : Layout) (items : List (List Lexeme)) :
    literalsOf (layout.listLexemes items) = items.flatMap literalsOf := by
  simp [listLexemes]

theorem literalsOf_chainLexemes (layout : Layout) (conditions : List Condition) :
    literalsOf (layout.chainLexemes conditions) =
      (conditions.flatMap Condition.writtenStrings).map fun value =>
        Lexeme.literal .single value.toList := by
  cases conditions with
  | nil => rfl
  | cons first others =>
      simp [chainLexemes, Condition.lexemes_link, Condition.literalsOf_lexemes, List.flatMap_map,
        List.map_flatMap]

end Layout

namespace Query

/-- The values of the string literals that a query writes, in the order of WHERE and
HAVING. -/
def writtenStrings (query : Query) : List String :=
  (query.filters ++ query.groupFilters).flatMap Condition.writtenStrings

@[simp] theorem literalsOf_digits (number : UInt64) : literalsOf (digits number) = [] := rfl

/-- A statement holds the string literals that its query writes, and no others. -/
theorem literalsOf_lexemes (layout : Layout) (query : Query) :
    literalsOf (query.lexemes layout) =
      query.writtenStrings.map fun value => Lexeme.literal .single value.toList := by
  have hoptional : ∀ {α : Type} (items : List α) (marked : Marked (String × Clause)),
      (items = [] → literalsOf marked.lexemes = []) →
        ((if items.isEmpty then [] else [marked]).flatMap fun marked =>
          literalsOf marked.lexemes) = literalsOf marked.lexemes := by
    intro α items marked hnil
    cases items with
    | nil => exact (hnil rfl).symm
    | cons item items => simp
  have hselect : literalsOf (query.selectLexemes layout) = [] := by
    rw [selectLexemes]
    split <;> simp
  have hpaging :
      ((query.pagingRow layout).flatMap fun marked => literalsOf marked.lexemes) = [] := by
    rw [pagingRow]
    cases query.limit <;> cases query.offset <;> simp [clauseOf, Marked.lexemes]
  have hfrom : literalsOf (query.tableLexemes layout ++
      Marked.lexemesOf [] (query.joinRow layout)) = [] := by
    simp [tableLexemes, Marked.literalsOf_lexemesOf, joinRow, Join.marked, Marked.lexemes,
      List.flatMap_map]
  rw [lexemes, Marked.literalsOf_lexemesOf, statementRow, clauseRow, middleRow, writtenStrings]
  simp only [List.flatMap_cons, List.flatMap_append, hpaging]
  rw [hoptional, hoptional, hoptional, hoptional]
  · have hgroups : literalsOf (layout.listLexemes
        (query.groups.map fun item => item.term.lexemes)) = [] := by
      simp [List.flatMap_map, List.flatMap_eq_nil_iff]
    have horders : literalsOf (layout.listLexemes (query.orders.map OrderItem.lexemes)) = [] := by
      simp [List.flatMap_map, List.flatMap_eq_nil_iff]
    simp [clauseOf, Marked.lexemes, hselect, hfrom, hgroups, horders,
      Layout.literalsOf_chainLexemes, -Layout.literalsOf_listLexemes]
  all_goals
    intro hnil
    rw [hnil]
    simp [clauseOf, Marked.lexemes, Layout.literalsOf_chainLexemes]

end Query

end SelectForm

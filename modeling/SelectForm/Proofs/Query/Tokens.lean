import Mathlib
import SelectForm.Check.ParameterType
import SelectForm.Proofs.Text.Number
import SelectForm.Proofs.Lexis.Token

/-!
# The tokens of a query

The tokens of a query are its names, numbers, parameters and literals, clause by clause and
in the order in which they are written.  The numbers of LIMIT and OFFSET are left out, since
these two may stand in any order.

An item of a statement is a text.  It holds what its row holds, and if it has no quotation
marks, its row is made of its characters.
-/

namespace SelectForm

open Lexeme

/-! ## Queries -/

/-- The token of a name; a wildcard is none. -/
def Token.ofName (name : String) : List Token :=
  if name = "*" then [] else [.name name.toList]

namespace ColumnTerm

def tokens (term : ColumnTerm) : List Token :=
  (term.aggregate.toList.map fun aggregate => Token.name aggregate.keyword.toList) ++
    (term.table.toList.flatMap Token.ofName ++ Token.ofName term.column)

end ColumnTerm

namespace SelectItem

def tokens (item : SelectItem) : List Token :=
  item.term.tokens ++ item.aliasName.toList.flatMap Token.ofName

end SelectItem

namespace TableItem

def tokens (table : TableItem) : List Token :=
  (Identifier.parts table.tableName).flatMap Token.ofName ++
    table.aliasName.toList.flatMap Token.ofName

end TableItem

namespace JoinCondition

def tokens (condition : JoinCondition) : List Token :=
  [condition.leftTable, condition.leftColumn, condition.rightTable,
    condition.rightColumn].flatMap Token.ofName

end JoinCondition

namespace Join

def tokens (join : Join) : List Token :=
  join.table.tokens ++ join.conditions.flatMap JoinCondition.tokens

end Join

namespace Operand

def tokens : Operand → List Token
  | parameter name => [.parameter name.toList]
  | literal (.string value) => [.string value.toList]
  | literal (.number text) => [.number text.toList]
  | literal (.boolean _) | literal .null => []
  | column table name => table.toList.flatMap Token.ofName ++ Token.ofName name

end Operand

namespace Condition

def tokens (condition : Condition) : List Token :=
  condition.term.tokens ++ condition.operands.flatMap Operand.tokens

end Condition

namespace Query

/-- The tokens of a clause. -/
def tokensOf (query : Query) : Clause → List Token
  | .select => query.columns.flatMap SelectItem.tokens
  | .from_ => query.tables.flatMap TableItem.tokens ++ query.joins.flatMap Join.tokens
  | .where_ => query.filters.flatMap Condition.tokens
  | .groupBy => query.groups.flatMap fun item => item.term.tokens
  | .having => query.groupFilters.flatMap Condition.tokens
  | .orderBy => query.orders.flatMap fun item => item.term.tokens
  | .join | .paging => []

def tokens (query : Query) : List Token :=
  [Clause.select, .from_, .where_, .groupBy, .having, .orderBy].flatMap query.tokensOf

end Query

/-! ## Tokens that are picked out -/

section Pick

variable {α : Type} {pick : Token → Option α}

theorem Token.filterMap_ofName (hname : ∀ text, pick (.name text) = none) (name : String) :
    (Token.ofName name).filterMap pick = [] := by
  rw [Token.ofName]
  split <;> simp [hname]

theorem Token.filterMap_flatMap_ofName (hname : ∀ text, pick (.name text) = none)
    (names : List String) : (names.flatMap Token.ofName).filterMap pick = [] := by
  rw [List.filterMap_flatMap, List.flatMap_eq_nil_iff]
  exact fun name _ => filterMap_ofName hname name

theorem ColumnTerm.filterMap_tokens (hname : ∀ text, pick (.name text) = none) (term : ColumnTerm) :
    term.tokens.filterMap pick = [] := by
  rw [tokens, List.filterMap_append, List.filterMap_append, Token.filterMap_flatMap_ofName hname,
    Token.filterMap_ofName hname]
  cases term.aggregate <;> simp [hname]

theorem SelectItem.filterMap_tokens (hname : ∀ text, pick (.name text) = none) (item : SelectItem) :
    item.tokens.filterMap pick = [] := by
  rw [tokens, List.filterMap_append, ColumnTerm.filterMap_tokens hname,
    Token.filterMap_flatMap_ofName hname]
  rfl

theorem TableItem.filterMap_tokens (hname : ∀ text, pick (.name text) = none) (table : TableItem) :
    table.tokens.filterMap pick = [] := by
  rw [tokens, List.filterMap_append, Token.filterMap_flatMap_ofName hname,
    Token.filterMap_flatMap_ofName hname]
  rfl

theorem Join.filterMap_tokens (hname : ∀ text, pick (.name text) = none) (join : Join) :
    join.tokens.filterMap pick = [] := by
  rw [tokens, List.filterMap_append, TableItem.filterMap_tokens hname, List.filterMap_flatMap,
    List.nil_append, List.flatMap_eq_nil_iff]
  exact fun condition _ => Token.filterMap_flatMap_ofName hname _

theorem Operand.filterMap_column (hname : ∀ text, pick (.name text) = none) (table : Option String)
    (name : String) : (column table name).tokens.filterMap pick = [] := by
  rw [tokens, List.filterMap_append, Token.filterMap_flatMap_ofName hname,
    Token.filterMap_ofName hname]
  rfl

theorem Condition.filterMap_tokens (hname : ∀ text, pick (.name text) = none)
    (condition : Condition) :
    condition.tokens.filterMap pick =
      condition.operands.flatMap fun operand => operand.tokens.filterMap pick := by
  rw [tokens, List.filterMap_append, ColumnTerm.filterMap_tokens hname, List.filterMap_flatMap,
    List.nil_append]

/-- Tokens that are no names are among the operands of the conditions. -/
theorem Query.filterMap_tokens (hname : ∀ text, pick (.name text) = none) (query : Query) :
    query.tokens.filterMap pick =
      query.conditions.flatMap fun condition =>
        condition.operands.flatMap fun operand => operand.tokens.filterMap pick := by
  have hnone : ∀ {β : Type} (items : List β) (held : β → List Token),
      (∀ item, (held item).filterMap pick = []) → (items.flatMap held).filterMap pick = [] := by
    intro β items held hheld
    rw [List.filterMap_flatMap, List.flatMap_eq_nil_iff]
    exact fun item _ => hheld item
  have hconditions : ∀ conditions : List Condition,
      (conditions.flatMap Condition.tokens).filterMap pick =
        conditions.flatMap fun condition =>
          condition.operands.flatMap fun operand => operand.tokens.filterMap pick := by
    intro conditions
    rw [List.filterMap_flatMap]
    exact List.flatMap_congr fun condition _ => condition.filterMap_tokens hname
  simp only [tokens, tokensOf, List.flatMap_cons, List.flatMap_nil, List.filterMap_append,
    hconditions, hnone _ _ (SelectItem.filterMap_tokens hname),
    hnone _ _ (TableItem.filterMap_tokens hname), hnone _ _ (Join.filterMap_tokens hname),
    hnone _ _ fun item : GroupItem => item.term.filterMap_tokens hname,
    hnone _ _ fun item : OrderItem => item.term.filterMap_tokens hname, conditions,
    List.flatMap_append]
  simp

end Pick

/-! ## Quotation marks -/

theorem ofChar?_of_isNameTail {c : Char} (hname : Text.isNameTail c = true) : Quote.ofChar? c = none :=
  (Text.plain_of_isWordChar (Text.isWordChar_of_isNameTail hname)).1

/-- A test that no quotation mark passes. -/
theorem ofChar?_of_test {test : Char → Bool} {c : Char} (hsingle : test '\'' = false)
    (hdouble : test '"' = false) (hc : test c = true) : Quote.ofChar? c = none := by
  unfold Quote.ofChar?
  split_ifs with h h'
  · rw [h, hsingle] at hc
    exact absurd hc Bool.false_ne_true
  · rw [h', hdouble] at hc
    exact absurd hc Bool.false_ne_true
  · rfl

theorem ofChar?_of_isFoldedTail {c : Char} (hc : Text.isFoldedTail c = true) :
    Quote.ofChar? c = none :=
  ofChar?_of_test rfl rfl hc

theorem ofChar?_of_isSeparator {c : Char} (hc : Text.isSeparator c = true) : Quote.ofChar? c = none :=
  ofChar?_of_test rfl rfl hc

theorem Text.isAlpha_of_sameLetters {letters text : Text}
    (hletters : ∀ c ∈ letters, c.isAlpha = true) (hsame : Text.sameLetters letters text = true) :
    ∀ c ∈ text, c.isAlpha = true := by
  intro c hc
  rw [Text.sameLetters, beq_iff_eq] at hsame
  have hlower := List.mem_map_of_mem (f := Char.toLower) hc
  rw [← hsame] at hlower
  obtain ⟨d, hd, heq⟩ := List.mem_map.mp hlower
  rw [← Char.isAlpha_toLower_eq_isAlpha, ← heq, Char.isAlpha_toLower_eq_isAlpha]
  exact hletters d hd

theorem ofChar?_of_sameLetters {letters text : Text} (hletters : ∀ c ∈ letters, c.isAlpha = true)
    (hsame : Text.sameLetters letters text = true) : ∀ c ∈ text, Quote.ofChar? c = none := by
  intro c hc
  have halpha := Text.isAlpha_of_sameLetters hletters hsame c hc
  exact ofChar?_of_isNameTail (by simp [Text.isNameTail, Char.isAlphanum, halpha])

theorem Aggregate.isAlpha_keyword (aggregate : Aggregate) :
    ∀ c ∈ aggregate.keyword.toList, c.isAlpha = true := by
  rw [← List.all_eq_true]
  cases aggregate <;> rfl

theorem ofChar?_of_isNumber {text : Text} (hnumber : Text.isNumber text = true) :
    ∀ c ∈ text, Quote.ofChar? c = none := by
  intro c hc
  rcases Text.forall_of_isNumber hnumber c hc with hc | hc
  · exact (Text.plain_of_isWordChar (Text.isWordChar_of_isDecimal hc)).1
  · have hall : ∀ c ∈ ['+', '-', '.', 'e', 'E'], Quote.ofChar? c = none := by simp [Quote.ofChar?]
    exact hall c hc

/-- A row whose text has no quotation marks has no literals. -/
theorem Lexeme.eq_marks_of_quoteless {row : List Lexeme} (hatomic : Atomic row)
    (hquoteless : ∀ c ∈ textOf row, Quote.ofChar? c = none) : row = marks (textOf row) := by
  induction row with
  | nil => rfl
  | cons lexeme row ih =>
      obtain ⟨hatom, hrow⟩ := atomic_cons.mp hatomic
      rw [textOf_cons, List.forall_mem_append] at hquoteless
      cases lexeme with
      | mark c => exact congrArg (mark c :: ·) (ih hrow hquoteless.2)
      | literal quote content =>
          have hquote := hquoteless.1 quote.char (by simp [Lexeme.text, Quote.enclose])
          cases quote <;> simp [Quote.ofChar?, Quote.char] at hquote
      | word _ | lineComment _ | blockComment _ => exact hatom.elim

/-! ## Texts without quotation marks -/

/-- A text without quotation marks and the tokens that it holds. -/
structure Text.Holds (text : Text) (tokens : List Token) : Prop where
  quoteless : ∀ c ∈ text, Quote.ofChar? c = none
  row : Lexeme.Holds (marks text) tokens

namespace Text.Holds

variable {text first second gap : Text} {tokens others : List Token}

/-- Every row of a text without quotation marks holds what the text holds. -/
theorem of_row {row : List Lexeme} (hholds : Text.Holds (textOf row) tokens)
    (hatomic : Atomic row) : Lexeme.Holds row tokens := by
  rw [eq_marks_of_quoteless hatomic hholds.quoteless]
  exact hholds.row

theorem separators (hgap : ∀ c ∈ gap, isSeparator c = true) : Text.Holds gap [] :=
  ⟨fun c hc => ofChar?_of_isSeparator (hgap c hc), .separators hgap⟩

theorem between (hfirst : Text.Holds first tokens) (hne : gap ≠ [])
    (hgap : ∀ c ∈ gap, isSeparator c = true) (hsecond : Text.Holds second others) :
    Text.Holds (first ++ (gap ++ second)) (tokens ++ others) := by
  constructor
  · simp only [List.forall_mem_append]
    exact ⟨hfirst.quoteless, fun c hc => ofChar?_of_isSeparator (hgap c hc), hsecond.quoteless⟩
  · rw [marks_append, marks_append]
    exact hfirst.row.between hne hgap hsecond.row

/-- A text behind another that does not go on with its last token. -/
theorem append (hfirst : Text.Holds first tokens) (hsecond : Text.Holds second others)
    (hhead : second.head?.any isTokenChar = false) :
    Text.Holds (first ++ second) (tokens ++ others) := by
  refine ⟨List.forall_mem_append.mpr ⟨hfirst.quoteless, hsecond.quoteless⟩, ?_⟩
  rw [marks_append]
  refine hfirst.row.append hsecond.row (.inr ?_)
  rwa [textOf_marks]

theorem pad_left (hgap : ∀ c ∈ gap, isSeparator c = true) (hsecond : Text.Holds second tokens) :
    Text.Holds (gap ++ second) tokens := by
  constructor
  · rw [List.forall_mem_append]
    exact ⟨fun c hc => ofChar?_of_isSeparator (hgap c hc), hsecond.quoteless⟩
  · rw [marks_append]
    exact hsecond.row.pad_left hgap

theorem pad_right (hgap : ∀ c ∈ gap, isSeparator c = true) (hfirst : Text.Holds first tokens) :
    Text.Holds (first ++ gap) tokens := by
  constructor
  · rw [List.forall_mem_append]
    exact ⟨hfirst.quoteless, fun c hc => ofChar?_of_isSeparator (hgap c hc)⟩
  · rw [marks_append]
    exact hfirst.row.pad_right hgap

theorem ofName_of_isName {name : String} (hname : isName name.toList = true) :
    Token.ofName name = [.name name.toList] := by
  rw [Token.ofName, if_neg]
  rintro rfl
  exact absurd hname (by decide)

theorem of_isName (hname : isName text = true) :
    Text.Holds text (Token.ofName (String.ofList text)) := by
  rw [ofName_of_isName (by rwa [String.toList_ofList]), String.toList_ofList]
  exact ⟨fun c hc => ofChar?_of_isNameTail ((forall_of_isName hname).2 c hc), .name hname⟩

theorem star : Text.Holds ['*'] (Token.ofName "*") :=
  ⟨List.forall_mem_singleton.mpr rfl, .separator rfl⟩

/-- A text that folds to a reserved word holds nothing. -/
theorem folded {word : String} (hmem : word ∈ Identifier.reservedWords)
    (htext : foldsTo word.toList text = true) : Text.Holds text [] :=
  ⟨fun c hc => ofChar?_of_isFoldedTail (Lexeme.Holds.isFoldedTail_of_foldsTo hmem htext c hc),
    .keyword hmem htext⟩

/-- A reserved word in any case holds nothing. -/
theorem reserved {word : String} (hmem : word ∈ Identifier.reservedWords)
    (htext : sameLetters word.toList text = true) : Text.Holds text [] := by
  have hupper := Lexeme.Holds.isUpper_of_mem_reservedWords hmem
  refine ⟨ofChar?_of_sameLetters (fun c hc => ?_) htext, .of_sameLetters hmem htext⟩
  simp [Char.isAlpha, hupper c hc]

theorem of_isNumber (hnumber : isNumber text = true) : Text.Holds text [.number text] :=
  ⟨ofChar?_of_isNumber hnumber, .number hnumber⟩

end Text.Holds

end SelectForm

import Mathlib
import SelectForm.Proofs.Sql.Pieces

/-!
# Written conditions

A condition is written as its column, its operator and its operands.  A negation
stands in front of the operator or around the whole condition, whichever the
operator admits.  For a chain a condition is one link: the only marks of a chain
inside it are `BETWEEN` and the `AND` between the two bounds.

A condition may be spelled in more ways than it is written: inequality has two signs, and
strings two kinds of quotation marks.
-/

namespace SelectForm

open Lexeme

namespace Operator

/-- The words or marks of an operator. -/
def lexemes : Operator → List Lexeme
  | like => [word "LIKE".toList]
  | inList => [word "IN".toList]
  | between => [word "BETWEEN".toList]
  | isNull => [word "IS".toList, mark ' ', word "NULL".toList]
  | isNotNull => [word "IS".toList, mark ' ', word "NOT".toList, mark ' ', word "NULL".toList]
  | operator => marks operator.keyword.toList

theorem textOf_lexemes (operator : Operator) :
    textOf operator.lexemes = operator.keyword.toList := by
  cases operator <;> rfl

theorem solid_lexemes (operator : Operator) : Solid operator.lexemes := by
  have hword : ∀ word : String, word.toList ≠ [] →
      word.toList.all (fun c => Text.isNameTail c) = true →
        Solid [Lexeme.word word.toList] := fun word hne hword => solid_keyword hne hword
  have hnull : Solid [word "NULL".toList] := hword "NULL" (by simp) rfl
  have hnot : Solid [word "NOT".toList] := hword "NOT" (by simp) rfl
  have his : Solid [word "IS".toList] := hword "IS" (by simp) rfl
  have hmarks : ∀ text : Text, text ≠ [] →
      text.all (fun c => isPlainMark c && c != '(' && c != ')' && !Text.isBlank c) = true →
        Solid (marks text) := by
    intro text hne hall
    refine solid_marks hne fun c hc => ?_
    have hc := List.all_eq_true.mp hall c hc
    simp only [Bool.and_eq_true, bne_iff_ne, Bool.not_eq_true'] at hc
    exact ⟨hc.1.1.1, hc.1.1.2, hc.1.2, hc.2⟩
  cases operator with
  | like => exact hword "LIKE" (by simp) rfl
  | inList => exact hword "IN" (by simp) rfl
  | between => exact hword "BETWEEN" (by simp) rfl
  | isNull => exact his.glue_space hnull
  | isNotNull => exact his.glue_space (hnot.glue_space hnull)
  | equal | notEqual | less | greater | lessOrEqual | greaterOrEqual =>
      exact hmarks _ (by simp [keyword]) rfl

/-- The words or marks of an operator, with either sign of inequality. -/
def spelledLexemes (bang : Bool) : Operator → List Lexeme
  | notEqual => if bang then marks ['!', '='] else lexemes notEqual
  | operator => operator.lexemes

theorem spelledLexemes_plain (operator : Operator) :
    operator.spelledLexemes false = operator.lexemes := by
  cases operator <;> rfl

theorem spelledLexemes_of_ne {operator : Operator} (bang : Bool) (hne : operator ≠ .notEqual) :
    operator.spelledLexemes bang = operator.lexemes := by
  cases operator with
  | notEqual => exact absurd rfl hne
  | _ => rfl

theorem solid_spelledLexemes (bang : Bool) (operator : Operator) :
    Solid (operator.spelledLexemes bang) := by
  by_cases hne : operator = .notEqual
  · subst hne
    cases bang with
    | true => exact solid_marks (by simp) (by simp [isPlainMark]; decide)
    | false => exact solid_lexemes notEqual
  · rw [spelledLexemes_of_ne bang hne]
    exact operator.solid_lexemes

end Operator

namespace Condition

/-! ## Pieces -/

/-- An operand, or `NULL` where it is missing. -/
def slotLexemes : Option Operand → List Lexeme
  | some operand => operand.lexemes
  | none => [word "NULL".toList]

/-- What stands behind the operator of a condition. -/
def operandLexemes (condition : Condition) : List Lexeme :=
  match condition.operator with
  | .between =>
    mark ' ' :: (slotLexemes condition.minValue ++
      mark ' ' :: word "AND".toList :: mark ' ' :: slotLexemes condition.maxValue)
  | .inList =>
    mark ' ' :: mark '(' :: (spread [' '] (condition.values.map Operand.lexemes) ++ [mark ')'])
  | .isNull | .isNotNull => []
  | _ => mark ' ' :: slotLexemes condition.value

/-- The negation in front of an operator. -/
def negationLexemes (condition : Condition) : List Lexeme :=
  if condition.negated && takesNot condition.operator then
    [word "NOT".toList, mark ' ']
  else
    []

def bodyLexemes (condition : Condition) : List Lexeme :=
  condition.term.lexemes ++ mark ' ' ::
    (condition.negationLexemes ++ (condition.operator.lexemes ++ condition.operandLexemes))

def lexemes (condition : Condition) : List Lexeme :=
  if condition.negated && !takesNot condition.operator then
    word "NOT".toList :: mark ' ' :: mark '(' :: (condition.bodyLexemes ++ [mark ')'])
  else
    condition.bodyLexemes

/-! ## Spellings -/

/-- The choices that the text of a condition leaves: whether inequality is `!=`, and the
quotation marks of strings. -/
structure Spelling where
  bang : Bool := false
  value : Quote := .single
  minValue : Quote := .single
  maxValue : Quote := .single
  values : Nat → Quote := fun _ => .single

def spelledSlot (quote : Quote) : Option Operand → List Lexeme
  | some operand => operand.spelledLexemes quote
  | none => [word "NULL".toList]

def spelledValues (spelling : Spelling) (condition : Condition) : List (List Lexeme) :=
  condition.values.mapIdx fun place operand => operand.spelledLexemes (spelling.values place)

def spelledOperands (spelling : Spelling) (condition : Condition) : List Lexeme :=
  match condition.operator with
  | .between =>
    mark ' ' :: (spelledSlot spelling.minValue condition.minValue ++
      mark ' ' :: word "AND".toList :: mark ' ' ::
        spelledSlot spelling.maxValue condition.maxValue)
  | .inList =>
    mark ' ' :: mark '(' :: (spread [' '] (condition.spelledValues spelling) ++ [mark ')'])
  | .isNull | .isNotNull => []
  | _ => mark ' ' :: spelledSlot spelling.value condition.value

def spelledBody (spelling : Spelling) (condition : Condition) : List Lexeme :=
  condition.term.lexemes ++ mark ' ' ::
    (condition.negationLexemes ++
      (condition.operator.spelledLexemes spelling.bang ++ condition.spelledOperands spelling))

/-- The condition in a spelling. -/
def spelledLexemes (spelling : Spelling) (condition : Condition) : List Lexeme :=
  if condition.negated && !takesNot condition.operator then
    word "NOT".toList :: mark ' ' :: mark '(' :: (condition.spelledBody spelling ++ [mark ')'])
  else
    condition.spelledBody spelling

theorem spelledSlot_plain (slot : Option Operand) :
    spelledSlot .single slot = slotLexemes slot := by
  cases slot with
  | none => rfl
  | some operand => exact operand.spelledLexemes_single

theorem spelledValues_plain (condition : Condition) :
    condition.spelledValues {} = condition.values.map Operand.lexemes := by
  refine List.ext_getElem (by simp [spelledValues]) fun place _ _ => ?_
  simp [spelledValues, Operand.spelledLexemes_single]

theorem spelledBody_plain (condition : Condition) :
    condition.spelledBody {} = condition.bodyLexemes := by
  rw [spelledBody, bodyLexemes, spelledOperands, operandLexemes, spelledValues_plain,
    Operator.spelledLexemes_plain]
  simp only [spelledSlot_plain]

/-- A condition is written in one of its spellings. -/
theorem spelledLexemes_plain (condition : Condition) :
    condition.spelledLexemes {} = condition.lexemes := by
  rw [spelledLexemes, lexemes, spelledBody_plain]

theorem textOf_slotLexemes (slot : Option Operand) :
    textOf (slotLexemes slot) = (renderSlot slot).toList := by
  cases slot with
  | none => rfl
  | some operand => exact operand.textOf_lexemes

theorem textOf_values (values : List Operand) :
    textOf (spread [' '] (values.map Operand.lexemes)) =
      (", ".intercalate (values.map Operand.render)).toList := by
  have hmap : (values.map Operand.lexemes).map textOf =
      (values.map Operand.render).map String.toList := by
    simp [Operand.textOf_lexemes]
  rw [textOf_spread, hmap, String.toList_intercalate]
  rfl

theorem textOf_bodyLexemes (condition : Condition) :
    textOf condition.bodyLexemes = condition.renderBody.toList := by
  have hterm := condition.term.textOf_lexemes
  have hvalues := textOf_values condition.values
  have hslot := textOf_slotLexemes
  rw [bodyLexemes, renderBody, negationLexemes, operandLexemes]
  cases condition.operator <;> cases condition.negated <;>
    simp [hterm, hvalues, hslot, Operator.textOf_lexemes, takesNot, text, Operator.keyword]

theorem textOf_lexemes (condition : Condition) :
    textOf condition.lexemes = condition.render.toList := by
  have hbody := condition.textOf_bodyLexemes
  rw [lexemes, render]
  split <;> simp [hbody, text]

/-! ## Solid conditions -/

/-- What the checks demand of a condition, apart from the scope. -/
structure IsWritten (clause : Clause) (condition : Condition) : Prop where
  term : condition.term.IsSpelled clause
  operands : ∀ operand ∈ condition.operands, operand.IsWritten
  slots : condition.HasOperands

variable {clause : Clause} {condition : Condition} {spelling : Spelling}

theorem solid_spelledSlot {slot : Option Operand} (quote : Quote)
    (hslot : ∀ operand, slot = some operand → operand.IsWritten) :
    Solid (spelledSlot quote slot) := by
  cases slot with
  | none => exact solid_keyword (by simp) rfl
  | some operand => exact Operand.solid_spelledLexemes (hslot operand rfl) quote

theorem quiet_spelledSlot {slot : Option Operand} (quote : Quote)
    (hslot : ∀ operand, slot = some operand → operand.IsWritten) :
    Quiet stops (spelledSlot quote slot) := by
  cases slot with
  | none => exact quiet_cons.mpr ⟨by decide, quiet_nil _⟩
  | some operand => exact Operand.quiet_spelledLexemes (hslot operand rfl) quote

theorem IsWritten.value (hwritten : condition.IsWritten clause) :
    ∀ operand, condition.value = some operand → operand.IsWritten :=
  fun operand hvalue => hwritten.operands operand (by simp [Condition.operands, hvalue])

theorem IsWritten.minValue (hwritten : condition.IsWritten clause) :
    ∀ operand, condition.minValue = some operand → operand.IsWritten :=
  fun operand hvalue => hwritten.operands operand (by simp [Condition.operands, hvalue])

theorem IsWritten.maxValue (hwritten : condition.IsWritten clause) :
    ∀ operand, condition.maxValue = some operand → operand.IsWritten :=
  fun operand hvalue => hwritten.operands operand (by simp [Condition.operands, hvalue])

theorem IsWritten.values (hwritten : condition.IsWritten clause) :
    ∀ operand ∈ condition.values, operand.IsWritten :=
  fun operand hmem => hwritten.operands operand (by simp [Condition.operands, hmem])

theorem forall_spelledValues (hwritten : condition.IsWritten clause) :
    ∀ item ∈ condition.spelledValues spelling, Solid item ∧ Quiet stops item := by
  intro item hmem
  obtain ⟨place, hplace, rfl⟩ := List.mem_mapIdx.mp hmem
  have hoperand := hwritten.values _ (List.getElem_mem hplace)
  exact ⟨Operand.solid_spelledLexemes hoperand _, Operand.quiet_spelledLexemes hoperand _⟩

theorem spelledValues_ne_nil (hne : condition.values ≠ []) :
    condition.spelledValues spelling ≠ [] := by
  simpa [spelledValues] using hne

theorem solid_values (hwritten : condition.IsWritten clause) (hne : condition.values ≠ []) :
    Solid (spread [' '] (condition.spelledValues spelling)) :=
  solid_spread (by simp [isLayoutBlank]) (spelledValues_ne_nil hne)
    fun item hmem => (forall_spelledValues hwritten item hmem).1

theorem solid_not : Solid [word "NOT".toList] := solid_keyword (by simp) rfl

/-- An operator with its operands behind it. -/
theorem solid_operator (hwritten : condition.IsWritten clause) :
    Solid (condition.operator.spelledLexemes spelling.bang ++
      condition.spelledOperands spelling) := by
  have hslots := hwritten.slots
  have hoperator := condition.operator.solid_spelledLexemes spelling.bang
  have hvalue := solid_spelledSlot spelling.value hwritten.value
  have hand : Solid [word "AND".toList] := solid_keyword (by simp) rfl
  have hbounds := (solid_spelledSlot spelling.minValue hwritten.minValue).glue_space
    (hand.glue_space (solid_spelledSlot spelling.maxValue hwritten.maxValue))
  rw [spelledOperands]
  cases hcase : condition.operator with
  | between =>
      rw [hcase] at hoperator
      exact hoperator.glue_space hbounds
  | inList =>
      rw [HasOperands, hcase] at hslots
      rw [hcase] at hoperator
      exact hoperator.glue_space (solid_values hwritten hslots).group
  | isNull | isNotNull =>
      rw [hcase] at hoperator
      simpa using hoperator
  | equal | notEqual | less | greater | lessOrEqual | greaterOrEqual | like =>
      rw [hcase] at hoperator
      exact hoperator.glue_space hvalue

theorem solid_negated (hwritten : condition.IsWritten clause) :
    Solid (condition.negationLexemes ++ (condition.operator.spelledLexemes spelling.bang ++
      condition.spelledOperands spelling)) := by
  have hoperator := @solid_operator clause condition spelling hwritten
  rw [negationLexemes]
  split
  · exact solid_not.glue_space hoperator
  · exact hoperator

theorem solid_spelledBody (hwritten : condition.IsWritten clause) :
    Solid (condition.spelledBody spelling) :=
  (ColumnTerm.solid_lexemes hwritten.term).glue_space (solid_negated hwritten)

theorem solid_spelledLexemes (hwritten : condition.IsWritten clause) :
    Solid (condition.spelledLexemes spelling) := by
  have hbody := @solid_spelledBody clause condition spelling hwritten
  rw [spelledLexemes]
  split
  · exact solid_not.glue_space hbody.group
  · exact hbody

/-! ## The words and marks of conditions -/

end Condition

namespace Operator

/-- The words and marks that a condition with an operator holds besides its column and
its operands. -/
def ownLabels (bang : Bool) (operator : Operator) : List Text :=
  "NOT".toList :: (operator.spelledLexemes bang).map label ++
    match operator with
    | between => ["AND".toList]
    | inList => [[',']]
    | _ => []

end Operator

namespace Condition

variable {clause : Clause} {condition : Condition} {spelling : Spelling} {labels : List Text}

theorem quiet_spread {items : List (List Lexeme)} (hcomma : [','] ∉ labels)
    (hspace : [' '] ∉ labels) (hitems : ∀ item ∈ items, Quiet labels item) :
    Quiet labels (spread [' '] items) := by
  cases items with
  | nil => exact quiet_nil _
  | cons first others =>
      refine quiet_append.mpr ⟨hitems first (by simp), ?_⟩
      intro lexeme hmem
      obtain ⟨item, hitem, hmem⟩ := List.mem_flatMap.mp hmem
      simp only [marks, List.map_cons, List.map_nil, List.cons_append, List.nil_append,
        List.mem_cons] at hmem
      rcases hmem with rfl | rfl | hmem
      · exact hcomma
      · exact hspace
      · exact hitems item (List.mem_cons_of_mem first hitem) lexeme hmem

/-- The operands hold no label that the reader stops at, apart from the commas and the
`AND` between them. -/
theorem quiet_spelledOperands (hwritten : condition.IsWritten clause) (hlabels : labels ⊆ stops)
    (hown : ∀ label ∈ condition.operator.ownLabels spelling.bang, label ∉ labels) :
    Quiet labels (condition.spelledOperands spelling) := by
  have hmark : ∀ c, [c] ∉ stops → (mark c).label ∉ labels := fun c hc hmem => hc (hlabels hmem)
  have hspace := hmark ' ' (by decide)
  have hvalue := (quiet_spelledSlot spelling.value hwritten.value).mono hlabels
  have hmin := (quiet_spelledSlot spelling.minValue hwritten.minValue).mono hlabels
  have hmax := (quiet_spelledSlot spelling.maxValue hwritten.maxValue).mono hlabels
  have hvalues : ∀ item ∈ condition.spelledValues spelling, Quiet labels item :=
    fun item hmem => (forall_spelledValues hwritten item hmem).2.mono hlabels
  rw [spelledOperands]
  cases hcase : condition.operator with
  | between =>
      have hand := hown "AND".toList (by simp [hcase, Operator.ownLabels])
      exact quiet_cons.mpr ⟨hspace, quiet_append.mpr ⟨hmin, quiet_cons.mpr ⟨hspace,
        quiet_cons.mpr ⟨hand, quiet_cons.mpr ⟨hspace, hmax⟩⟩⟩⟩⟩
  | inList =>
      have hcomma := hown [','] (by simp [hcase, Operator.ownLabels])
      exact quiet_cons.mpr ⟨hspace, quiet_cons.mpr ⟨hmark '(' (by decide),
        quiet_append.mpr ⟨quiet_spread hcomma hspace hvalues,
          quiet_cons.mpr ⟨hmark ')' (by decide), quiet_nil _⟩⟩⟩⟩
  | isNull | isNotNull => exact quiet_nil _
  | equal | notEqual | less | greater | lessOrEqual | greaterOrEqual | like =>
      exact quiet_cons.mpr ⟨hspace, hvalue⟩

theorem quiet_spelledBody (hwritten : condition.IsWritten clause) (hlabels : labels ⊆ stops)
    (hown : ∀ label ∈ condition.operator.ownLabels spelling.bang, label ∉ labels) :
    Quiet labels (condition.spelledBody spelling) := by
  have hspace : (mark ' ').label ∉ labels := fun hmem =>
    absurd (hlabels hmem) (by decide)
  have hnot := hown "NOT".toList (by simp [Operator.ownLabels])
  have hoperator : Quiet labels (condition.operator.spelledLexemes spelling.bang) := by
    intro lexeme hmem
    exact hown lexeme.label (by simp [Operator.ownLabels, List.mem_map_of_mem hmem])
  have hoperands := quiet_spelledOperands hwritten hlabels hown
  have hterm := (ColumnTerm.quiet_lexemes hwritten.term).mono hlabels
  refine quiet_append.mpr ⟨hterm, quiet_cons.mpr ⟨hspace, quiet_append.mpr ⟨?_,
    quiet_append.mpr ⟨hoperator, hoperands⟩⟩⟩⟩
  rw [negationLexemes]
  split
  · exact quiet_cons.mpr ⟨hnot, quiet_cons.mpr ⟨hspace, quiet_nil _⟩⟩
  · exact quiet_nil _

theorem quiet_spelledLexemes (hwritten : condition.IsWritten clause) (hlabels : labels ⊆ stops)
    (hown : ∀ label ∈ condition.operator.ownLabels spelling.bang, label ∉ labels) :
    Quiet labels (condition.spelledLexemes spelling) := by
  have hmark : ∀ c, [c] ∉ stops → (mark c).label ∉ labels := fun c hc hmem => hc (hlabels hmem)
  have hnot := hown "NOT".toList (by simp [Operator.ownLabels])
  have hbody := quiet_spelledBody hwritten hlabels hown
  rw [spelledLexemes]
  split
  · exact quiet_cons.mpr ⟨hnot, quiet_cons.mpr ⟨hmark ' ' (by decide),
      quiet_cons.mpr ⟨hmark '(' (by decide), quiet_append.mpr ⟨hbody,
        quiet_cons.mpr ⟨hmark ')' (by decide), quiet_nil _⟩⟩⟩⟩⟩
  · exact hbody

/-- The labels of a statement that stand in no condition. -/
def outerStops : List Text :=
  ["CROSS", "EXCEPT", "FROM", "FULL", "GROUP", "HAVING", "INNER", "INTERSECT", "JOIN", "LEFT",
    "LIMIT", "NATURAL", "OFFSET", "ON", "OR", "ORDER", "OVER", "RIGHT", "SELECT", "UNION",
    "USING", "WHERE", "WITH"].map String.toList ++ [[';'], ['?']]

theorem quiet_outer (hwritten : condition.IsWritten clause) :
    Quiet outerStops (condition.spelledLexemes spelling) := by
  refine quiet_spelledLexemes hwritten (by decide) ?_
  cases condition.operator <;> cases spelling.bang <;> decide

/-! ## Links -/

/-- A condition as a link of a chain. -/
def link (condition : Condition) : ChainLink :=
  if condition.operator = .between then
    { front :=
        condition.term.lexemes ++
          if condition.negated then [mark ' ', word "NOT".toList] else []
      bounds := some (slotLexemes condition.minValue, slotLexemes condition.maxValue) }
  else
    { front := condition.lexemes }

/-- A condition in a spelling as a link of a chain. -/
def spelledLink (spelling : Spelling) (condition : Condition) : ChainLink :=
  if condition.operator = .between then
    { front :=
        condition.term.lexemes ++
          if condition.negated then [mark ' ', word "NOT".toList] else []
      bounds := some (spelledSlot spelling.minValue condition.minValue,
        spelledSlot spelling.maxValue condition.maxValue) }
  else
    { front := condition.spelledLexemes spelling }

theorem spelledLink_plain (condition : Condition) : condition.spelledLink {} = condition.link := by
  rw [spelledLink, link, spelledLexemes_plain, spelledSlot_plain, spelledSlot_plain]

theorem lexemes_spelledLink (spelling : Spelling) (condition : Condition) :
    (condition.spelledLink spelling).lexemes = condition.spelledLexemes spelling := by
  rw [spelledLink]
  split
  next hbetween =>
    cases hnegated : condition.negated <;>
      simp [ChainLink.lexemes, ChainLink.row, Marked.lexemesOf, Marked.lexemes, spelledLexemes,
        spelledBody, negationLexemes, spelledOperands, hbetween, hnegated, takesNot,
        Operator.spelledLexemes, Operator.lexemes]
  next => simp [ChainLink.lexemes, ChainLink.row, Marked.lexemesOf]

theorem lexemes_link (condition : Condition) : condition.link.lexemes = condition.lexemes := by
  rw [← spelledLink_plain, lexemes_spelledLink, spelledLexemes_plain]

theorem isProper_spelledLink (hwritten : condition.IsWritten clause) :
    (condition.spelledLink spelling).IsProper := by
  have hstops : ChainMark.stops ⊆ stops := by decide
  rw [spelledLink]
  split
  next hbetween =>
    have hmin := solid_spelledSlot spelling.minValue hwritten.minValue
    have hmax := solid_spelledSlot spelling.maxValue hwritten.maxValue
    have hterm := ColumnTerm.solid_lexemes hwritten.term
    have hquiet := (ColumnTerm.quiet_lexemes hwritten.term).mono hstops
    intro piece hmem
    simp only [ChainLink.pieces, List.mem_cons, List.not_mem_nil, or_false] at hmem
    rcases hmem with rfl | rfl | rfl
    · split
      · exact ⟨hterm.glue_space solid_not, quiet_append.mpr ⟨hquiet,
          quiet_cons.mpr ⟨by decide, quiet_cons.mpr ⟨by decide, quiet_nil _⟩⟩⟩⟩
      · simpa using ⟨hterm, hquiet⟩
    · exact ⟨hmin, (quiet_spelledSlot spelling.minValue hwritten.minValue).mono hstops⟩
    · exact ⟨hmax, (quiet_spelledSlot spelling.maxValue hwritten.maxValue).mono hstops⟩
  next hbetween =>
    intro piece hmem
    obtain rfl : piece = condition.spelledLexemes spelling := by
      simpa [ChainLink.pieces] using hmem
    refine ⟨solid_spelledLexemes hwritten, quiet_spelledLexemes hwritten hstops ?_⟩
    cases hcase : condition.operator with
    | between => exact absurd hcase hbetween
    | equal | notEqual | less | greater | lessOrEqual | greaterOrEqual | like | inList | isNull
    | isNotNull => cases spelling.bang <;> decide

end Condition

end SelectForm

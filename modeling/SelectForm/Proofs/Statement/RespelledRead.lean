import Mathlib
import SelectForm.Proofs.Query.Recased
import SelectForm.Proofs.Statement.RespelledItem
import SelectForm.Proofs.Statement.HeldOperand
import SelectForm.Proofs.Statement.AlikeClause

/-!
# Reading respelled items

Items of alike rows either have no literals, and then their texts are respelled, or both of
them have some.  Only an operand may have a literal, and then it is one.  So the smallest
parts of two statements that are respelled are read alike: the names in them are taken
character by character to others, and the contents of literals are related.
-/

namespace SelectForm

open Lexeme

variable {f : Char → Char} {related : Text → Text → Prop} {stretch : Prop}

/-! ## Texts without literals -/

/-- A text without quotation marks. -/
def Text.Quoteless (text : Text) : Prop := ∀ c ∈ text, Quote.ofChar? c = none

/-- The texts of two alike rows are respelled, or both have quotation marks. -/
theorem Lexeme.Alike.respelled_or {row row' : List Lexeme} (hatomic : Atomic row)
    (halike : Lexeme.Alike (Lexeme.Respelled f related) stretch row row') :
    Text.Respelled f stretch (textOf row) (textOf row') ∨
      ¬ Text.Quoteless (textOf row) ∧ ¬ Text.Quoteless (textOf row') := by
  induction halike with
  | nil => exact .inl .nil
  | @cons lexeme other row row' hlexeme _ ih =>
      obtain ⟨hatom, hrow⟩ := atomic_cons.mp hatomic
      cases lexeme with
      | mark c =>
          cases other with
          | mark d =>
              obtain rfl : d = f c := hlexeme
              rcases ih hrow with hrest | ⟨hno, hno'⟩
              · exact .inl hrest.cons
              · exact .inr ⟨fun hall => hno (List.forall_mem_cons.mp hall).2,
                  fun hall => hno' (List.forall_mem_cons.mp hall).2⟩
          | word _ | literal _ _ | lineComment _ | blockComment _ => exact hlexeme.elim
      | literal quote content =>
          cases other with
          | literal other content' =>
              have hquote : ∀ (quote : Quote) (content : Text) (row : List Lexeme),
                  ¬ Text.Quoteless (textOf (literal quote content :: row)) := by
                intro quote content row hall
                have hchar := hall quote.char (by simp [Lexeme.text, Quote.enclose])
                cases quote <;> simp [Quote.ofChar?, Quote.char] at hchar
              exact .inr ⟨hquote quote content row, hquote other content' row'⟩
          | word _ | mark _ | lineComment _ | blockComment _ => exact hlexeme.elim
      | word _ | lineComment _ | blockComment _ => exact hatom.elim
  | @gap gap gap' row row' hstretch hne hne' hgap hgap' _ ih =>
      rw [textOf_append, textOf_append, textOf_marks, textOf_marks]
      rcases ih (atomic_append.mp hatomic).2 with hrest | ⟨hno, hno'⟩
      · refine .inl ?_
        rw [Text.Respelled, marks_append, marks_append]
        exact Lexeme.Alike.gap hstretch hne hne' hgap hgap' hrest
      · exact .inr ⟨fun hall => hno (List.forall_mem_append.mp hall).2,
          fun hall => hno' (List.forall_mem_append.mp hall).2⟩

/-- Only a literal is alike to a literal. -/
theorem Lexeme.Alike.eq_literal_iff {row row' : List Lexeme}
    (halike : Lexeme.Alike (Lexeme.Respelled f related) stretch row row') :
    (∃ quote content content', row = [literal quote content] ∧ row' = [literal quote content'] ∧
        related content content') ∨
      (∀ quote content, row ≠ [literal quote content]) ∧
        ∀ quote content, row' ≠ [literal quote content] := by
  have hgap : ∀ {gap : Text} {row : List Lexeme}, gap ≠ [] →
      ∀ quote content, marks gap ++ row ≠ [literal quote content] := by
    intro gap row hne quote content heq
    obtain ⟨c, gap, rfl⟩ := List.exists_cons_of_ne_nil hne
    exact absurd (List.cons.inj heq).1 (by simp)
  cases halike with
  | nil => simp
  | gap _ hne hne' _ _ _ => exact .inr ⟨hgap hne, hgap hne'⟩
  | @cons lexeme other row row' hlexeme hrow =>
      cases lexeme with
      | mark c =>
          cases other with
          | mark d => simp
          | word _ | literal _ _ | lineComment _ | blockComment _ => exact hlexeme.elim
      | literal quote content =>
          cases other with
          | literal other content' =>
              obtain ⟨rfl, hrelated⟩ := hlexeme
              have hnil := hrow.eq_nil_iff
              cases row with
              | nil => exact .inl ⟨quote, content, content', rfl, by rw [hnil.mp rfl], hrelated⟩
              | cons _ _ => 
                  cases row' with
                  | nil => exact absurd (hnil.mpr rfl) (List.cons_ne_nil _ _)
                  | cons _ _ => simp
          | word _ | mark _ | lineComment _ | blockComment _ => exact hlexeme.elim
      | word _ | lineComment _ | blockComment _ => exact hlexeme.elim

/-- Readers that accept no quotation marks read alike fragments alike if they do so to
respelled texts. -/
theorem Fragment.Alike.agree {α β : Type} {S : α → β → Prop} {fragment fragment' : Fragment}
    {read : Except ParseError α} {read' : Except ParseError β}
    (hquoteless : ∀ value, read = .ok value → fragment.text.Quoteless)
    (hquoteless' : ∀ value, read' = .ok value → fragment'.text.Quoteless)
    (hread : Text.Respelled f stretch fragment.text fragment'.text → Agree S read read')
    (halike : fragment.Alike (Lexeme.Respelled f related) stretch fragment') :
    Agree S read read' := by
  obtain ⟨row, row', hsound, hsound', htext, htext', hrows⟩ := halike
  rcases hrows.respelled_or hsound.atomic with hrespelled | ⟨hno, hno'⟩
  · rw [htext, htext'] at hrespelled
    exact hread hrespelled
  · rw [htext] at hno
    rw [htext'] at hno'
    cases read with
    | ok value => exact absurd (hquoteless value rfl) hno
    | error failed =>
        cases read' with
        | ok value => exact absurd (hquoteless' value rfl) hno'
        | error failed' => exact .error

/-! ## Names -/

namespace Identifier

theorem isReserved_recase (hrecase : Text.KeepsLetters f) (name : Text) :
    isReserved (String.ofList (name.map f)) = isReserved (String.ofList name) := by
  have hname := @Text.Respelled.map f False name
  rw [isReserved, isReserved, Bool.eq_iff_iff, List.any_eq_true, List.any_eq_true]
  refine exists_congr fun word => and_congr_right fun hword => ?_
  rw [same, same, String.toList_ofList, String.toList_ofList,
    hname.reserved_sameLetters_eq hrecase hword]

theorem isValid_recase (hrecase : Text.KeepsLetters f) (name : Text) :
    isValid (String.ofList (name.map f)) = isValid (String.ofList name) := by
  have hname := (@Text.Respelled.map f False name).isName_eq hrecase
  rw [isValid, isValid, isReserved_recase hrecase, String.toList_ofList, String.toList_ofList, hname]

theorem splitOn_recase (hrecase : Text.KeepsLetters f) (text : Text) :
    Text.splitOn '.' (text.map f) = (Text.splitOn '.' text).map (List.map f) := by
  induction text with
  | nil => rfl
  | cons c text ih =>
      have hdot := hrecase.eq_iff (c := c) (d := '.') (by decide)
      rw [List.map_cons, Text.splitOn, Text.splitOn, ih]
      cases Text.splitOn '.' text with
      | nil => rfl
      | cons piece pieces =>
          simp only [List.map_cons, hdot]
          split <;> rfl

theorem isValidTable_recase (hrecase : Text.KeepsLetters f) (name : Text) :
    isValidTable (String.ofList (name.map f)) = isValidTable (String.ofList name) := by
  rw [isValidTable, isValidTable, parts, parts, String.toList_ofList, String.toList_ofList,
    splitOn_recase hrecase, List.length_map, List.length_map, List.length_map]
  congr 1
  rw [List.all_map, List.all_map, List.all_map]
  congr 1
  exact funext fun piece => isValid_recase hrecase piece

end Identifier

/-! ## Columns -/

namespace ColumnTerm

variable {clause : Clause} {text text' : Text}

theorem eq_star_iff (hrecase : Text.KeepsLetters f) (name : String) :
    Identifier.recase f name = "*" ↔ name = "*" := by
  have hstar := (@Text.Respelled.map f False name.toList).star_iff hrecase
  rw [← String.toList_inj, ← String.toList_inj, Identifier.recase, String.toList_ofList]
  exact hstar.symm

theorem isWildcard_recase (hrecase : Text.KeepsLetters f) (term : ColumnTerm) :
    (term.recase f).isWildcard = term.isWildcard := by
  rw [Bool.eq_iff_iff, isWildcard, isWildcard, beq_iff_eq, beq_iff_eq]
  exact eq_star_iff hrecase term.column

theorem isBareWildcard_recase (hrecase : Text.KeepsLetters f) (term : ColumnTerm) :
    (term.recase f).isBareWildcard = term.isBareWildcard := by
  rw [isBareWildcard, isBareWildcard, isWildcard_recase hrecase]
  rfl

theorem ofName?_respelled (hrecase : Text.KeepsLetters f)
    (htext : Text.Respelled f stretch text text') :
    Option.Rel (fun term term' => term' = term.recase f) (ofName? text) (ofName? text') := by
  have hcolumn := htext.columnName? hrecase
  unfold ofName?
  generalize Text.columnName? text = found at hcolumn
  generalize Text.columnName? text' = found' at hcolumn
  cases hcolumn with
  | none => exact .none
  | @some found found' hfound =>
      obtain ⟨table, column⟩ := found
      obtain rfl := hfound
      have htable : ((table.map (List.map f)).map String.ofList).all Identifier.isValid =
          (table.map String.ofList).all Identifier.isValid := by
        cases table with
        | none => rfl
        | some name => exact Identifier.isValid_recase hrecase name
      have hstar : (String.ofList (column.map f) == "*") = (String.ofList column == "*") := by
        rw [Bool.eq_iff_iff, beq_iff_eq, beq_iff_eq, ← Identifier.recase_ofList]
        exact eq_star_iff hrecase _
      dsimp only
      rw [htable, hstar, Identifier.isValid_recase hrecase]
      split
      · refine .some ?_
        rw [recase, Identifier.recase_ofList, Option.map_map, Option.map_map]
        congr 1
        exact Option.map_congr fun name _ => (Identifier.recase_ofList f name).symm
      · exact .none

theorem ofName?_recase (hrecase : Text.KeepsLetters f) (name : Text) :
    Aggregate.ofName? (String.ofList (name.map f)) = Aggregate.ofName? (String.ofList name) := by
  have hname := (@Text.Respelled.map f False name).trim hrecase
  rw [Aggregate.ofName?, Aggregate.ofName?, String.toList_ofList, String.toList_ofList]
  congr 1
  exact funext fun aggregate => hname.sameLetters_eq hrecase aggregate.isAlpha_keyword

/-- A column is read from a respelled text as the column recased. -/
theorem read_respelled {fragment fragment' : Fragment} (clause' : Clause)
    (hrecase : Text.KeepsLetters f)
    (htext : Text.Respelled f stretch fragment.text fragment'.text) :
    Agree (fun term term' => term' = term.recase f) (read clause fragment)
      (read clause' fragment') := by
  have htrim := htext.trim hrecase
  have hcall := htrim.call? hrecase
  have hname := ofName?_respelled hrecase htrim
  unfold read
  dsimp only [Fragment.trim]
  generalize Text.call? (Text.trim fragment.text) = found at hcall
  generalize Text.call? (Text.trim fragment'.text) = found' at hcall
  cases hcall with
  | none =>
      dsimp only
      generalize ofName? (Text.trim fragment.text) = term at hname
      generalize ofName? (Text.trim fragment'.text) = term' at hname
      cases hname with
      | none => exact .error
      | some hterm => exact .ok hterm
  | @some found found' hfound =>
      obtain ⟨name, distinct, argument⟩ := found
      obtain ⟨name', distinct', argument'⟩ := found'
      dsimp only at hfound
      obtain ⟨rfl, rfl, hargument⟩ := hfound
      have hterm := ofName?_respelled hrecase hargument
      dsimp only at hterm ⊢
      rw [ofName?_recase hrecase]
      cases Aggregate.ofName? (String.ofList name) with
      | none => exact .error
      | some aggregate =>
          dsimp only
          generalize ofName? argument = term at hterm
          generalize ofName? argument' = term' at hterm
          cases hterm with
          | none => exact .error
          | @some term term' hterm =>
              obtain rfl := hterm
              refine Agree.ite ?_ fun _ => .ok rfl
              rw [isWildcard_recase hrecase, show (term.recase f).table.isSome =
                term.table.isSome from Option.isSome_map]

end ColumnTerm

theorem Condition.readTerm_respelled {clause : Clause} {left left' : Fragment}
    (hrecase : Text.KeepsLetters f) (htext : Text.Respelled f stretch left.text left'.text) :
    Agree (fun term term' => term' = term.recase f) (readTerm clause left) (readTerm clause left') := by
  unfold readTerm
  refine (ColumnTerm.read_respelled clause hrecase htext).bind fun term term' hterm => ?_
  obtain rfl := hterm
  dsimp only
  rw [ColumnTerm.isBareWildcard_recase hrecase]
  exact Agree.ite Iff.rfl fun _ => Agree.ite Iff.rfl fun _ => .ok rfl

/-! ## Lists -/

section

variable {fragment fragment' : Fragment}

theorem SelectItem.read_respelled (hrecase : Text.KeepsLetters f)
    (htext : Text.Respelled f stretch fragment.text fragment'.text) :
    Agree (fun item item' => item' = item.recase f) (read fragment) (read fragment') := by
  have hsplit := htext.splitAlias hrecase
  unfold read
  generalize Text.splitAlias fragment.text = split at hsplit
  generalize Text.splitAlias fragment'.text = split' at hsplit
  obtain ⟨expression, aliasName⟩ := split
  obtain ⟨expression', aliasName'⟩ := split'
  obtain ⟨hexpression, rfl⟩ := hsplit
  dsimp only at hexpression ⊢
  refine (ColumnTerm.read_respelled .select hrecase hexpression).bind fun term term' hterm => ?_
  obtain rfl := hterm
  cases aliasName with
  | none => exact .ok rfl
  | some name =>
      simp only [Option.map_some]
      rw [Identifier.isValid_recase hrecase, ColumnTerm.isBareWildcard_recase hrecase]
      refine Agree.ite Iff.rfl fun _ => Agree.ite Iff.rfl fun _ => .ok ?_
      rw [recase, Option.map_some, Identifier.recase_ofList]

theorem GroupItem.read_respelled (hrecase : Text.KeepsLetters f)
    (htext : Text.Respelled f stretch fragment.text fragment'.text) :
    Agree (fun item item' => item' = item.recase f) (read fragment) (read fragment') := by
  unfold read
  refine (ColumnTerm.read_respelled .groupBy hrecase htext).bind fun term term' hterm => ?_
  obtain rfl := hterm
  rw [ColumnTerm.isWildcard_recase hrecase]
  exact Agree.ite Iff.rfl fun _ => Agree.ite Iff.rfl fun _ => .ok rfl

theorem OrderItem.read_respelled (hrecase : Text.KeepsLetters f)
    (htext : Text.Respelled f stretch fragment.text fragment'.text) :
    Agree (fun item item' => item' = item.recase f) (read fragment) (read fragment') := by
  have hsplit := htext.splitDirection hrecase
  unfold read
  generalize Text.splitDirection fragment.text = split at hsplit
  generalize Text.splitDirection fragment'.text = split' at hsplit
  obtain ⟨expression, direction⟩ := split
  obtain ⟨expression', direction'⟩ := split'
  obtain ⟨hexpression, rfl⟩ := hsplit
  dsimp only at hexpression ⊢
  refine (ColumnTerm.read_respelled .orderBy hrecase hexpression).bind fun term term' hterm => ?_
  obtain rfl := hterm
  rw [ColumnTerm.isBareWildcard_recase hrecase]
  exact Agree.ite Iff.rfl fun _ => .ok rfl

/-! ## Tables and comparisons -/

theorem TableItem.read_respelled {clause : Clause} (hrecase : Text.KeepsLetters f)
    (htext : Text.Respelled f stretch fragment.text fragment'.text) :
    Agree (fun table table' => table' = table.recase f) (read clause fragment)
      (read clause fragment') := by
  have htrim := htext.trim hrecase
  have hopen : (Text.trim fragment.text).head? = some '(' ↔
      (Text.trim fragment'.text).head? = some '(' :=
    htrim.head?_eq_iff hrecase (by decide) (by decide)
  have hreference := htrim.tableReference? hrecase
  unfold read
  dsimp only [Fragment.trim]
  refine Agree.ite hopen fun _ => ?_
  generalize Text.tableReference? (Text.trim fragment.text) = found at hreference
  generalize Text.tableReference? (Text.trim fragment'.text) = found' at hreference
  cases hreference with
  | none => exact .error
  | @some found found' hfound =>
      obtain ⟨name, aliasName⟩ := found
      obtain rfl := hfound
      dsimp only
      rw [Identifier.isValidTable_recase hrecase]
      refine Agree.ite Iff.rfl fun _ => ?_
      cases aliasName with
      | none => exact .ok (by rw [recase, Identifier.recase_ofList]; rfl)
      | some word =>
          simp only [Option.map_some]
          rw [Identifier.isValid_recase hrecase]
          split
          · exact .ok (by rw [recase, Identifier.recase_ofList, Option.map_some, Identifier.recase_ofList])
          · exact .error

theorem JoinCondition.read_respelled (hrecase : Text.KeepsLetters f)
    (htext : Text.Respelled f stretch fragment.openAll.text fragment'.openAll.text) :
    Agree (fun condition condition' => condition' = condition.recase f) (read fragment)
      (read fragment') := by
  have hcomparison := htext.comparison? hrecase
  unfold read
  dsimp only
  generalize Text.comparison? fragment.openAll.text = found at hcomparison
  generalize Text.comparison? fragment'.openAll.text = found' at hcomparison
  cases hcomparison with
  | none => exact .error
  | @some found found' hfound =>
      obtain ⟨⟨leftTable, leftColumn⟩, operator, ⟨rightTable, rightColumn⟩⟩ := found
      obtain rfl := hfound
      cases leftTable with
      | none => exact .error
      | some leftTable =>
          cases rightTable with
          | none => exact .error
          | some rightTable =>
              refine .ok ?_
              simp only [recase, Identifier.recase_ofList]

end

/-! ## Operands -/

namespace Text

variable {text text' : Text}

theorem afterSign_map (hrecase : KeepsLetters f) (text : Text) :
    afterSign (text.map f) = (afterSign text).map f := by
  have hsign : ∀ c : Char, c.isAlpha = false → (∀ rest, text ≠ c :: rest) →
      ∀ rest, text.map f ≠ c :: rest := by
    intro c hletter hne rest hmap
    obtain ⟨d, behind, rfl, hd, -⟩ := List.map_eq_cons_iff.mp hmap
    exact hne behind (by rw [(hrecase.eq_iff hletter).mp hd])
  rw [afterSign.eq_def text]
  split
  · rw [List.map_cons, hrecase.eq_of_not_isAlpha (by decide)]
    rfl
  · rw [List.map_cons, hrecase.eq_of_not_isAlpha (by decide)]
    rfl
  · rename_i hplus hminus
    rw [afterSign.eq_def]
    split
    · rename_i heq
      exact absurd heq (hsign '+' (by decide) hplus _)
    · rename_i heq
      exact absurd heq (hsign '-' (by decide) hminus _)
    · rfl

theorem takeWhile_isDecimal_map (hrecase : KeepsLetters f) (text : Text) :
    (text.map f).takeWhile isDecimal = (text.takeWhile isDecimal).map f ∧
      (text.map f).dropWhile isDecimal = (text.dropWhile isDecimal).map f := by
  have hdigit : isDecimal ∘ f = isDecimal := funext fun c => isDecimal_caseless.apply_eq hrecase c
  rw [List.takeWhile_map, List.dropWhile_map, hdigit]
  exact ⟨rfl, rfl⟩

/-- The letter of an exponent, in either case. -/
theorem exponentMark_caseless : Caseless fun c => c == 'e' || c == 'E' := by
  have hmark : ∀ c : Char, (c == 'e' || c == 'E') = (c.toLower == 'e') := by
    intro c
    rw [Bool.eq_iff_iff, Bool.or_eq_true, beq_iff_eq, beq_iff_eq, beq_iff_eq]
    constructor
    · rintro (rfl | rfl) <;> rfl
    · intro hlower
      by_cases hupper : c.isUpper = true
      · rw [← toUpper_of_isUpper hupper, ← Char.toUpper_toLower_eq_toUpper, hlower]
        exact .inr rfl
      · exact .inl (by rwa [Char.toLower_eq_of_not_isUpper hupper] at hlower)
  intro c d hupper
  exact (hmark c).trans ((congrArg (· == 'e') (toLower_congr hupper)).trans (hmark d).symm)

theorem isExponent_map (hrecase : KeepsLetters f) (text : Text) :
    isExponent (text.map f) = isExponent text := by
  have hreject : RejectsGaps isDecimal := rejectsGaps_of_wordChar fun _ => isWordChar_of_isDecimal
  cases text with
  | nil => rfl
  | cons c rest =>
      rw [List.map_cons, isExponent, isExponent, afterSign_map hrecase,
        (@Respelled.map f False (afterSign rest)).isRun_eq hrecase isDecimal_caseless
          isDecimal_caseless hreject hreject]
      exact congrArg (· && isRun isDecimal isDecimal (afterSign rest))
        (Caseless.apply_eq exponentMark_caseless hrecase c)

theorem isNumber_map (hrecase : KeepsLetters f) (text : Text) :
    isNumber (text.map f) = isNumber text := by
  have hparts := takeWhile_isDecimal_map hrecase
  have hpoint : f '.' = '.' := hrecase.eq_of_not_isAlpha (by decide)
  have hexponent := isExponent_map hrecase
  rw [isNumber, isNumber, afterSign_map hrecase, (hparts _).1, (hparts _).2]
  generalize (afterSign text).takeWhile isDecimal = digits
  generalize (afterSign text).dropWhile isDecimal = rest
  cases rest with
  | nil => cases digits <;> rfl
  | cons c rest =>
      by_cases hc : c = '.'
      · subst hc
        rw [List.map_cons, hpoint]
        cases digits with
        | nil => simp only [List.map_nil, (hparts rest).1, (hparts rest).2, hexponent, List.isEmpty_map]
        | cons d digits => simp only [List.map_cons, (hparts rest).2, hexponent]
      · have hc' : f c ≠ '.' := mt (hrecase.eq_iff (by decide)).mp hc
        have hwhole := hexponent (c :: rest)
        rw [List.map_cons] at hwhole ⊢
        cases digits with
        | nil => simp [hc, hc']
        | cons d digits => simpa [hc, hc'] using hwhole

theorem isAsciiBlank_of_isNumber (hnumber : isNumber text = true) :
    ∀ c ∈ text, isAsciiBlank c = false := by
  intro c hc
  by_contra hblank
  rcases forall_of_isNumber hnumber c hc with hdecimal | hmark
  · have hno := isBlank_of_isDecimal hdecimal
    rw [isBlank_of_isAsciiBlank (Bool.of_not_eq_false hblank)] at hno
    exact absurd hno (by decide)
  · have hall : ['+', '-', '.', 'e', 'E'].all (fun c => !isAsciiBlank c) = true := rfl
    have hno := List.all_eq_true.mp hall c hmark
    rw [Bool.of_not_eq_false hblank] at hno
    exact absurd hno (by decide)

namespace Respelled

theorem isNumber_eq (hrecase : KeepsLetters f) (htext : Respelled f stretch text text') :
    isNumber text' = isNumber text := by
  refine htext.test_eq (fun text hmem => ?_) (isNumber_map hrecase)
  obtain ⟨c, hc, hblank⟩ := hmem
  by_contra hnumber
  rw [isAsciiBlank_of_isNumber (Bool.of_not_eq_false hnumber) c hc] at hblank
  exact absurd hblank (by decide)

theorem parameterName? (hrecase : KeepsLetters f) (htext : Respelled f stretch text text') :
    Option.Rel (fun name name' => name' = name.map f) (parameterName? text)
      (Text.parameterName? text') := by
  have hreject : RejectsGaps isParameterChar := rejectsGaps_of_wordChar fun _ hc =>
    isWordChar_of_isNameTail (isNameTail_of_isParameterChar hc)
  have hname : ∀ text : Text, Text.parameterName? text =
      (Text.behind? ':' text).bind fun name => if isParameterName name then some name else none := by
    intro text
    cases text with
    | nil => rfl
    | cons c rest =>
        by_cases hc : c = ':'
        · subst hc
          rfl
        · simp [Text.parameterName?, Text.behind?, hc]
  rw [hname, hname]
  refine rel_bind (htext.behind? (c := ':') hrecase (by decide) (by decide)) fun name name' hbehind => ?_
  rw [isParameterName, isParameterName, hbehind.isRun_eq hrecase isParameterChar_caseless
    isParameterChar_caseless hreject hreject]
  split
  · rename_i hrun
    exact .some (hbehind.eq_map (isAsciiBlank_of_isRun hreject hreject hrun))
  · exact .none

end Respelled

end Text

namespace Operand

variable {clause : Clause} {text text' : Text} {fragment fragment' : Fragment}

/-- A literal without quotation marks. -/
theorem literalOf?_respelled (hrecase : Text.KeepsLetters f)
    (hquoted : text.isQuotedLiteral = false) (hquoted' : text'.isQuotedLiteral = false)
    (htext : Text.Respelled f stretch text text') :
    Option.Rel (fun value value' => Operand.Recased f related (.literal value) (.literal value'))
      (literalOf? text) (literalOf? text') := by
  have hword := fun word (hword : word ∈ Identifier.reservedWords) =>
    htext.reserved_sameLetters_eq hrecase hword
  have hsame : ∀ value : Literal, (∀ text, Operand.literal value ≠ .string text) →
      Operand.recase f (.literal value) = .literal value →
        Operand.Recased f related (.literal value) (.literal value) := by
    intro value hplain hsame
    have hrecased := @Operand.Recased.plain f related _ hplain
    rwa [hsame] at hrecased
  unfold literalOf?
  rw [hquoted, hquoted', if_neg Bool.false_ne_true, if_neg Bool.false_ne_true,
    htext.isNumber_eq hrecase]
  simp only [Text.isWord, hword "TRUE" (by decide), hword "FALSE" (by decide),
    hword "NULL" (by decide)]
  refine rel_ite (fun hnumber => ?_) fun _ => ?_
  · rw [htext.eq_map (Text.isAsciiBlank_of_isNumber hnumber), ← Identifier.recase_ofList]
    exact .some (@Operand.Recased.plain f related (.literal (.number _)) (by simp [string]))
  · refine rel_ite (fun _ => .some (hsame (.boolean true) (by simp [string]) rfl)) fun _ => ?_
    refine rel_ite (fun _ => .some (hsame (.boolean false) (by simp [string]) rfl)) fun _ => ?_
    exact rel_ite (fun _ => .some (hsame .null (by simp [string]) rfl)) fun _ => .none

/-- An operand without quotation marks. -/
theorem read_respelled (hrecase : Text.KeepsLetters f)
    (hquoted : (Text.trim fragment.text).isQuotedLiteral = false)
    (hquoted' : (Text.trim fragment'.text).isQuotedLiteral = false)
    (htext : Text.Respelled f stretch fragment.text fragment'.text) :
    Agree (Operand.Recased f related) (read clause fragment) (read clause fragment') := by
  have htrim := htext.trim hrecase
  have hname := htrim.parameterName? hrecase
  have hvalue := @literalOf?_respelled f related stretch _ _ hrecase hquoted hquoted' htrim
  have hterm := fun start start' => @ColumnTerm.read_respelled f stretch clause
    ⟨Text.trim fragment.text, start⟩ ⟨Text.trim fragment'.text, start'⟩ clause hrecase htrim
  unfold read
  dsimp only [Fragment.trim]
  refine Agree.ite (by rw [List.isEmpty_iff, List.isEmpty_iff, htrim.eq_nil_iff]) fun _ => ?_
  refine Agree.ite (htrim.eq_iff hrecase (List.forall_mem_singleton.mpr (by decide))) fun _ => ?_
  generalize Text.parameterName? (Text.trim fragment.text) = name at hname
  generalize Text.parameterName? (Text.trim fragment'.text) = name' at hname
  cases hname with
  | @some name name' hname =>
      refine .ok ?_
      rw [hname, ← Identifier.recase_ofList]
      exact @Operand.Recased.plain f related (.parameter _) (by simp [string])
  | none =>
      dsimp only
      generalize literalOf? (Text.trim fragment.text) = value at hvalue
      generalize literalOf? (Text.trim fragment'.text) = value' at hvalue
      cases hvalue with
      | some hvalue => exact .ok hvalue
      | none =>
          dsimp only
          have hterm := hterm (fragment.start + Text.size (Text.leading fragment.text))
            (fragment'.start + Text.size (Text.leading fragment'.text))
          generalize ColumnTerm.read clause ⟨Text.trim fragment.text, _⟩ = term at hterm
          generalize ColumnTerm.read clause ⟨Text.trim fragment'.text, _⟩ = term' at hterm
          cases hterm with
          | error => exact .error
          | @ok term term' hterm =>
              obtain rfl := hterm
              dsimp only
              rw [ColumnTerm.isWildcard_recase hrecase,
                show (term.recase f).aggregate = term.aggregate from rfl]
              split
              · exact .ok (@Operand.Recased.plain f related (.column _ _) (by simp [string]))
              · exact .error

/-- A literal in quotation marks is read as its content. -/
theorem read_literal {row : List Lexeme} {quote : Quote} {content : Text} (start : Nat)
    (hatomic : Atomic row) (hrow : trimmed row = [Lexeme.literal quote content]) :
    read clause ⟨textOf row, start⟩ = .ok (.string (String.ofList content)) := by
  have htrim : Text.trim (textOf row) = quote.enclose content := by
    rw [hatomic.trim_textOf, hrow, textOf_cons, textOf_nil, List.append_nil, Lexeme.text]
  have hchar : quote.char ≠ ':' ∧ quote.char ≠ '?' := by cases quote <;> decide
  have hvalue : literalOf? (quote.enclose content) = some (.string (String.ofList content)) := by
    rw [literalOf?, Text.isQuotedLiteral_enclose, if_pos rfl, Text.unquote_enclose]
  refine read_of_literal htrim (by simp [Quote.enclose]) ?_ (Text.parameterName?_of_head _ hchar.1)
    hvalue start
  intro heq
  exact hchar.2 (List.cons.inj heq).1

/-- Operands of alike rows are read alike. -/
theorem read_alike (hrecase : Text.KeepsLetters f)
    (halike : fragment.Alike (Lexeme.Respelled f related) stretch fragment') :
    Agree (Operand.Recased f related) (read clause fragment) (read clause fragment') := by
  obtain ⟨text, start⟩ := fragment
  obtain ⟨text', start'⟩ := fragment'
  obtain ⟨row, row', hsound, hsound', rfl, rfl, hrows⟩ := halike
  have htrimmed := hrows.trimmed (respelled_blind hrecase)
  have hunquoted : ∀ {row : List Lexeme}, Sound row →
      (∀ quote content, trimmed row ≠ [Lexeme.literal quote content]) →
        (Text.trim (textOf row)).isQuotedLiteral = false := by
    intro row hsound hno
    by_contra hquoted
    rw [hsound.atomic.trim_textOf] at hquoted
    obtain ⟨quote, content, hrow⟩ :=
      Text.exists_literal_of_isQuotedLiteral hsound.trimmed (Bool.of_not_eq_false hquoted)
    exact hno quote content hrow
  have hfailed : ∀ {row : List Lexeme} {start : Nat}, Sound row → ¬ (textOf row).Quoteless →
      (∀ quote content, trimmed row ≠ [Lexeme.literal quote content]) →
        ∃ failed, read clause ⟨textOf row, start⟩ = .error failed := by
    intro row start hsound hno hplain
    cases hread : read clause ⟨textOf row, start⟩ with
    | error failed => exact ⟨failed, rfl⟩
    | ok operand =>
        rcases cases_of_read hsound hread with ⟨quote, content, hrow, -⟩ | ⟨-, hholds⟩
        · exact absurd hrow (hplain quote content)
        · exact absurd hholds.quoteless hno
  rcases htrimmed.eq_literal_iff with ⟨quote, content, content', hrow, hrow', hrelated⟩ |
    ⟨hplain, hplain'⟩
  · rw [read_literal start hsound.atomic hrow, read_literal start' hsound'.atomic hrow']
    exact .ok (.string (by rwa [String.toList_ofList, String.toList_ofList]))
  · rcases hrows.respelled_or hsound.atomic with hrespelled | ⟨hno, hno'⟩
    · exact read_respelled hrecase (hunquoted hsound hplain) (hunquoted hsound' hplain') hrespelled
    · obtain ⟨failed, hread⟩ := @hfailed row start hsound hno hplain
      obtain ⟨failed', hread'⟩ := @hfailed row' start' hsound' hno' hplain'
      rw [hread, hread']
      exact .error

end Operand

/-! ## All parts -/

/-- The smallest parts of respelled statements are read alike. -/
theorem Likeness.recased_reads (hrecase : Text.KeepsLetters f) :
    (Likeness.recased f related).Reads (Lexeme.Respelled f related) stretch where
  term clause left left' halike := by
    have hquoteless : ∀ {left : Fragment} (term : ColumnTerm),
        Condition.readTerm clause left = .ok term → left.text.Quoteless := by
      intro left term hread
      rw [Condition.readTerm, bind_eq_ok] at hread
      obtain ⟨named, hnamed, -⟩ := hread
      exact (ColumnTerm.holds_of_read hnamed).quoteless
    exact halike.agree hquoteless hquoteless (Condition.readTerm_respelled hrecase)
  operand clause side side' halike := Operand.read_alike hrecase halike
  table clause item item' halike := by
    refine halike.agree (fun _ hread => (TableItem.holds_of_read hread).quoteless)
      (fun _ hread => (TableItem.holds_of_read hread).quoteless) (TableItem.read_respelled hrecase)
  comparison item item' halike := by
    refine halike.agree (fun _ hread => (JoinCondition.holds_of_read hread).quoteless)
      (fun _ hread => (JoinCondition.holds_of_read hread).quoteless)
      (JoinCondition.read_respelled hrecase)
  item item item' halike := by
    refine halike.agree (fun _ hread => (SelectItem.holds_of_read hread).quoteless)
      (fun _ hread => (SelectItem.holds_of_read hread).quoteless) (SelectItem.read_respelled hrecase)
  group item item' halike := by
    refine halike.agree (fun _ hread => (GroupItem.holds_of_read hread).quoteless)
      (fun _ hread => (GroupItem.holds_of_read hread).quoteless) (GroupItem.read_respelled hrecase)
  order item item' halike := by
    refine halike.agree (fun _ hread => (OrderItem.holds_of_read hread).quoteless)
      (fun _ hread => (OrderItem.holds_of_read hread).quoteless) (OrderItem.read_respelled hrecase)

end SelectForm

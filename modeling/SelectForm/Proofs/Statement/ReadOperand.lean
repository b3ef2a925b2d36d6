import Mathlib
import SelectForm.Statement.Operand
import SelectForm.Proofs.Lexis.Spans
import SelectForm.Proofs.Statement.ReadColumn

/-!
# Reading written operands

A parameter, a literal and a column are told apart by the first characters of their
texts and, where these agree, by the reserved words.  Each kind of operand is
therefore read back as itself: no earlier reader takes it.
-/

namespace SelectForm

open Lexeme

namespace Text

theorem spans_enclose (quote : Quote) (content : Text) :
    (quote.enclose content).spans = [⟨.quoted quote, 0, quote.enclose content, true⟩] := by
  have hspans := (solid_literal quote content).clean.lexed.spans_textOf
  have htext : textOf [Lexeme.literal quote content] = quote.enclose content := by
    simp [Lexeme.text]
  rwa [htext] at hspans

theorem isQuotedLiteral_enclose (quote : Quote) (text : Text) :
    isQuotedLiteral (quote.enclose text) = true := by
  rw [isQuotedLiteral, spans_enclose]

theorem isQuotedLiteral_of_isCode {lexemes : List Lexeme} (hsolid : Solid lexemes)
    (hcode : ∀ lexeme ∈ lexemes, lexeme.isCode = true) :
    isQuotedLiteral (textOf lexemes) = false := by
  rw [isQuotedLiteral, hsolid.clean.lexed.spans_textOf]
  split
  next span hspans =>
    obtain ⟨lexeme, hmem, hkind⟩ := @kind_of_mem_spansOf 0 lexemes span (by simp [hspans])
    have hlexeme := hcode lexeme hmem
    rw [isCode, hkind, beq_iff_eq] at hlexeme
    rw [hlexeme]
  next => rfl

/-- A number begins with a sign, a digit or a point. -/
theorem not_isNumber_of_head {c : Char} {rest : Text} (hsign : c ≠ '+' ∧ c ≠ '-')
    (hpoint : c ≠ '.') (hdigit : isDecimal c = false) : isNumber (c :: rest) = false := by
  have hunsigned : afterSign (c :: rest) = c :: rest := by
    rw [afterSign.eq_def]
    split <;> simp_all
  rw [isNumber, hunsigned, List.takeWhile_cons_of_neg (by simp [hdigit]),
    List.dropWhile_cons_of_neg (by simp [hdigit])]
  split <;> simp_all

theorem not_isNumber_of_isNameHead {c : Char} (rest : Text) (hc : isNameHead c = true) :
    isNumber (c :: rest) = false := by
  have hne : ∀ d : Char, isNameHead d = false → c ≠ d := by
    rintro d hd rfl
    rw [hc] at hd
    exact absurd hd (by decide)
  refine not_isNumber_of_head ⟨hne '+' (by decide), hne '-' (by decide)⟩ (hne '.' (by decide)) ?_
  by_contra hdecimal
  have hdecimal : isDecimal c = true := by simpa using hdecimal
  rw [isNameHead, isAlpha_of_isDecimal hdecimal, Bool.false_or, beq_iff_eq] at hc
  rw [hc] at hdecimal
  exact absurd hdecimal (by decide)

theorem parameterName?_of_head {c : Char} (rest : Text) (hc : c ≠ ':') :
    parameterName? (c :: rest) = none := by
  rw [parameterName?.eq_def]
  split
  next heq => exact absurd (List.cons.inj heq).1 hc
  next => rfl

end Text

namespace Operand

/-! ## Literals -/

theorem isCode_consCode (c : Char) {lexemes : List Lexeme}
    (hcode : ∀ lexeme ∈ lexemes, lexeme.isCode = true) :
    ∀ lexeme ∈ consCode c lexemes, lexeme.isCode = true := by
  cases hc : Text.isWordChar c with
  | false =>
      rw [consCode_mark hc]
      exact List.forall_mem_cons.mpr ⟨rfl, hcode⟩
  | true =>
      cases lexemes with
      | nil =>
          rw [consCode_first hc rfl]
          exact List.forall_mem_cons.mpr ⟨rfl, hcode⟩
      | cons lexeme rest =>
          cases lexeme with
          | word text =>
              rw [consCode_word hc]
              exact List.forall_mem_cons.mpr ⟨rfl, (List.forall_mem_cons.mp hcode).2⟩
          | mark _ | literal _ _ | lineComment _ | blockComment _ =>
              rw [consCode_first hc rfl]
              exact List.forall_mem_cons.mpr ⟨rfl, hcode⟩

theorem isCode_ofCode (text : Text) : ∀ lexeme ∈ ofCode text, lexeme.isCode = true := by
  induction text with
  | nil => exact List.forall_mem_nil _
  | cons c rest ih => exact isCode_consCode c ih

theorem isCode_ofName (table : Option String) (column : String) :
    ∀ lexeme ∈ ofName table column, lexeme.isCode = true := by
  cases table <;> rw [ofName] <;> split <;> simp [isCode, kind]

/-- A number is neither a parameter nor a literal in quotation marks. -/
theorem literalOf?_number {number : Text} (hnumber : Text.isNumber number = true) :
    number ≠ ['?'] ∧ Text.parameterName? number = none ∧
      literalOf? number = some (.number (String.ofList number)) := by
  refine ⟨?_, ?_, ?_⟩
  · rintro rfl
    exact absurd hnumber (by decide)
  · rw [Text.parameterName?.eq_def]
    split
    next rest =>
      have hnone := @Text.not_isNumber_of_head ':' rest (by decide) (by decide) (by decide)
      rw [hnone] at hnumber
      exact absurd hnumber (by decide)
    next => rfl
  · have hquoted := Text.isQuotedLiteral_of_isCode (solid_number hnumber) (isCode_ofCode number)
    rw [textOf_ofCode] at hquoted
    rw [literalOf?, hquoted, hnumber]
    rfl

/-- A word of the reader is no name. -/
theorem isWord_of_reserved {table : Option String} {column reserved : String}
    (hcolumn : Identifier.isValid column = true)
    (hreserved : reserved ∈ Identifier.reservedWords) :
    Text.isWord reserved (qualified table column).toList = false := by
  cases table with
  | none =>
      rw [Identifier.isValid, Bool.and_eq_true, Bool.not_eq_true'] at hcolumn
      simpa [Identifier.same, Text.isWord, qualified] using
        List.any_eq_false.mp hcolumn.2 reserved hreserved
  | some table =>
      by_contra hword
      have hword : Text.isWord reserved (qualified (some table) column).toList = true := by
        simpa using hword
      rw [Text.isWord, Text.sameLetters, beq_iff_eq] at hword
      have hpoint : '.'.toLower ∈ reserved.toList.map Char.toLower := by
        rw [hword]
        exact List.mem_map_of_mem (by simp [qualified])
      have hletters : ∀ reserved ∈ Identifier.reservedWords,
          '.'.toLower ∉ reserved.toList.map Char.toLower := by decide
      exact hletters reserved hreserved hpoint

/-- A name is neither a parameter nor a literal. -/
theorem literalOf?_name {table : Option String} {column : String}
    (hspelled : IsSpelledName table column) (hcolumn : Identifier.isValid column = true) :
    (qualified table column).toList ≠ ['?'] ∧
      Text.parameterName? (qualified table column).toList = none ∧
        literalOf? (qualified table column).toList = none := by
  have hquoted := Text.isQuotedLiteral_of_isCode (solid_ofName hspelled)
    (isCode_ofName table column)
  have hword := fun reserved hreserved =>
    @isWord_of_reserved table column reserved hcolumn hreserved
  have htrue := hword "TRUE" (by decide)
  have hfalse := hword "FALSE" (by decide)
  have hnull := hword "NULL" (by decide)
  rw [textOf_ofName] at hquoted
  obtain ⟨c, rest, htext, hc⟩ : ∃ c rest, (qualified table column).toList = c :: rest ∧
      Text.isNameHead c = true := by
    cases table with
    | none => exact Text.exists_isNameHead (Identifier.isName_of_isValid hcolumn)
    | some table =>
        obtain ⟨c, rest, htext, hc⟩ := Text.exists_isNameHead
          (Identifier.isName_of_isValid (hspelled.table table rfl))
        exact ⟨c, rest ++ '.' :: column.toList, by simp [qualified, htext], hc⟩
  have hne : ∀ d : Char, Text.isNameHead d = false → c ≠ d := by
    rintro d hd rfl
    rw [hc] at hd
    exact absurd hd (by decide)
  rw [htext] at hquoted htrue hfalse hnull ⊢
  refine ⟨fun heq => hne '?' (by decide) (List.cons.inj heq).1,
    Text.parameterName?_of_head rest (hne ':' (by decide)), ?_⟩
  rw [literalOf?, hquoted, Text.not_isNumber_of_isNameHead rest hc, htrue, hfalse, hnull]
  rfl

/-! ## Operands -/

section

variable {clause : Clause} {text kept : Text} (htrim : Text.trim text = kept)
  (hne : kept ≠ []) (hmark : kept ≠ ['?'])

include htrim hne hmark

theorem read_of_parameter {name : Text} (hname : Text.parameterName? kept = some name)
    (start : Nat) : read clause ⟨text, start⟩ = .ok (.parameter (String.ofList name)) := by
  have hempty : kept.isEmpty = false := by simpa using hne
  rw [read]
  simp only [Fragment.trim, htrim, hempty, hmark, hname, if_false, Bool.false_eq_true]

theorem read_of_literal {value : Literal} (hname : Text.parameterName? kept = none)
    (hvalue : literalOf? kept = some value) (start : Nat) :
    read clause ⟨text, start⟩ = .ok (.literal value) := by
  have hempty : kept.isEmpty = false := by simpa using hne
  rw [read]
  simp only [Fragment.trim, htrim, hempty, hmark, hname, hvalue, if_false, Bool.false_eq_true]

theorem read_of_column {term : ColumnTerm} (hname : Text.parameterName? kept = none)
    (hvalue : literalOf? kept = none)
    (hterm : ∀ start, ColumnTerm.read clause ⟨kept, start⟩ = .ok term)
    (haggregate : term.aggregate = none) (hwildcard : term.isWildcard = false) (start : Nat) :
    read clause ⟨text, start⟩ = .ok (.column term.table term.column) := by
  have hempty : kept.isEmpty = false := by simpa using hne
  rw [read]
  simp only [Fragment.trim, htrim, hempty, hmark, hname, hvalue, hterm, haggregate, hwildcard,
    if_false, Bool.false_eq_true]
  rfl

end

/-- A string is read back from between either kind of quotation marks. -/
theorem read_quoted {clause : Clause} {value : String} {quote : Quote} {text : Text}
    (htext : Text.trim text = textOf [Lexeme.literal quote value.toList]) (start : Nat) :
    read clause ⟨text, start⟩ = .ok (literal (.string value)) := by
  have hliteral : textOf [Lexeme.literal quote value.toList] = quote.enclose value.toList := by
    simp [Lexeme.text]
  rw [hliteral] at htext
  have hread : literalOf? (quote.enclose value.toList) = some (.string value) := by
    rw [literalOf?, Text.isQuotedLiteral_enclose, Text.unquote_enclose]
    simp
  exact read_of_literal htext (by simp [Quote.enclose]) (by simp [Quote.enclose])
    (Text.parameterName?_of_head _ (by cases quote <;> decide)) hread start

/-- A written operand is read back. -/
theorem read_written {clause : Clause} {operand : Operand} {text : Text}
    (hwritten : operand.IsWritten) (htext : Text.trim text = textOf operand.lexemes)
    (start : Nat) : read clause ⟨text, start⟩ = .ok operand := by
  have hne := (solid_lexemes hwritten).tight.ne_nil
  cases operand with
  | parameter name =>
      have hname : Text.isParameterName name.toList = true := hwritten.spelled
      have hparameter : Text.parameterName? (textOf (parameter name).lexemes) =
          some name.toList := by
        simp [lexemes, Lexeme.text, Text.parameterName?, hname]
      rw [read_of_parameter htext hne (by simp [lexemes, Lexeme.text]) hparameter,
        String.ofList_toList]
  | literal value =>
      cases value with
      | string value => exact read_quoted htext start
      | number number =>
          obtain ⟨hmark, hparameter, hliteral⟩ := literalOf?_number hwritten.spelled
          rw [lexemes, textOf_ofCode] at htext hne
          rw [String.ofList_toList] at hliteral
          exact read_of_literal htext hne hmark hparameter hliteral start
      | boolean value =>
          cases value
          · exact read_of_literal htext hne (by decide) rfl rfl start
          · exact read_of_literal htext hne (by decide) rfl rfl start
      | null => exact read_of_literal htext hne (by decide) rfl rfl start
  | column table column =>
      obtain ⟨htable, hcolumn⟩ := hwritten.name table column rfl
      have hspelled : IsSpelledName table column := ⟨htable, .inl hcolumn⟩
      obtain ⟨hmark, hparameter, hliteral⟩ := literalOf?_name hspelled hcolumn
      have hterm : ({ table, column } : ColumnTerm).IsSpelled .select :=
        ⟨htable, .inl hcolumn, by simp⟩
      have hwildcard : ({ table, column } : ColumnTerm).isWildcard = false := by
        simp [ColumnTerm.isWildcard, column_ne_star hcolumn]
      have hread := fun place => @ColumnTerm.read_written .select clause _ _ hterm
        (solid_ofName hspelled).tight.trim_eq place
      rw [ColumnTerm.canonical_of_not_isBareWildcard
        (by rw [ColumnTerm.isBareWildcard, hwildcard, Bool.false_and])] at hread
      rw [lexemes] at htext hne
      rw [textOf_ofName] at htext hne hread
      exact read_of_column htext hne hmark hparameter hliteral hread rfl hwildcard start

/-- An operand is read back in its spellings. -/
theorem read_spelled {clause : Clause} {operand : Operand} {quote : Quote} {text : Text}
    (hwritten : operand.IsWritten)
    (htext : Text.trim text = textOf (operand.spelledLexemes quote)) (start : Nat) :
    read clause ⟨text, start⟩ = .ok operand := by
  rcases operand.spelledLexemes_cases quote with ⟨value, rfl, hlexemes⟩ | hlexemes
  · exact read_quoted (hlexemes ▸ htext) start
  · exact read_written hwritten (hlexemes ▸ htext) start

end Operand

end SelectForm

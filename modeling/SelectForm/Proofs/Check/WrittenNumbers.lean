import Mathlib
import SelectForm.Proofs.Check.WrittenParameters
import SelectForm.Proofs.Lexis.MaskedText
import SelectForm.Proofs.Sql.ScannedStatement
import SelectForm.Proofs.Text.Bytes

/-!
# Written statements beyond ASCII

Outside string literals, what is written for a query that passed the checks is ASCII: its words
and marks, the names, the parameters and the comments of the layout.  The numbers are the only
exception, since a decimal digit may come from any script.  So the characters beyond ASCII there
are those of the numbers, one by one, and the statement is ASCII there if and only if the numbers
are.
-/

namespace SelectForm

open Lexeme

namespace Text

variable {text : Text} {c : Char} {byte : UInt8}

/-! ## Characters and bytes beyond ASCII -/

/-- The characters of a text beyond ASCII. -/
def wide (text : Text) : Text := text.filter fun c => 0x80 ≤ c.toNat

theorem wide_append (first second : Text) : (first ++ second).wide = first.wide ++ second.wide :=
  List.filter_append first second

theorem wide_eq_nil_iff : text.wide = [] ↔ ∀ c ∈ text, c.toNat < 0x80 := by
  simp [wide, List.filter_eq_nil_iff]

/-- A digit behind LIMIT or OFFSET is an ASCII digit. -/
theorem toNat_lt_of_isClosing (hclosing : isClosing c = true) (hdecimal : isDecimal c = true) :
    c.toNat < 0x80 := by
  rw [isClosing, isBlank_of_isDecimal hdecimal, Char.isAlphanum, isAlpha_of_isDecimal hdecimal,
    Bool.false_or, Bool.false_or, Bool.or_eq_true, beq_iff_eq] at hclosing
  rcases hclosing with hdigit | rfl
  · have hrange := toNat_of_isDigit hdigit
    omega
  · decide

/-! ## Outside string literals -/

/-- What stands in a text outside string literals. -/
def bare (text : Text) : Text := (text.spansOfKind (· != .quoted .single)).flatMap Span.text

theorem mem_bare_iff :
    c ∈ text.bare ↔ ∃ span ∈ text.spans, span.kind ≠ .quoted .single ∧ c ∈ span.text := by
  simp [bare, spansOfKind, and_assoc]

/-- Every byte of a text that is in no string literal is ASCII. -/
def AsciiOutside (text : Text) : Prop :=
  ∀ offset byte, text.byteAt? offset = some byte →
    (¬ ∃ span ∈ text.spans, span.kind = .quoted .single ∧ span.Covers offset) → byte < 0x80

theorem asciiOutside_iff (text : Text) : text.AsciiOutside ↔ text.bare.wide = [] := by
  rw [wide_eq_nil_iff]
  constructor
  · intro hbytes c hc
    obtain ⟨span, hspan, hkind, hc⟩ := mem_bare_iff.mp hc
    obtain ⟨byte, hbyte⟩ := List.exists_mem_of_ne_nil (String.utf8EncodeChar c) (by
      rw [← List.length_pos_iff, String.length_utf8EncodeChar]
      exact c.utf8Size_pos)
    obtain ⟨offset, hcovers, hat⟩ :=
      exists_byteAt? hspan (List.mem_flatMap.mpr ⟨c, hc, hbyte⟩)
    rw [← lt_iff_of_mem_utf8EncodeChar hbyte]
    refine hbytes offset byte hat ?_
    rintro ⟨other, hother, hquoted, hothers⟩
    rw [eq_of_covers hspan hother hcovers hothers] at hkind
    exact hkind hquoted
  · intro hbare offset byte hat houtside
    have hoffset : offset < size text := by
      rw [← length_bytes]
      exact (List.getElem?_eq_some_iff.mp hat).1
    obtain ⟨span, hspan, hcovers⟩ := exists_covers hoffset
    have hkind : span.kind ≠ .quoted .single := fun hquoted =>
      houtside ⟨span, hspan, hquoted, hcovers⟩
    rw [byteAt?_eq hspan hcovers] at hat
    obtain ⟨c, hc, hbyte⟩ := List.mem_flatMap.mp (List.mem_of_getElem? hat)
    exact (lt_iff_of_mem_utf8EncodeChar hbyte).mpr
      (hbare c (mem_bare_iff.mpr ⟨span, hspan, hkind, hc⟩))

end Text

/-! ## The numbers of a row -/

/-- A number among tokens. -/
def Token.number? : Token → Option Text
  | number text => some text
  | _ => none

namespace Lexeme

variable {row : List Lexeme} {tokens : List Token} {text : Text}

/-- The characters beyond ASCII in the code of a row. -/
def wideCode (row : List Lexeme) : Text := (textOf (row.filter isCode)).wide

theorem wideCode_append (first second : List Lexeme) :
    wideCode (first ++ second) = wideCode first ++ wideCode second := by
  rw [wideCode, List.filter_append, textOf_append, Text.wide_append]
  rfl

theorem wideCode_marks (text : Text) : wideCode (marks text) = text.wide := by
  have hcode : (marks text).filter isCode = marks text :=
    List.filter_eq_self.mpr (List.forall_mem_map.mpr fun _ _ => rfl)
  rw [wideCode, hcode, textOf_marks]

theorem wideCode_marks_eq_nil (htext : ∀ c ∈ text, c.toNat < 0x80) : wideCode (marks text) = [] := by
  rw [wideCode_marks, Text.wide_eq_nil_iff]
  exact htext

theorem toNat_lt_of_mem_spaces {count : Nat} : ∀ c ∈ List.replicate count ' ', c.toNat < 0x80 := by
  intro c hc
  rw [List.eq_of_mem_replicate hc]
  decide

/-- The spaces in the place of a comment are ASCII. -/
theorem wideCode_covered (row : List Lexeme) : wideCode (covered row) = wideCode row := by
  induction row with
  | nil => rfl
  | cons lexeme row ih =>
      have hlexeme : wideCode (cover lexeme) = wideCode [lexeme] := by
        cases lexeme with
        | word _ | mark _ | literal _ _ => rfl
        | lineComment _ | blockComment _ => exact wideCode_marks_eq_nil toNat_lt_of_mem_spaces
      rw [covered, List.flatMap_cons, wideCode_append, ← covered, ih, hlexeme, ← wideCode_append]
      rfl

theorem Narrow.covered (hnarrow : Narrow row) : Narrow (covered row) := by
  intro lexeme hmem
  obtain ⟨other, hother, hmem⟩ := List.mem_flatMap.mp hmem
  rw [cover] at hmem
  split at hmem
  · exact narrow_marks_iff.mpr (fun c hc => .inl (toNat_lt_of_mem_spaces c hc)) lexeme hmem
  · rw [List.mem_singleton.mp hmem]
    exact hnarrow other hother

/-- Pieces that are neither code nor string literals may be left out if they are ASCII. -/
theorem wide_filter_kind (hrow : ∀ lexeme ∈ row, lexeme.kind = .code ∨
      lexeme.kind = .quoted .single ∨ ∀ c ∈ lexeme.text, c.toNat < 0x80) :
    (textOf (row.filter fun lexeme => lexeme.kind != .quoted .single)).wide = wideCode row := by
  induction row with
  | nil => rfl
  | cons lexeme row ih =>
      obtain ⟨hlexeme, hrest⟩ := List.forall_mem_cons.mp hrow
      have hsplit : lexeme :: row = [lexeme] ++ row := rfl
      rw [hsplit, List.filter_append, textOf_append, Text.wide_append, ih hrest, wideCode_append]
      congr 1
      rcases hlexeme with hkind | hkind | hascii
      · simp [wideCode, isCode, hkind]
      · simp [wideCode, isCode, hkind]
      · have hnone : ∀ test : Lexeme → Bool, (textOf ([lexeme].filter test)).wide = [] := by
          intro test
          refine Text.wide_eq_nil_iff.mpr fun c hc => ?_
          obtain ⟨other, hother, hc⟩ := List.mem_flatMap.mp hc
          rw [List.mem_singleton.mp (List.mem_filter.mp hother).1] at hc
          exact hascii c hc
        exact (hnone _).trans (hnone _).symm

/-- In a row whose code is ASCII apart from digits, the characters of code beyond ASCII are those
of the numbers among its tokens. -/
theorem Holds.wideCode_eq (hholds : Holds row tokens) (hnarrow : Narrow row) :
    wideCode row = (tokens.filterMap Token.number?).flatMap Text.wide := by
  induction hholds with
  | nil => rfl
  | append _ _ _ hfirst hsecond =>
      obtain ⟨hnarrowFirst, hnarrowSecond⟩ := narrow_append.mp hnarrow
      rw [wideCode_append, List.filterMap_append, List.flatMap_append, hfirst hnarrowFirst,
        hsecond hnarrowSecond]
  | @separator c hc =>
      have hmarks : [',', '(', ')', '.', '*', '<', '>', '=', '!'].all (·.toNat < 0x80) = true := rfl
      refine @wideCode_marks_eq_nil [c] (List.forall_mem_singleton.mpr ?_)
      rcases (@narrow_marks_iff [c]).mp hnarrow c (List.mem_singleton_self c) with hascii | hdecimal
      · exact hascii
      · rw [Text.isSeparator, Text.isBlank_of_isDecimal hdecimal, Bool.false_or,
          List.contains_iff_mem] at hc
        exact of_decide_eq_true (List.all_eq_true.mp hmarks c hc)
  | @keyword word text hword htext =>
      -- A digit that folds to a capital would be a letter.
      refine wideCode_marks_eq_nil fun c hc =>
        (narrow_marks_iff.mp hnarrow c hc).resolve_right fun hdecimal => ?_
      have hupper := isUpper_of_mem_reservedWords hword (Text.foldUpper c)
        (beq_iff_eq.mp htext ▸ List.mem_map_of_mem hc)
      rw [Text.foldUpper_of_isDecimal hdecimal, Char.isUpper_toUpper_eq_isAlpha,
        Text.isAlpha_of_isDecimal hdecimal] at hupper
      exact Bool.false_ne_true hupper
  | name hname =>
      exact wideCode_marks_eq_nil fun c hc =>
        Text.toNat_lt_of_isNameTail ((Text.forall_of_isName hname).2 c hc)
  | @function aggregate text htext =>
      refine wideCode_marks_eq_nil fun c hc => ?_
      have halpha := Text.isAlpha_of_sameLetters aggregate.isAlpha_keyword htext c hc
      have hrange := Text.toNat_of_isAlpha halpha
      omega
  | number _ => exact (wideCode_marks _).trans (List.append_nil _).symm
  | parameter hname =>
      have hchars := (Text.forall_of_isRun (fun _ => id) hname).2
      exact wideCode_marks_eq_nil (List.forall_mem_cons.mpr ⟨by decide, fun c hc =>
        Text.toNat_lt_of_isNameTail (Text.isNameTail_of_isParameterChar (hchars c hc))⟩)
  | literal _ _ => rfl

end Lexeme

/-! ## The numbers of a query -/

namespace Operand

def number? : Operand → Option String
  | literal (.number text) => some text
  | _ => none

theorem filterMap_number? (operand : Operand) :
    operand.tokens.filterMap Token.number? = operand.number?.toList.map String.toList := by
  cases operand with
  | parameter name => rfl
  | literal value => cases value <;> rfl
  | column table name => exact filterMap_column (fun _ => rfl) table name

end Operand

namespace Query

variable {query : Query} {layout : Layout} {text : Text}

/-- The numbers that the conditions of a query write, one by one. -/
def writtenNumbers (query : Query) : List String :=
  query.conditions.flatMap fun condition => condition.writtenOperands.filterMap Operand.number?

theorem filterMap_number? (query : Query) :
    query.tokens.filterMap Token.number? =
      (query.conditions.flatMap fun condition =>
        condition.operands.filterMap Operand.number?).map String.toList := by
  rw [filterMap_tokens fun _ => rfl, List.map_flatMap]
  refine List.flatMap_congr fun condition _ => ?_
  rw [List.filterMap_eq_flatMap_toList, List.map_flatMap]
  exact List.flatMap_congr fun operand _ => operand.filterMap_number?

/-- In a text that is read, and whose code is ASCII apart from digits, the characters of code
beyond ASCII are those of the numbers of the query. -/
theorem wide_code_of_ofText (hread : ofText text = .ok query)
    (hnarrow : ∀ c ∈ text.code, c.toNat < 0x80 ∨ Text.isDecimal c = true) :
    text.code.wide = (query.tokens.filterMap Token.number?).flatMap Text.wide := by
  obtain ⟨row, hfine, rfl⟩ := exists_fine_of_ofText hread
  obtain ⟨front, back, hrow, hholds, -, hback⟩ :=
    exists_front_of_ofText hread hfine.sound_covered hfine.maskComments_textOf
  have hcode : Text.code (textOf row) = textOf (row.filter isCode) := by
    rw [Text.code, Text.spansOfKind, hfine.spans_textOf, code_spansOf]
  have hnarrowRow : Narrow (covered row) := Narrow.covered fun lexeme hmem hlexeme c hc =>
    hnarrow c (hcode ▸ List.mem_flatMap.mpr ⟨lexeme, List.mem_filter.mpr ⟨hmem, hlexeme⟩, hc⟩)
  rw [hrow, narrow_append, narrow_marks_iff] at hnarrowRow
  have hbehind : ∀ c ∈ back, c.toNat < 0x80 := fun c hc =>
    (hnarrowRow.2 c hc).elim id (Text.toNat_lt_of_isClosing (hback c hc))
  have hwide : wideCode row = wideCode front ++ wideCode (marks back) := by
    rw [← wideCode_covered, hrow, wideCode_append]
  rw [hcode, ← wideCode, hwide, hholds.wideCode_eq hnarrowRow.1, wideCode_marks_eq_nil hbehind,
    List.append_nil]

/-- The code of a written statement is beyond ASCII in its numbers only. -/
theorem wide_code_render (hwritten : query.IsWritten) :
    (Text.code (query.render layout).toList).wide =
      query.writtenNumbers.flatMap fun number => Text.wide number.toList := by
  have hread : parse (query.render layout) = .ok query.canonical :=
    parse_render_of_isWritten hwritten
  rw [wide_code_of_ofText hread (narrow_code hwritten), filterMap_number?,
    flatMap_conditions_canonical, ← writtenNumbers, List.flatMap_map]

theorem ascii_of_mem_preamble (hwritten : query.IsWritten) :
    ∀ lexeme ∈ query.preamble layout, lexeme.kind = .code ∨ ∀ c ∈ lexeme.text, c.toNat < 0x80 := by
  have hascii : ∀ c, TableItem.isSummaryChar c = true → c.toNat < 0x80 := by
    intro c hc
    rw [TableItem.isSummaryChar, Bool.and_eq_true, Bool.and_eq_true] at hc
    exact of_decide_eq_true hc.1.1
  refine forall_preamble (fun line hline => .inr ?_) (.inr ?_) fun _ _ => .inl rfl
  · have hchars := forall_summary hwritten line hline
    simp only [Lexeme.text, List.forall_mem_cons]
    exact ⟨by decide, by decide, by decide, fun c hc => hascii c (hchars c hc)⟩
  · have hchars := forall_blockSummary hwritten
    generalize ' ' :: ("; ".intercalate query.summary).toList ++ [' '] = content at hchars
    simp only [Lexeme.text, List.cons_append, List.forall_mem_cons, List.forall_mem_append]
    exact ⟨by decide, by decide, fun c hc => hascii c (hchars c hc), by decide, by decide, by simp⟩

theorem wide_bare_render (hwritten : query.IsWritten) :
    (Text.bare (query.render layout).toList).wide =
      (Text.code (query.render layout).toList).wide := by
  have hlexed := @lexed_preamble query layout hwritten
  rw [← textOf_preamble, hlexed.code_textOf, Text.bare, Text.spansOfKind, hlexed.spans_textOf,
    text_spansOf (· != .quoted .single)]
  refine wide_filter_kind fun lexeme hmem => ?_
  rcases List.mem_append.mp hmem with hmem | hmem
  · exact (ascii_of_mem_preamble hwritten lexeme hmem).imp_right .inr
  · exact (kind_of_mem_lexemes lexeme hmem).imp_right .inl

/-- Outside the string literals of what is written for a query that passed the checks, the
characters beyond ASCII are those of the numbers in its conditions, in order, and they are decimal
digits.  So every byte there is ASCII if and only if these numbers are. -/
theorem asciiOutside_render_iff (layout : Layout) (query : Query)
    (hnone : query.problems = []) :
    (Text.bare (query.render layout).toList).wide =
        (query.writtenNumbers.flatMap fun number => Text.wide number.toList) ∧
      (∀ c ∈ (Text.bare (query.render layout).toList).wide, Text.isDecimal c = true) ∧
      (Text.AsciiOutside (query.render layout).toList ↔
        ∀ number ∈ query.writtenNumbers, ∀ c ∈ number.toList, c.toNat < 0x80) := by
  have hwritten := isWritten_of_problems_eq_nil hnone
  have hbare := @wide_bare_render query layout hwritten
  have hnumbers := hbare.trans (wide_code_render hwritten)
  refine ⟨hnumbers, fun c hc => ?_, ?_⟩
  · rw [hbare, Text.wide, List.mem_filter, decide_eq_true_eq] at hc
    exact (narrow_code hwritten c hc.1).resolve_left (Nat.not_lt.mpr hc.2)
  · rw [Text.asciiOutside_iff, hnumbers, List.flatMap_eq_nil_iff]
    simp only [Text.wide_eq_nil_iff]

/-- A name, a comment and a number in ASCII, and a string literal that is not. -/
theorem asciiOutside_render_literal :
    let query : Query :=
      { columns := [.wildcard]
        tables := [{ tableName := "t" }]
        filters := [{ term := { column := "a" }, value := some (.string "Zo\u00EB") },
          { term := { column := "b" }, operator := .less, value := some (.number "-1.5e3") }] }
    let layout : Layout := { comments := true }
    query.problems = [] ∧ Text.AsciiOutside (query.render layout).toList := by
  intro query layout
  have hnone : query.problems = [] := by decide +kernel
  have hnumbers : query.writtenNumbers = ["-1.5e3"] := by decide +kernel
  have hascii : ∀ c ∈ "-1.5e3".toList, c.toNat < 0x80 := by simp
  refine ⟨hnone, (asciiOutside_render_iff layout query hnone).2.2.mpr ?_⟩
  rw [hnumbers]
  exact List.forall_mem_singleton.mpr hascii

/-- A condition with a number of one Arabic digit. -/
def arabicNumber : Query where
  columns := [.wildcard]
  tables := [{ tableName := "t" }]
  filters := [{ term := { column := "a" }, value := some (.number "\u0663") }]

/-- The digit is written as it is, outside every literal. -/
theorem checks_accept_arabicNumber :
    arabicNumber.problems = [] ∧
      arabicNumber.render .compact = "SELECT * FROM t WHERE a = \u0663" ∧
      ¬ Text.AsciiOutside (arabicNumber.render .compact).toList := by
  refine ⟨by decide +kernel, by decide +kernel, fun hascii => ?_⟩
  have hbyte := hascii 26 0xD9 (by decide +kernel) (by decide +kernel)
  exact absurd hbyte (by decide)

end Query

end SelectForm

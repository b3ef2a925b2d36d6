import Mathlib
import SelectForm.Proofs.Lexis.RelaidText
import SelectForm.Proofs.Statement.HeldStatement
import SelectForm.Proofs.Statement.RespelledRead

/-!
# Statements with another layout

In a statement that is read a hyphen is the sign of a number, so a digit or a point follows
it.  Hence no new layout can run into what is in front of it, and the statement is read as the
same query whatever its layout is.
-/

namespace SelectForm

open Lexeme

namespace Lexeme

variable {row : List Lexeme} {tokens : List Token}

/-- Each hyphen of code has a character of code directly behind it that is no blank. -/
def HasTightHyphens (row : List Lexeme) : Prop :=
  ∀ front back, row = front ++ mark '-' :: back →
    ∃ c behind, back = mark c :: behind ∧ Text.isAsciiBlank c = false

theorem HasTightHyphens.append {first second : List Lexeme} (hfirst : HasTightHyphens first)
    (hsecond : HasTightHyphens second) : HasTightHyphens (first ++ second) := by
  intro front back hrow
  rcases List.append_eq_append_iff.mp hrow with ⟨middle, rfl, hmiddle⟩ | ⟨middle, rfl, hmiddle⟩
  · exact hsecond middle back hmiddle
  · cases middle with
    | nil => exact hsecond [] back hmiddle.symm
    | cons lexeme middle =>
        obtain ⟨rfl, rfl⟩ := List.cons.inj hmiddle
        obtain ⟨c, behind, rfl, hc⟩ := hfirst front middle rfl
        exact ⟨c, behind ++ second, rfl, hc⟩

theorem hasTightHyphens_of_not_mem {text : Text} (hno : '-' ∉ text) : HasTightHyphens (marks text) := by
  intro front back hrow
  have hmem : mark '-' ∈ marks text := by simp [hrow]
  obtain ⟨c, hc, hmark⟩ := List.mem_map.mp hmem
  obtain rfl := mark.inj hmark
  exact absurd hc hno

/-- A number does not end with a sign. -/
theorem hasTightHyphens_of_isNumber {text : Text} (hnumber : Text.isNumber text = true) :
    HasTightHyphens (marks text) := by
  intro front back hrow
  have hblank := Text.isAsciiBlank_of_isNumber hnumber
  obtain ⟨first, rest, rfl, -, hrest⟩ := List.map_eq_append_iff.mp hrow
  obtain ⟨c, behind, rfl, hc, rfl⟩ := List.map_eq_cons_iff.mp hrest
  obtain rfl := mark.inj hc
  cases behind with
  | cons d behind => exact ⟨d, marks behind, rfl, hblank d (by simp)⟩
  | nil =>
      exfalso
      obtain ⟨sign, mantissa, exponent, htext, -, hmantissa, hdigits, hexponent⟩ :=
        Text.exists_of_isNumber hnumber
      have hlast : ∀ {front digits : Text}, digits ≠ [] →
          (∀ c ∈ digits, Text.isDecimal c = true ∨ c = '.') → first ++ ['-'] ≠ front ++ digits := by
        intro front digits hne hall heq
        have hend := congrArg List.getLast? heq
        rw [List.getLast?_concat, List.getLast?_append_of_ne_nil _ hne] at hend
        rcases hall '-' (List.mem_of_getLast? hend.symm) with hdecimal | hdot
        · exact absurd hdecimal (by decide)
        · exact absurd hdot (by decide)
      rcases Text.exists_of_isExponent hexponent with rfl | ⟨e, sign', digits, rfl, -, -, hne, hall⟩
      · rw [List.append_nil] at htext
        exact hlast hmantissa hdigits htext
      · refine @hlast (sign ++ (mantissa ++ e :: sign')) digits hne (fun c hc => .inl (hall c hc)) ?_
        simpa using htext

theorem not_mem_of_test {test : Char → Bool} {text : Text} (htest : ∀ c ∈ text, test c = true)
    (hno : test '-' = false) : '-' ∉ text := by
  intro hmem
  rw [htest '-' hmem] at hno
  exact absurd hno (by decide)

theorem Holds.hasTightHyphens (hholds : Holds row tokens) : HasTightHyphens row := by
  induction hholds with
  | nil => exact hasTightHyphens_of_not_mem List.not_mem_nil
  | append _ _ _ hfirst hsecond => exact hfirst.append hsecond
  | @separator c hc =>
      exact @hasTightHyphens_of_not_mem [c]
        (not_mem_of_test (List.forall_mem_singleton.mpr hc) (by decide))
  | keyword hword htext =>
      exact hasTightHyphens_of_not_mem
        (not_mem_of_test (isFoldedTail_of_foldsTo hword htext) (by decide))
  | name hname =>
      exact hasTightHyphens_of_not_mem (not_mem_of_test (Text.forall_of_isName hname).2 (by decide))
  | @function aggregate text htext =>
      exact hasTightHyphens_of_not_mem
        (not_mem_of_test (Text.isAlpha_of_sameLetters aggregate.isAlpha_keyword htext) (by decide))
  | number hnumber => exact hasTightHyphens_of_isNumber hnumber
  | @parameter name hname =>
      have hletters := (Text.forall_of_isRun (fun _ => id) hname).2
      apply hasTightHyphens_of_not_mem
      rw [List.mem_cons, not_or]
      exact ⟨by decide, not_mem_of_test hletters (by decide)⟩
  | literal quote content =>
      intro front back hrow
      have hmem : mark '-' ∈ [Lexeme.literal quote content] := by simp [hrow]
      exact absurd (List.mem_singleton.mp hmem) (by simp)

/-- In front of layout stands no hyphen if none stands in front of masked layout. -/
theorem Fine.guarded (hfine : Fine none row) (htight : HasTightHyphens (covered row)) :
    Guarded row := by
  rintro front back rfl
  obtain ⟨c, behind, hback, hc⟩ := htight (covered front) (covered back)
    (by simp [covered, cover, kind, SpanKind.isComment])
  cases back with
  | nil => rfl
  | cons lexeme back =>
      by_contra hlayout
      have hlayout : lexeme.isLayout = true := Bool.of_not_eq_false hlayout
      have hlexeme := hfine.isFine lexeme (by simp)
      obtain ⟨gap, hgap, hblank, hne⟩ := @exists_covered_layout [lexeme]
        (List.forall_mem_singleton.mpr hlexeme) (List.forall_mem_singleton.mpr hlayout)
      obtain ⟨d, gap, rfl⟩ := List.exists_cons_of_ne_nil (hne (List.cons_ne_nil _ _))
      have hsplit : covered (lexeme :: back) = covered [lexeme] ++ covered back := by
        simp [covered]
      rw [hsplit, hgap] at hback
      obtain rfl := mark.inj (List.cons.inj hback).1
      rw [hblank d List.mem_cons_self] at hc
      exact absurd hc (by decide)

end Lexeme

namespace Query

theorem hasTightHyphens_of_ofText {text : Text} {query : Query} {row : List Lexeme}
    (hread : ofText text = .ok query) (hsound : Sound row) (htext : text.maskComments = textOf row) :
    HasTightHyphens row := by
  obtain ⟨front, back, rfl, hholds, -, hclosing⟩ := exists_front_of_ofText hread hsound htext
  exact hholds.hasTightHyphens.append
    (hasTightHyphens_of_not_mem (not_mem_of_test hclosing (by decide)))

/-- A statement is read as the same query whatever its layout is. -/
theorem parse_relaid {sql sql' : String} {query : Query} (hparse : parse sql = .ok query)
    (hrelaid : Text.Relaid sql.toList sql'.toList) : parse sql' = .ok query := by
  have hread : ofText sql.toList = .ok query := hparse
  have hclosed : Text.endsOpen sql.toList = false := by
    rw [ofText, bind_eq_ok] at hread
    obtain ⟨_, hunclosed, -⟩ := hread
    exact Statement.rejectUnclosed_eq_ok_iff.mp hunclosed
  obtain ⟨row, hfine, htext⟩ := exists_fine hclosed
  rw [Text.Relaid, ← htext, hfine.cells_textOf] at hrelaid
  have hmask : Text.maskComments sql.toList = textOf (covered row) := by
    rw [← htext, hfine.maskComments_textOf]
  have htight := hasTightHyphens_of_ofText hread hfine.sound_covered hmask
  obtain ⟨row', hfine', htext', halike⟩ := exists_relaid hfine (hfine.guarded htight) hrelaid
  have hclosed' : Text.endsOpen sql'.toList = false := by
    rw [← htext']
    exact hfine'.endsOpen_textOf
  have hkeep : Text.KeepsLetters id := fun _ => rfl
  have hagree := ofText_alike (respelled_blind hkeep) (Likeness.recased_reads hkeep) hclosed
    hclosed' ⟨_, _, hfine.sound_covered, hfine'.sound_covered, hmask.symm,
      by rw [← htext', hfine'.maskComments_textOf], halike⟩
  rw [hread] at hagree
  obtain ⟨query', hread', hquery⟩ := hagree.exists_ok
  rw [hquery.eq_recase, recase_id] at hread'
  exact hread'

/-- Comments in the place of blanks, with a quotation mark and a semicolon in them. -/
theorem parse_relaid_comments :
    parse "SELECT a FROM t" =
        .ok { columns := [{ term := { column := "a" } }], tables := [{ tableName := "t" }] } ∧
      parse "SELECT--'\na /*;*/FROM\tt" =
        .ok { columns := [{ term := { column := "a" } }], tables := [{ tableName := "t" }] } := by
  have hparse : parse "SELECT a FROM t" =
      .ok { columns := [{ term := { column := "a" } }], tables := [{ tableName := "t" }] } := by
    decide +kernel
  have hrelaid : Text.Relaid "SELECT a FROM t".toList "SELECT--'\na /*;*/FROM\tt".toList := by
    refine .keep rfl (.keep rfl (.keep rfl (.keep rfl (.keep rfl (.keep rfl ?_)))))
    refine @Relaid.replace [_] _ "--'\n".toList _ (by simp) (by simp; rfl) rfl (by decide) ?_ ?_
    · exact @Text.IsLayout.lineComment ['\''] [] (by decide) .nil
    refine .keep rfl ?_
    refine @Relaid.replace [_] _ " /*;*/".toList _ (by simp) (by simp; rfl) rfl (by decide) ?_ ?_
    · exact .blank rfl (@Text.IsLayout.blockComment [';'] [] (by decide) .nil)
    refine .keep rfl (.keep rfl (.keep rfl (.keep rfl ?_)))
    refine @Relaid.replace [_] _ "\t".toList _ (by simp) (by simp; rfl) rfl (by decide) ?_ ?_
    · exact .blank rfl .nil
    exact .keep rfl .nil
  exact ⟨hparse, parse_relaid hparse hrelaid⟩

/-- A comment that ends in front of the sign of a number. -/
example : parse "SELECT a FROM t WHERE b =--\n-1" = parse "SELECT a FROM t WHERE b = -1" := by
  decide +kernel

end Query

end SelectForm

import Mathlib
import SelectForm.Proofs.Lexis.RefilledText
import SelectForm.Proofs.Statement.AlikeStatement
import SelectForm.Proofs.Statement.HeldStatement
import SelectForm.Proofs.Statement.RespelledRead

/-!
# Statements with other contents in their literals

What stands in a literal is never looked at.  So a statement with other contents in its
literals is read if and only if the statement is, and the two queries differ in these
contents only: each literal of the text is one operand of a condition, in order.
-/

namespace SelectForm

open Lexeme

namespace Query

/-- The literals of a row that is read as a query are the literals of the query. -/
theorem filterMap_content?_of_ofText {text : Text} {query : Query} {row : List Lexeme}
    (hread : ofText text = .ok query) (hfine : Fine none row) (htext : text = textOf row) :
    row.filterMap content? = query.strings.map String.toList := by
  obtain ⟨front, back, hrow, hholds, -, -⟩ :=
    exists_front_of_ofText hread hfine.sound_covered (by rw [htext, hfine.maskComments_textOf])
  rw [← filterMap_content?_covered, hrow, List.filterMap_append, filterMap_content?_marks,
    List.append_nil, hholds.filterMap_content?, filterMap_string?]

/-- A statement whose literals are closed and the statement with other contents in its literals
are both refused, or both are read and the queries differ only in these contents. -/
theorem parse_refilled {sql : String} {contents : List String}
    (hterminated : ∀ span ∈ Span.literals (Text.spans sql.toList), span.terminated = true)
    (hlength : contents.length = (Span.literals (Text.spans sql.toList)).length) :
    (parse sql).isOk = (parse (String.ofList (Text.refill contents sql.toList))).isOk ∧
      ∀ query query', parse sql = .ok query →
        parse (String.ofList (Text.refill contents sql.toList)) = .ok query' →
          query'.blanked = query.blanked ∧ query'.strings = contents := by
  obtain ⟨row, tail, hfine, htext, htail⟩ := exists_fine_append sql.toList
  rw [parse, parse, String.toList_ofList]
  generalize sql.toList = text at htext hterminated hlength ⊢
  subst htext
  rcases htail with rfl | ⟨kind, hopen⟩
  · rw [List.append_nil] at hterminated hlength ⊢
    rw [hfine.spans_textOf, length_literals] at hlength
    have hrefilled := hfine.refill contents
    have htext : Text.refill contents (textOf row) = textOf (Lexeme.refill row contents) := by
      have hspans := @refill_spansOf contents 0 row [] fun _ => rfl
      rwa [List.append_nil, ← hfine.spans_textOf, List.flatMap_nil, List.append_nil] at hspans
    have hkeep : Text.KeepsLetters id := fun _ => rfl
    have hagree := ofText_alike (respelled_blind hkeep) (Likeness.recased_reads hkeep)
      hfine.endsOpen_textOf hrefilled.endsOpen_textOf
      ⟨_, _, hfine.sound_covered, hrefilled.sound_covered, hfine.maskComments_textOf.symm,
        hrefilled.maskComments_textOf.symm, hfine.covered_refill_alike contents⟩
    rw [htext]
    constructor
    · generalize ofText (textOf row) = read at hagree
      generalize ofText (textOf (Lexeme.refill row contents)) = read' at hagree
      cases hagree <;> rfl
    · intro query query' hread hread'
      rw [hread, hread'] at hagree
      cases hagree with
      | ok hlike =>
          refine ⟨hlike.blanked_eq, ?_⟩
          have hstrings := filterMap_content?_of_ofText hread' hrefilled rfl
          rw [filterMap_content?_refill hlength] at hstrings
          exact (List.map_inj_right fun _ _ => String.toList_inj.mp).mp hstrings.symm
  · -- A comment is left open behind the row, whatever the contents in front of it are.
    have hspans := hopen.spans_append hfine
    have hquote : kind.quote? = none := by
      cases hquote : kind.quote? with
      | none => rfl
      | some quote =>
          have hlast := hterminated ⟨kind, Text.size (textOf row), tail, false⟩
            (by simp [Span.literals, hspans, hquote])
          exact absurd hlast Bool.false_ne_true
    have htext : Text.refill contents (textOf row ++ tail) =
        textOf (Lexeme.refill row contents) ++ tail := by
      rw [Text.refill, hspans, refill_spansOf]
      · simp
      · intro contents
        simp [Span.refill, hquote]
    obtain ⟨failed, hread⟩ := exists_error_of_endsOpen (hopen.cells_append hfine).2
    obtain ⟨failed', hread'⟩ :=
      exists_error_of_endsOpen (hopen.cells_append (hfine.refill contents)).2
    rw [htext, hread, hread']
    exact ⟨rfl, fun query query' hquery => by simp at hquery⟩

/-- A literal that holds a keyword, a semicolon and a quotation mark in the place of another. -/
theorem parse_refilled_keyword :
    parse "SELECT a FROM t WHERE b = 'x' /* 'y' */ OR c IN (\"z\")" = .ok
        { columns := [{ term := { column := "a" } }]
          tables := [{ tableName := "t" }]
          filters :=
            [{ term := { column := "b" }, value := some (.string "x") },
              { term := { column := "c" }, operator := .inList, values := [.string "z"],
                connector := .or }] } ∧
      ∃ query, parse "SELECT a FROM t WHERE b = '; GROUP BY ''' /* 'y' */ OR c IN (\")\")" = .ok query ∧
        query.strings = ["; GROUP BY '", ")"] := by
  have hparse : parse "SELECT a FROM t WHERE b = 'x' /* 'y' */ OR c IN (\"z\")" = .ok
      { columns := [{ term := { column := "a" } }]
        tables := [{ tableName := "t" }]
        filters :=
          [{ term := { column := "b" }, value := some (.string "x") },
            { term := { column := "c" }, operator := .inList, values := [.string "z"],
              connector := .or }] } := by decide +kernel
  have htext : String.ofList (Text.refill ["; GROUP BY '", ")"]
      "SELECT a FROM t WHERE b = 'x' /* 'y' */ OR c IN (\"z\")".toList) =
        "SELECT a FROM t WHERE b = '; GROUP BY ''' /* 'y' */ OR c IN (\")\")" := by decide +kernel
  obtain ⟨hok, hquery⟩ := @parse_refilled
    "SELECT a FROM t WHERE b = 'x' /* 'y' */ OR c IN (\"z\")" ["; GROUP BY '", ")"]
    (by decide +kernel) (by decide +kernel)
  rw [htext] at hok hquery
  refine ⟨hparse, ?_⟩
  rw [hparse] at hok
  cases hparse' : parse "SELECT a FROM t WHERE b = '; GROUP BY ''' /* 'y' */ OR c IN (\")\")" with
  | error failed => simp [hparse', Except.isOk, Except.toBool] at hok
  | ok query => exact ⟨query, rfl, (hquery _ _ hparse hparse').2⟩

end Query

end SelectForm

import Mathlib
import SelectForm.Proofs.Statement.RoundTrip

/-!
# Reading spelled statements

A query has many texts besides the one that is written of it: words may be left out or
added, inequality has two signs, strings have two kinds of quotation marks, comparisons of
joins may stand in parentheses, LIMIT and OFFSET come in both orders, and a semicolon may
end the text.  However these choices are made, the text is read as the same query.
-/

namespace SelectForm

open Lexeme

namespace Lexeme

theorem Uncommented.maskComments_textOf {lexemes : List Lexeme}
    (huncommented : Uncommented lexemes) (hlexed : Lexed none lexemes) :
    Text.maskComments (textOf lexemes) = textOf lexemes := by
  rw [hlexed.maskComments_textOf]
  refine List.flatMap_congr fun lexeme hmem => ?_
  rw [masked, huncommented lexeme hmem]
  rfl

end Lexeme

namespace StatementParts

variable {parts : StatementParts} {query : Query} {layout : Layout}

/-- A statement is read with a semicolon behind it or without one. -/
theorem ofText_lexemes (hreads : parts.Reads query) (semicolon : Bool) :
    Query.ofText (textOf (parts.lexemes layout) ++ if semicolon then [';'] else []) =
      .ok query.canonical := by
  have hsolid := @solid_lexemes layout parts hreads.sound
  have hquiet := @quiet_lexemes parts layout [[';']] hreads.sound (by decide) (by decide)
  cases semicolon with
  | false =>
      have hlexed := hsolid.clean.lexed
      have hmask := hsolid.uncommented.maskComments_textOf hlexed
      have hread := @ofText_of_reads parts query layout [] (textOf (parts.lexemes layout)) hreads
        (List.forall_mem_nil _) (Statement.rejectUnclosed_of_lexed hlexed)
        (by rw [hmask]; exact Statement.single_of_quiet hlexed hquiet)
      simpa using hread
  | true =>
      have hclean := hsolid.clean.append_mark (by decide : isDelimiter ';' = true)
        (clean_mark (by decide) clean_nil)
      have hlexed := hclean.lexed
      have huncommented : Uncommented (parts.lexemes layout ++ [mark ';']) :=
        uncommented_append.mpr ⟨hsolid.uncommented, uncommented_marks [';']⟩
      have hmask := huncommented.maskComments_textOf hlexed
      have htext : textOf (parts.lexemes layout) ++ [';'] =
          textOf (parts.lexemes layout ++ [mark ';']) := by simp [Lexeme.text]
      have hread := @ofText_of_reads parts query layout []
        (textOf (parts.lexemes layout ++ [mark ';'])) hreads (List.forall_mem_nil _)
        (Statement.rejectUnclosed_of_lexed hlexed)
        (by rw [hmask]; exact Statement.single_of_semicolon hlexed hquiet)
      rw [if_pos rfl, htext]
      exact hread

end StatementParts

namespace Query

/-- The compact text of a query is one of its spellings. -/
theorem spell_plain (query : Query) : query.spell query.plain = query.render .compact := by
  have htext := query.textOf_preamble .compact
  have hnone : query.preamble .compact = [] := rfl
  rw [hnone, List.nil_append] at htext
  rw [spell, lexemes_spelledParts_plain, htext]
  simp [plain]

/-- A query that passed the checks is read back from each of its spellings, and what is read
is what its compact text is read as. -/
theorem parse_spell (spelling : Spelling) (query : Query) (hnone : query.problems = []) :
    parse (query.spell spelling) = .ok query.canonical ∧
      parse (query.render .compact) = .ok query.canonical := by
  have hwritten := isWritten_of_problems_eq_nil hnone
  refine ⟨?_, parse_render_of_isWritten hwritten⟩
  rw [parse, spell, String.toList_ofList]
  exact StatementParts.ofText_lexemes (reads_spelledParts hwritten spelling) spelling.semicolon

/-- A query and the text that takes every choice the other way. -/
theorem parse_spell_reversed :
    let query : Query :=
      { columns := [{ term := { table := some "u", column := "id" }, aliasName := some "user_id" },
          { term := { column := "id", aggregate := some .count, distinct := true }
            aliasName := some "n" }]
        tables := [{ tableName := "users", aliasName := some "u" }]
        joins := [
          { kind := .inner
            table := { tableName := "orders", aliasName := some "o" }
            conditions := [
              { leftTable := "u", leftColumn := "id", operator := .notEqual
                rightTable := "o", rightColumn := "user_id" }] },
          { kind := .left
            table := { tableName := "notes" }
            conditions := [
              { leftTable := "u", leftColumn := "id", operator := .equal
                rightTable := "notes", rightColumn := "user_id" }] }]
        filters := [
          { term := { table := some "u", column := "name" }
            operator := .notEqual
            value := some (.literal (.string "a \"b\" 'c'")) }]
        groups := [{ table := some "u", column := "id" }]
        orders := [{ term := { table := some "u", column := "id" }, direction := .ascending }]
        limit := some 10
        offset := some 20 }
    let spelling : Spelling :=
      { columns := fun _ => false
        tables := fun _ => true
        joins := fun place =>
          { long := place == 1
            asWord := true
            conditions := fun _ => { bang := true, parentheses := 2 } }
        filters := fun _ => { bang := true, value := .double }
        groupFilters := fun _ => {}
        orders := fun _ => true
        offsetFirst := true
        semicolon := true }
    query.problems = [] ∧
      query.spell spelling =
        "SELECT u.id user_id, COUNT(DISTINCT id) n FROM users AS u " ++
          "JOIN orders AS o ON ((u.id != o.user_id)) " ++
          "LEFT OUTER JOIN notes ON ((u.id = notes.user_id)) " ++
          "WHERE u.name != \"a \"\"b\"\" 'c'\" GROUP BY u.id ORDER BY u.id ASC " ++
          "OFFSET 20 LIMIT 10;" ∧
      parse (query.spell spelling) = .ok query.canonical :=
  ⟨by decide +kernel, by decide +kernel, (parse_spell _ _ (by decide +kernel)).1⟩

end Query

end SelectForm

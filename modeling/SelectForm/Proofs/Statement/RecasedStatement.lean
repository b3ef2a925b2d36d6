import Mathlib
import SelectForm.Proofs.Lexis.RecasedText
import SelectForm.Proofs.Statement.AlikeStatement
import SelectForm.Proofs.Statement.RespelledRead

/-!
# Statements in another case

Keywords are found in any case, and names are kept as they are written.  So a statement whose
code is recased is read as the recased query, and a text that is refused stays refused.
-/

namespace SelectForm

open Lexeme

namespace Query

/-- A text and the text with its code recased are both refused, or the second is read as the
recased query. -/
theorem ofText_recaseCode {f : Char → Char} (hrecase : Text.KeepsLetters f) (text : Text) :
    Agree (fun query query' => query' = query.recase f) (ofText text) (ofText (text.recaseCode f)) := by
  have hopen := Text.endsOpen_recaseCode hrecase text
  cases hclosed : text.endsOpen with
  | true =>
      obtain ⟨failed, hread⟩ := exists_error_of_endsOpen hclosed
      obtain ⟨failed', hread'⟩ := exists_error_of_endsOpen (hopen.trans hclosed)
      rw [hread, hread']
      exact .error
  | false =>
      obtain ⟨row, hfine, rfl⟩ := exists_fine hclosed
      have hrecased := hfine.recase hrecase
      have htext : (textOf row).recaseCode f = textOf (row.map (Lexeme.recase f)) :=
        hfine.recaseCode_textOf
      have halike : Text.Alike (Lexeme.Respelled f Eq) False (textOf row).maskComments
          ((textOf row).recaseCode f).maskComments := by
        rw [htext, hfine.maskComments_textOf, hrecased.maskComments_textOf]
        exact ⟨_, _, hfine.sound_covered, hrecased.sound_covered, rfl, rfl,
          hfine.covered_recase_alike hrecase⟩
      exact (ofText_alike (respelled_blind hrecase) (Likeness.recased_reads hrecase) hclosed
        (hopen.trans hclosed) halike).imp fun _ _ => Like.eq_recase

/-- A statement with the ASCII letters of its code in capitals is read as the query with its
names in capitals, and if the statement is refused it is refused in capitals, too. -/
theorem parse_capitals (sql : String) :
    (∀ query, parse sql = .ok query →
      parse (String.ofList (Text.recaseCode Char.toUpper sql.toList)) = .ok (query.recase Char.toUpper)) ∧
    ∀ failed, parse sql = .error failed →
      ∃ failed', parse (String.ofList (Text.recaseCode Char.toUpper sql.toList)) = .error failed' := by
  have hupper : Text.KeepsLetters Char.toUpper := fun c => by simp
  have hagree := ofText_recaseCode hupper sql.toList
  rw [parse, parse, String.toList_ofList]
  generalize ofText sql.toList = read at hagree ⊢
  generalize ofText (Text.recaseCode Char.toUpper sql.toList) = read' at hagree ⊢
  cases hagree with
  | ok hquery =>
      refine ⟨fun query hread => ?_, fun failed hread => by simp at hread⟩
      rw [hquery, Except.ok.inj hread]
  | error => exact ⟨fun query hread => by simp at hread, fun failed _ => ⟨_, rfl⟩⟩

/-- Keywords and names in any case, and small letters in a literal and a comment. -/
theorem parse_capitals_mixedCase :
    parse "Select Name From Users u /* All */ WHERE k = 'kept' Or u.a < 1e5" = .ok
        { columns := [{ term := { column := "Name" } }]
          tables := [{ tableName := "Users", aliasName := some "u" }]
          filters :=
            [{ term := { column := "k" }, value := some (.string "kept") },
              { term := { table := some "u", column := "a" }, operator := .less,
                value := some (.number "1e5"), connector := .or }] } ∧
      parse "SELECT NAME FROM USERS U /* All */ WHERE K = 'kept' OR U.A < 1E5" = .ok
        { columns := [{ term := { column := "NAME" } }]
          tables := [{ tableName := "USERS", aliasName := some "U" }]
          filters :=
            [{ term := { column := "K" }, value := some (.string "kept") },
              { term := { table := some "U", column := "A" }, operator := .less,
                value := some (.number "1E5"), connector := .or }] } := by
  have hparse : parse "Select Name From Users u /* All */ WHERE k = 'kept' Or u.a < 1e5" = .ok
      { columns := [{ term := { column := "Name" } }]
        tables := [{ tableName := "Users", aliasName := some "u" }]
        filters :=
          [{ term := { column := "k" }, value := some (.string "kept") },
            { term := { table := some "u", column := "a" }, operator := .less,
              value := some (.number "1e5"), connector := .or }] } := by decide +kernel
  have htext : String.ofList (Text.recaseCode Char.toUpper
      "Select Name From Users u /* All */ WHERE k = 'kept' Or u.a < 1e5".toList) =
        "SELECT NAME FROM USERS U /* All */ WHERE K = 'kept' OR U.A < 1E5" := by decide +kernel
  have hcapitals := (parse_capitals _).1 _ hparse
  rw [htext] at hcapitals
  exact ⟨hparse, hcapitals⟩

end Query

end SelectForm

import Mathlib
import SelectForm.Proofs.Lexis.RowSpans
import SelectForm.Proofs.Statement.HeldItem
import SelectForm.Proofs.Statement.HeldFragment
import SelectForm.Proofs.Statement.ReadOperand

/-!
# What an operand holds

An operand is either one literal in quotation marks, or written without any.  The first
holds the content of the literal, the second the name or number that is read.  A literal and its
content determine one another, so a string that is written comes back from reading.
-/

namespace SelectForm

open Lexeme

variable {row : List Lexeme}

/-- A row whose text is a literal is that literal. -/
theorem Text.exists_literal_of_isQuotedLiteral (hsound : Sound row)
    (hquoted : isQuotedLiteral (textOf row) = true) :
    ∃ quote content, row = [literal quote content] := by
  have hne : ∀ lexeme ∈ row, lexeme.text ≠ [] := fun lexeme hmem =>
    (hsound.atomic lexeme hmem).text_ne_nil
  unfold isQuotedLiteral at hquoted
  rw [hsound.fine.spans_textOf] at hquoted
  split at hquoted
  · rename_i span hspans
    split at hquoted
    · rename_i quote hkind
      obtain ⟨lexeme, rfl, hlexeme⟩ := eq_singleton_of_spansOf hne hspans (by simp [hkind])
      rw [hkind] at hlexeme
      cases lexeme with
      | literal quote content => exact ⟨quote, content, rfl⟩
      | word _ | mark _ | lineComment _ | blockComment _ => simp [kind] at hlexeme
    · exact absurd hquoted (by simp)
  · exact absurd hquoted (by simp)

namespace Operand

/-- Whether an operand is a literal in quotation marks. -/
def isString : Operand → Bool
  | .literal (.string _) => true
  | _ => false

theorem holds_of_parameterName? {text name : Text} (hname : Text.parameterName? text = some name) :
    Text.Holds text [.parameter name] := by
  unfold Text.parameterName? at hname
  split at hname
  · rename_i first
    split at hname
    · rename_i hvalid
      obtain rfl := Option.some.inj hname
      have hletters := (Text.forall_of_isRun (fun _ => id) hvalid).2
      refine ⟨List.forall_mem_cons.mpr ⟨rfl, fun c hc => ?_⟩, .parameter hvalid⟩
      exact ofChar?_of_isNameTail (Text.isNameTail_of_isParameterChar (hletters c hc))
    · exact absurd hname (by simp)
  · exact absurd hname (by simp)

/-- A literal is in quotation marks, or its text has none. -/
theorem holds_of_literalOf? {text : Text} {value : Literal} (hvalue : literalOf? text = some value)
    (hquoted : text.isQuotedLiteral = false) :
    (Operand.literal value).isString = false ∧ text.Holds (Operand.literal value).tokens := by
  unfold literalOf? at hvalue
  rw [hquoted, if_neg Bool.false_ne_true] at hvalue
  split at hvalue
  · rename_i hnumber
    obtain rfl := Option.some.inj hvalue
    refine ⟨rfl, ?_⟩
    rw [tokens, String.toList_ofList]
    exact .of_isNumber hnumber
  · split at hvalue
    · rename_i hword
      obtain rfl := Option.some.inj hvalue
      exact ⟨rfl, .reserved (by decide) hword⟩
    · split at hvalue
      · rename_i hword
        obtain rfl := Option.some.inj hvalue
        exact ⟨rfl, .reserved (by decide) hword⟩
      · split at hvalue
        · rename_i hword
          obtain rfl := Option.some.inj hvalue
          exact ⟨rfl, .reserved (by decide) hword⟩
        · exact absurd hvalue (by simp)

/-- An operand is one literal in quotation marks, or its text has none. -/
theorem cases_of_read {clause : Clause} {start : Nat} {operand : Operand} (hsound : Sound row)
    (hread : read clause ⟨textOf row, start⟩ = .ok operand) :
    (∃ quote content, trimmed row = [Lexeme.literal quote content] ∧
        operand = .literal (.string (String.ofList content))) ∨
      operand.isString = false ∧ (textOf row).Holds operand.tokens := by
  have htrim := hsound.atomic.trim_textOf
  unfold read at hread
  dsimp only [Fragment.trim] at hread
  split at hread
  · exact absurd hread (by simp)
  · split at hread
    · exact absurd hread (by simp)
    · split at hread
      · rename_i name hname
        obtain rfl := Except.ok.inj hread
        refine .inr ⟨rfl, .of_trim ?_⟩
        rw [tokens, String.toList_ofList]
        exact holds_of_parameterName? hname
      · split at hread
        · rename_i value hvalue
          obtain rfl := Except.ok.inj hread
          by_cases hquoted : (Text.trim (textOf row)).isQuotedLiteral = true
          · left
            unfold literalOf? at hvalue
            rw [if_pos hquoted] at hvalue
            rw [htrim] at hquoted hvalue
            obtain ⟨quote, content, hrow⟩ :=
              Text.exists_literal_of_isQuotedLiteral hsound.trimmed hquoted
            refine ⟨quote, content, hrow, ?_⟩
            rw [← Option.some.inj hvalue, hrow, textOf_cons, textOf_nil, List.append_nil, Lexeme.text,
              Text.unquote_enclose]
          · right
            obtain ⟨hstring, hholds⟩ := holds_of_literalOf? hvalue (by simpa using hquoted)
            exact ⟨hstring, hholds.of_trim⟩
        · split at hread
          · rename_i term hterm
            split at hread
            · rename_i hplain
              obtain rfl := Except.ok.inj hread
              rw [Bool.and_eq_true, Option.isNone_iff_eq_none] at hplain
              have hholds := ColumnTerm.holds_of_read hterm
              rw [ColumnTerm.tokens, hplain.1] at hholds
              exact .inr ⟨rfl, hholds.of_trim⟩
            · exact absurd hread (by simp)
          · exact absurd hread (by simp)

theorem holds_of_read {clause : Clause} {fragment : Fragment} {operand : Operand}
    (hread : read clause fragment = .ok operand) : fragment.Holds operand.tokens := by
  obtain ⟨text, start⟩ := fragment
  rintro row hsound rfl
  rcases cases_of_read hsound hread with ⟨quote, content, hrow, rfl⟩ | ⟨-, hholds⟩
  · apply Lexeme.Holds.of_trimmed
    rw [hrow, tokens, String.toList_ofList]
    exact .literal quote content
  · exact hholds.of_row hsound.atomic

/-! ## Writing a string and reading it -/

/-- Putting a text between quotation marks and taking it out of them are inverse: the result is one
closed literal with the text as its content, every closed literal is its content between quotation
marks, and a string that is written is read back in every clause and at every place. -/
theorem quoted_inverse :
    (∀ (quote : Quote) (content : Text),
      (quote.enclose content).spans = [⟨.quoted quote, 0, quote.enclose content, true⟩] ∧
        (quote.enclose content).unquote = content) ∧
      (∀ (text : Text) (span : Span) (quote : Quote), text.spans = [span] →
        span.kind = .quoted quote → span.terminated = true →
          quote.enclose text.unquote = text) ∧
      ∀ (value : String) (clause : Clause) (start : Nat),
        read clause ⟨(literal (.string value)).render.toList, start⟩ =
          .ok (literal (.string value)) := by
  refine ⟨fun quote content => ⟨Text.spans_enclose quote content, Text.unquote_enclose quote content⟩,
    fun text span quote hspans hkind hterminated => ?_, fun value clause start => ?_⟩
  · obtain ⟨content, rfl⟩ := Text.exists_enclose_of_spans hspans hkind hterminated
    rw [Text.unquote_enclose]
  · have hrender : (literal (.string value)).render.toList =
        textOf [Lexeme.literal .single value.toList] := by
      simp [render, Literal.render, Lexeme.text]
    have htrim : Text.trim (literal (.string value)).render.toList =
        textOf [Lexeme.literal .single value.toList] := by
      rw [hrender]
      exact (solid_literal .single value.toList).tight.trim_eq
    exact read_quoted htrim start

/-- A literal of quotation marks only, and one with marks of the other kind at its end. -/
theorem quoted_inverse_runs :
    Text.spans "''''''".toList = [⟨.quoted .single, 0, "''''''".toList, true⟩] ∧
      Quote.single.enclose (Text.unquote "''''''".toList) = "''''''".toList ∧
      Text.spans "\"é''\"".toList = [⟨.quoted .double, 0, "\"é''\"".toList, true⟩] ∧
      Quote.double.enclose (Text.unquote "\"é''\"".toList) = "\"é''\"".toList ∧
      (literal (.string "''")).render = "''''''" ∧
      read .having ⟨"''''''".toList, 7⟩ = .ok (literal (.string "''")) := by
  obtain ⟨-, hwritten, hread⟩ := quoted_inverse
  have hsingle : Text.spans "''''''".toList = [⟨.quoted .single, 0, "''''''".toList, true⟩] := by
    decide
  have hdouble : Text.spans "\"é''\"".toList = [⟨.quoted .double, 0, "\"é''\"".toList, true⟩] := by
    decide
  exact ⟨hsingle, hwritten _ _ _ hsingle rfl rfl, hdouble, hwritten _ _ _ hdouble rfl rfl, by decide,
    hread "''" .having 7⟩

end Operand

end SelectForm

import Mathlib
import SelectForm.Proofs.Lexis.RowSpans
import SelectForm.Proofs.Statement.HeldItem
import SelectForm.Proofs.Statement.UnmarkedRow

/-!
# Columns and operands hold no mark of a chain

What is read as a column or as an operand is closed, and no `BETWEEN`, `AND` or `OR` stands
in it: its names are no reserved words, and a literal is no code.  The text may be any
text; that no comment is in it and that no literal is left open follows from its being
read.
-/

namespace SelectForm

open Lexeme

namespace Text

/-- A text of a closed row. -/
def IsClosed (text : Text) : Prop := ∃ row, Closed row ∧ textOf row = text

/-- A text of a closed row without a mark of a chain. -/
def IsUnmarked (text : Text) : Prop := ∃ row, Unmarked row ∧ textOf row = text

variable {text first second front back word : Text}

theorem IsUnmarked.isClosed (hunmarked : IsUnmarked text) : IsClosed text :=
  let ⟨row, hrow, htext⟩ := hunmarked
  ⟨row, hrow.toClosed, htext⟩

theorem IsClosed.append (hfirst : IsClosed first) (hsecond : IsClosed second)
    (hclear : Clear first second) : IsClosed (first ++ second) := by
  obtain ⟨row, hrow, rfl⟩ := hfirst
  obtain ⟨row', hrow', rfl⟩ := hsecond
  exact ⟨row ++ row', hrow.append hrow' hclear, textOf_append row row'⟩

theorem IsUnmarked.append (hfirst : IsUnmarked first) (hsecond : IsUnmarked second)
    (hclear : Clear first second) : IsUnmarked (first ++ second) := by
  obtain ⟨row, hrow, rfl⟩ := hfirst
  obtain ⟨row', hrow', rfl⟩ := hsecond
  exact ⟨row ++ row', hrow.append hrow' hclear, textOf_append row row'⟩

theorem isUnmarked_marks (hrow : Unmarked (marks text)) : IsUnmarked text :=
  ⟨marks text, hrow, textOf_marks text⟩

theorem isUnmarked_blanks (hblank : ∀ c ∈ text, isBlank c = true) : IsUnmarked text :=
  isUnmarked_marks (unmarked_blanks hblank)

theorem IsUnmarked.pad (htext : IsUnmarked text) (hfront : ∀ c ∈ front, isBlank c = true)
    (hback : ∀ c ∈ back, isBlank c = true) : IsUnmarked (front ++ (text ++ back)) :=
  (isUnmarked_blanks hfront).append
    (htext.append (isUnmarked_blanks hback) (clear_blanks_right _ hback))
    (clear_blanks_left _ hfront)

theorem IsUnmarked.of_trim (htrim : IsUnmarked (trim text)) : IsUnmarked text := by
  obtain ⟨front, back, htext, hfront, hback⟩ := exists_trim text
  rw [htext]
  exact htrim.pad hfront hback

theorem IsUnmarked.of_trimEnd (htrim : IsUnmarked (trimEnd text)) : IsUnmarked text := by
  obtain ⟨back, htext, hback⟩ := exists_trimEnd text
  rw [htext]
  exact htrim.append (isUnmarked_blanks hback) (clear_blanks_right _ hback)

theorem IsClosed.of_trimStart (htrim : IsClosed (trimStart text)) : IsClosed text := by
  obtain ⟨front, htext, hfront⟩ := exists_trimStart text
  rw [htext]
  exact (isUnmarked_blanks hfront).isClosed.append htrim (clear_blanks_left _ hfront)

theorem IsClosed.pad (htext : IsClosed text) (hfront : ∀ c ∈ front, isBlank c = true)
    (hback : ∀ c ∈ back, isBlank c = true) : IsClosed (front ++ (text ++ back)) :=
  (isUnmarked_blanks hfront).isClosed.append
    (htext.append (isUnmarked_blanks hback).isClosed (clear_blanks_right _ hback))
    (clear_blanks_left _ hfront)

theorem IsClosed.of_trim (htrim : IsClosed (trim text)) : IsClosed text := by
  obtain ⟨front, back, htext, hfront, hback⟩ := exists_trim text
  rw [htext]
  exact htrim.pad hfront hback

/-- A closed text in parentheses holds no mark outside them. -/
theorem IsClosed.group (htext : IsClosed text) : IsUnmarked ('(' :: (text ++ [')'])) := by
  obtain ⟨row, hrow, rfl⟩ := htext
  exact ⟨mark '(' :: (row ++ [mark ')']), hrow.unmarked_group, by simp [Lexeme.text]⟩

/-! ## Words -/

theorem isUnmarked_signs (hsigns : ∀ c ∈ text, c ∈ [',', '.', '*', '<', '>', '=', '!']) :
    IsUnmarked text := by
  have hall : [',', '.', '*', '<', '>', '=', '!'].all (fun c => isTame c && !c.isAlpha) = true := rfl
  have hsign : ∀ c ∈ text, isTame c = true ∧ c.isAlpha = false := by
    intro c hc
    simpa using List.all_eq_true.mp hall c (hsigns c hc)
  exact isUnmarked_marks (unmarked_marks (fun c hc => (hsign c hc).1)
    fun c hc => not_initial_of_not_isAlpha (hsign c hc).2)

theorem isUnmarked_word (hword : ∀ c ∈ text, isWordChar c = true)
    (hne : text.map Char.toUpper ∉ ChainMark.stops) : IsUnmarked text :=
  isUnmarked_marks ⟨closed_marks fun c hc => isTame_of_test rfl (hword c hc), free_word hword hne⟩

theorem isUnmarked_of_isValid (hvalid : Identifier.isValid (String.ofList text) = true) :
    IsUnmarked text := by
  have hname := Identifier.isName_of_isValid hvalid
  rw [String.toList_ofList] at hname
  apply isUnmarked_word
  · exact fun c hc => isWordChar_of_isNameTail ((forall_of_isName hname).2 c hc)
  · have hne : ∀ reserved ∈ Identifier.reservedWords, text.map Char.toUpper ≠ reserved.toList := by
      intro reserved hmem
      have hupper := Identifier.toUpper_ne_of_isValid hvalid hmem
      rwa [String.toList_ofList] at hupper
    simp only [ChainMark.stops, List.mem_cons, List.not_mem_nil, or_false, not_or]
    exact ⟨hne "BETWEEN" (by decide), hne "AND" (by decide), hne "OR" (by decide)⟩

/-- A text with the letters of a word that is none of the words of a chain. -/
theorem isUnmarked_of_sameLetters {letters : Text} (halpha : ∀ c ∈ letters, c.isAlpha = true)
    (hne : letters.map Char.toUpper ∉ ChainMark.stops) (hsame : sameLetters letters text = true) :
    IsUnmarked text := by
  apply isUnmarked_word
  · intro c hc
    have hletter := isAlpha_of_sameLetters halpha hsame c hc
    exact isWordChar_of_isNameTail (by simp [isNameTail, Char.isAlphanum, hletter])
  · rw [sameLetters, beq_iff_eq] at hsame
    have hupper := congrArg (List.map Char.toUpper) hsame
    simp only [List.map_map, Function.comp_def, Char.toUpper_toLower_eq_toUpper] at hupper
    rwa [← hupper]

theorem IsUnmarked.dotted {gap gap' : Text} (hfirst : IsUnmarked first)
    (hgap : ∀ c ∈ gap, isBlank c = true) (hgap' : ∀ c ∈ gap', isBlank c = true)
    (hsecond : IsUnmarked second) : IsUnmarked (first ++ (gap ++ '.' :: (gap' ++ second))) := by
  have hback : IsUnmarked (gap' ++ second) :=
    (isUnmarked_blanks hgap').append hsecond (clear_blanks_left _ hgap')
  have hdot : IsUnmarked ('.' :: (gap' ++ second)) :=
    (@isUnmarked_signs ['.'] (by simp)).append hback
      (clear_of_isBreak_left _ (by simp [isBreak]))
  exact hfirst.append ((isUnmarked_blanks hgap).append hdot (clear_blanks_left _ hgap))
    (clear_gap first hgap (by simp [isBreak]))

end Text

/-! ## Columns -/

namespace ColumnTerm

variable {text : Text} {term : ColumnTerm} {clause : Clause} {fragment : Fragment}

theorem isUnmarked_of_ofName? (hname : ofName? text = some term) : text.IsUnmarked := by
  unfold ofName? at hname
  split at hname
  · exact absurd hname (by simp)
  · rename_i table column hcolumn
    dsimp only at hname
    split at hname
    · rename_i hvalid
      rw [Bool.and_eq_true, Bool.or_eq_true, beq_iff_eq] at hvalid
      obtain ⟨htable, hstar⟩ := hvalid
      have hlast : column.IsUnmarked := by
        rcases hstar with hstar | hvalid
        · have hcolumn := congrArg String.toList hstar
          rw [String.toList_ofList] at hcolumn
          rw [hcolumn]
          exact Text.isUnmarked_signs (by simp)
        · exact Text.isUnmarked_of_isValid hvalid
      apply Text.IsUnmarked.of_trim
      unfold Text.columnName? at hcolumn
      split at hcolumn
      · rename_i htrim
        obtain ⟨rfl, rfl⟩ := Prod.mk.inj (Option.some.inj hcolumn)
        rwa [htrim]
      · split at hcolumn
        · rename_i name htake
          obtain ⟨rfl, rfl⟩ := Prod.mk.inj (Option.some.inj hcolumn)
          rwa [Text.append_of_takeRun? htake, List.append_nil]
        · rename_i name rest _ htake
          split at hcolumn
          · rename_i behind hdot
            dsimp only at hcolumn
            split at hcolumn
            · obtain ⟨rfl, rfl⟩ := Prod.mk.inj (Option.some.inj hcolumn)
              obtain ⟨gap, hgap, hblank⟩ := Text.exists_trimStart rest
              obtain ⟨gap', hgap', hblank'⟩ := Text.exists_trimStart behind
              have hfirst := Text.isUnmarked_of_isValid htable
              have hwhole := hfirst.dotted hblank hblank' hlast
              rwa [← hgap', ← hdot, ← hgap, ← Text.append_of_takeRun? htake] at hwhole
            · exact absurd hcolumn (by simp)
          · exact absurd hcolumn (by simp)
        · exact absurd hcolumn (by simp)
    · exact absurd hname (by simp)

theorem isUnmarked_of_aggregate {name : Text} {aggregate : Aggregate}
    (hname : Aggregate.ofName? (String.ofList name) = some aggregate) : name.IsUnmarked := by
  have hsame := List.find?_some hname
  rw [String.toList_ofList] at hsame
  apply Text.IsUnmarked.of_trim
  refine Text.isUnmarked_of_sameLetters aggregate.isAlpha_keyword ?_ hsame
  cases aggregate <;> simp [ChainMark.stops, Aggregate.keyword]

/-- The name of a function and its argument in parentheses. -/
theorem isUnmarked_of_call? {name argument : Text} {distinct : Bool}
    (hcall : Text.call? text = some (name, distinct, argument)) (hname : name.IsUnmarked)
    (hargument : argument.IsUnmarked) : text.IsUnmarked := by
  unfold Text.call? at hcall
  split at hcall
  · exact absurd hcall (by simp)
  · rename_i first rest htake
    split at hcall
    · rename_i behind hopen
      split at hcall
      · rename_i hclose
        dsimp only at hcall
        have hinside : first = name ∧ (Text.trimStart behind.dropLast).IsClosed := by
          split at hcall
          · rename_i hdistinct
            obtain ⟨hfirst, hrest⟩ := Prod.mk.inj (Option.some.inj hcall)
            obtain ⟨-, rfl⟩ := Prod.mk.inj hrest
            rw [Bool.and_eq_true] at hdistinct
            obtain ⟨hword, hblank⟩ := hdistinct
            refine ⟨hfirst, ?_⟩
            have htame : ∀ c ∈ (Text.trimStart behind.dropLast).take 8, isTame c = true := fun c hc =>
              isTame_of_test rfl (Lexeme.Holds.isFoldedTail_of_foldsTo (by decide) hword c hc)
            have hkeyword : Text.IsClosed ((Text.trimStart behind.dropLast).take 8) :=
              ⟨_, closed_marks htame, textOf_marks _⟩
            have hwhole := hkeyword.append hargument.of_trim.isClosed
              (clear_of_isBreak_right _ fun b hb => by
                rw [Option.mem_def.mp hb, Option.any_some] at hblank
                exact isBreak_of_isBlank hblank)
            rwa [List.take_append_drop] at hwhole
          · obtain ⟨hfirst, hrest⟩ := Prod.mk.inj (Option.some.inj hcall)
            obtain ⟨-, rfl⟩ := Prod.mk.inj hrest
            exact ⟨hfirst, hargument.of_trimEnd.isClosed⟩
        obtain ⟨rfl, hinside⟩ := hinside
        obtain ⟨gap, hgap, hblank⟩ := Text.exists_trimStart rest
        have hlast : behind = behind.dropLast ++ [')'] :=
          (List.dropLast_append_getLast? _ hclose).symm
        have hgroup := hinside.of_trimStart.group
        rw [← hlast] at hgroup
        have hback := (Text.isUnmarked_blanks hblank).append hgroup (clear_blanks_left _ hblank)
        have hwhole := hname.append hback (clear_gap _ hblank (by simp [isBreak]))
        rwa [← hopen, ← hgap, ← Text.append_of_takeRun? htake] at hwhole
      · exact absurd hcall (by simp)
    · exact absurd hcall (by simp)

theorem isUnmarked_of_read (hread : read clause fragment = .ok term) :
    fragment.text.IsUnmarked := by
  apply Text.IsUnmarked.of_trim
  rcases cases_of_read hread with hname | ⟨name, argument, _, _, _, hcall, haggregate, hname, -, -⟩
  · exact isUnmarked_of_ofName? hname
  · exact isUnmarked_of_call? hcall (isUnmarked_of_aggregate haggregate) (isUnmarked_of_ofName? hname)

end ColumnTerm

/-! ## Operands -/

namespace Text

variable {text : Text}

theorem isUnmarked_sign {sign : Text} (hsign : IsSign sign) : IsUnmarked sign := by
  apply isUnmarked_marks
  rcases hsign with rfl | rfl | rfl
  · exact unmarked_nil
  · exact unmarked_marks (by simp [isTame]) (by simp)
  · exact ⟨closed_minus, free_of_initials fun c hmem => by
      rw [List.mem_singleton.mp (mem_of_mark_mem hmem)]
      simp⟩

theorem isUnmarked_digits {digits : Text} (hdigits : ∀ c ∈ digits, isDecimal c = true ∨ c = '.') :
    (∀ c ∈ digits, isWordChar c = true ∧ c.isAlpha = false) ∧ IsUnmarked digits := by
  have hword : ∀ c ∈ digits, isWordChar c = true ∧ c.isAlpha = false := by
    intro c hc
    rcases hdigits c hc with hc | rfl
    · exact ⟨isWordChar_of_isDecimal hc, isAlpha_of_isDecimal hc⟩
    · exact ⟨rfl, rfl⟩
  exact ⟨hword, isUnmarked_marks (unmarked_marks (fun c hc => isTame_of_test rfl (hword c hc).1)
    fun c hc => not_initial_of_not_isAlpha (hword c hc).2)⟩

theorem isUnmarked_signed {sign digits : Text} (hsign : IsSign sign)
    (hdigits : ∀ c ∈ digits, isDecimal c = true ∨ c = '.') : IsUnmarked (sign ++ digits) := by
  obtain ⟨hword, hunmarked⟩ := isUnmarked_digits hdigits
  refine (isUnmarked_sign hsign).append hunmarked fun a _ b hb => ?_
  obtain ⟨hb, hletter⟩ := hword b (List.mem_of_head? hb)
  exact merges_of_isWordChar_right hb (.inr hletter)

theorem isUnmarked_of_isNumber (hnumber : isNumber text = true) : IsUnmarked text := by
  obtain ⟨sign, mantissa, exponent, rfl, hsign, hne, hmantissa, hexponent⟩ :=
    exists_of_isNumber hnumber
  have hfront := isUnmarked_signed hsign hmantissa
  rcases exists_of_isExponent hexponent with rfl | ⟨e, sign', digits, rfl, he, hsign', -, hdigits⟩
  · rwa [List.append_nil]
  · have hletter : IsUnmarked [e] := by
      apply isUnmarked_word
      · rcases he with rfl | rfl <;> simp [isWordChar, Char.isAlphanum, Char.isAlpha]
      · rcases he with rfl | rfl <;> simp [ChainMark.stops]
    have hback : IsUnmarked (e :: (sign' ++ digits)) := by
      have hplain : ∀ c ∈ sign' ++ digits, c.isAlpha = false := by
        rw [List.forall_mem_append]
        refine ⟨?_, fun c hc => isAlpha_of_isDecimal (hdigits c hc)⟩
        rcases hsign' with rfl | rfl | rfl <;> simp [Char.isAlpha]
      refine hletter.append (isUnmarked_signed hsign' fun c hc => .inl (hdigits c hc)) ?_
      intro a ha b hb
      obtain rfl : e = a := Option.some.inj ha
      apply merges_of_isWordChar_left
      · rcases he with rfl | rfl <;> rfl
      · exact .inr (hplain b (List.mem_of_head? hb))
    rw [← List.append_assoc]
    refine hfront.append hback fun a ha b hb => ?_
    rw [List.getLast?_append_of_ne_nil _ hne] at ha
    obtain ⟨ha, hletter⟩ := (isUnmarked_digits hmantissa).1 a (List.mem_of_getLast? ha)
    exact merges_of_isWordChar_left ha (.inl hletter)

/-- A text that is one literal, closed at its end. -/
theorem isUnmarked_of_isQuotedLiteral (hquoted : isQuotedLiteral text = true) :
    IsUnmarked text := by
  unfold isQuotedLiteral at hquoted
  split at hquoted
  · rename_i span hspans
    split at hquoted
    · rename_i quote hkind
      obtain ⟨content, rfl⟩ := exists_enclose_of_spans hspans hkind hquoted
      exact ⟨_, unmarked_literal quote content, by simp [Lexeme.text]⟩
    · exact absurd hquoted (by simp)
  · exact absurd hquoted (by simp)

end Text

namespace Operand

variable {clause : Clause} {fragment : Fragment} {operand : Operand}

theorem isUnmarked_of_parameterName? {text name : Text}
    (hname : Text.parameterName? text = some name) : text.IsUnmarked := by
  unfold Text.parameterName? at hname
  split at hname
  · rename_i first
    split at hname
    · rename_i hvalid
      have hletters := (Text.forall_of_isRun (fun _ => id) hvalid).2
      apply Text.isUnmarked_word
      · rw [List.forall_mem_cons]
        exact ⟨rfl, fun c hc => Text.isWordChar_of_isNameTail
          (Text.isNameTail_of_isParameterChar (hletters c hc))⟩
      · simp [ChainMark.stops]
    · exact absurd hname (by simp)
  · exact absurd hname (by simp)

theorem isUnmarked_of_literalOf? {text : Text} {value : Literal}
    (hvalue : literalOf? text = some value) : text.IsUnmarked := by
  have hword : ∀ word : String, word ∈ ["TRUE", "FALSE", "NULL"] → text.isWord word = true →
      text.IsUnmarked := by
    intro word hmem hsame
    have halpha : word.toList.all Char.isAlpha = true ∧
        word.toList.map Char.toUpper ∉ ChainMark.stops := by
      simp only [List.mem_cons, List.not_mem_nil, or_false] at hmem
      rcases hmem with rfl | rfl | rfl <;> simp [ChainMark.stops, Char.isAlpha]
    exact Text.isUnmarked_of_sameLetters (List.all_eq_true.mp halpha.1) halpha.2 hsame
  unfold literalOf? at hvalue
  split at hvalue
  · rename_i hquoted
    exact Text.isUnmarked_of_isQuotedLiteral hquoted
  · split at hvalue
    · rename_i hnumber
      exact Text.isUnmarked_of_isNumber hnumber
    · split at hvalue
      · rename_i htrue
        exact hword "TRUE" (by simp) htrue
      · split at hvalue
        · rename_i hfalse
          exact hword "FALSE" (by simp) hfalse
        · split at hvalue
          · rename_i hnull
            exact hword "NULL" (by simp) hnull
          · exact absurd hvalue (by simp)

theorem isUnmarked_of_read (hread : read clause fragment = .ok operand) :
    fragment.text.IsUnmarked := by
  apply Text.IsUnmarked.of_trim
  unfold read at hread
  dsimp only [Fragment.trim] at hread
  split at hread
  · exact absurd hread (by simp)
  · split at hread
    · exact absurd hread (by simp)
    · split at hread
      · rename_i name hname
        exact isUnmarked_of_parameterName? hname
      · split at hread
        · rename_i value hvalue
          exact isUnmarked_of_literalOf? hvalue
        · split at hread
          · rename_i term hterm
            exact ColumnTerm.isUnmarked_of_read hterm
          · exact absurd hread (by simp)

end Operand

end SelectForm

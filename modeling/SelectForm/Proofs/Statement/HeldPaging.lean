import Mathlib
import SelectForm.Proofs.Lexis.Token
import SelectForm.Proofs.Statement.AlikePaging

/-!
# What LIMIT and OFFSET are made of

Whatever is read as LIMIT and OFFSET is made of the two keywords, of digits and of blanks.
There is nothing else in it, so it has no names, parameters and literals.
-/

namespace SelectForm

open Lexeme

namespace Text

/-- Characters that may stand behind the last token of a statement: those of LIMIT and
OFFSET, blanks, and the semicolon at the end. -/
def isClosing (c : Char) : Bool := isBlank c || c.isAlphanum || c == ';'

theorem isClosing_of_isBlank {c : Char} (hc : isBlank c = true) : isClosing c = true := by
  simp [isClosing, hc]

theorem isClosing_of_isAlphanum {c : Char} (hc : c.isAlphanum = true) : isClosing c = true := by
  simp [isClosing, hc]

end Text

namespace Paging

variable {cursor : Cursor} {front back : List Lexeme} {paging found : Paging}

/-- Pieces of which a clause of LIMIT and OFFSET is made. -/
def Closes (row : List Lexeme) : Prop :=
  ∃ text, row = marks text ∧ ∀ c ∈ text, Text.isClosing c = true

theorem closes_nil : Closes [] := ⟨[], rfl, List.forall_mem_nil _⟩

theorem Closes.pad {row : List Lexeme} {text : Text} (hcloses : Closes row)
    (htext : ∀ c ∈ text, Text.isClosing c = true) : Closes (marks text ++ row) := by
  obtain ⟨rest, rfl, hrest⟩ := hcloses
  exact ⟨text ++ rest, (marks_append text rest).symm, List.forall_mem_append.mpr ⟨htext, hrest⟩⟩

theorem Closes.of_dropWhile_isGap {row : List Lexeme} (hcloses : Closes (row.dropWhile isGap)) :
    Closes row := by
  obtain ⟨gap, hrow, hgap⟩ := Keyword.exists_gap row
  rw [hrow]
  exact hcloses.pad fun c hc =>
    Text.isClosing_of_isBlank (Text.isBlank_of_isAsciiBlank (hgap c hc))

theorem isClosing_of_spells {keyword : Keyword} {word text : Text}
    (hform : keyword.form = .phrase [word]) (hword : ∀ c ∈ word, c.isUpper = true)
    (hspells : keyword.Spells text) : ∀ c ∈ text, Text.isClosing c = true := by
  rw [Keyword.Spells, hform] at hspells
  obtain ⟨first, rest, rfl, hfirst, hrest⟩ := hspells
  cases hrest
  rw [List.append_nil]
  intro c hc
  have hupper := hword c.toUpper (hfirst ▸ List.mem_map_of_mem hc)
  have halpha : c.isAlpha = true := by
    rw [← Char.isAlpha_toUpper_eq_isAlpha, Char.isAlpha, hupper, Bool.true_or]
  exact Text.isClosing_of_isAlphanum (by rw [Char.isAlphanum, halpha, Bool.true_or])

/-- A cursor that consumes a keyword of one word moves over letters only. -/
theorem exists_of_consume {keyword : Keyword} {word : Text} {moved : Cursor}
    (hform : keyword.form = .phrase [word]) (hword : ∀ c ∈ word, c.isUpper = true)
    (hne : word ≠ []) (hstands : cursor.Stands front back) (hatomic : Atomic back)
    (hconsume : cursor.consume keyword = (true, moved)) :
    ∃ text rest, back = marks text ++ rest ∧ text ≠ [] ∧ (∀ c ∈ text, Text.isClosing c = true) ∧
      moved.Stands (front ++ marks text) rest := by
  have hplain : keyword.isPlain = true := by simpa [Keyword.isPlain, hform, hne] using hword
  have hlength := hstands.keywordLength?_eq hatomic hplain
  cases hrest : keyword.rest? (lastOf none front) back with
  | none =>
      rw [hrest, Option.map_none] at hlength
      rw [Cursor.consume, hlength] at hconsume
      exact absurd (Prod.mk.inj hconsume).1 (by simp)
  | some rest =>
      obtain ⟨text, rfl, hspells⟩ := Keyword.exists_of_rest? hrest
      rw [hstands.consume_of_rest? hatomic hplain hrest] at hconsume
      obtain ⟨-, rfl⟩ := Prod.mk.inj hconsume
      exact ⟨text, rest, rfl, hspells.ne_nil hplain, isClosing_of_spells hform hword hspells,
        hstands.jump⟩

theorem isDigit_of_number? {word : Text} {number : UInt64} (hnumber : number? word = some number) :
    ∀ c ∈ word, c.isDigit = true := by
  unfold number? at hnumber
  split at hnumber
  · exact absurd hnumber (by simp)
  · rename_i hdigits
    simp only [Bool.or_eq_true, not_or, Bool.not_eq_true', Bool.not_eq_false] at hdigits
    exact List.all_eq_true.mp hdigits.2

/-- A number is made of blanks and digits. -/
theorem exists_of_readNumber {keyword : String} {number : UInt64} {moved : Cursor}
    (hstands : cursor.Stands front back) (hatomic : Atomic back)
    (hread : readNumber keyword cursor = (.ok number, moved)) :
    ∃ text rest front, back = marks text ++ rest ∧ (∀ c ∈ text, Text.isClosing c = true) ∧
      moved.Stands front rest := by
  have hstart := hstands.skipBlanks hatomic
  have hstopped := Reader.stands_word hstart (hatomic.dropWhile isGap)
  unfold readNumber Reader.word at hread
  dsimp only at hread
  split at hread
  · exact absurd (Prod.mk.inj hread).1 (by simp)
  · rw [hstopped.2] at hread
    split at hread
    · exact absurd (Prod.mk.inj hread).1 (by simp)
    · rename_i word behind hword
      split at hword
      · obtain ⟨hvalue, rfl⟩ := Prod.mk.inj hword
        obtain rfl := Except.ok.inj hvalue
        split at hread
        · exact absurd (Prod.mk.inj hread).1 (by simp)
        · split at hread
          · exact absurd (Prod.mk.inj hread).1 (by simp)
          · split at hread
            · rename_i found hnumber
              obtain ⟨-, rfl⟩ := Prod.mk.inj hread
              have hdigit := isDigit_of_number? hnumber
              obtain ⟨gap, hrow, hgap⟩ := Keyword.exists_gap back
              obtain ⟨digits, htake, -⟩ := exists_takeWhile_isMark Text.isWordChar (back.dropWhile isGap)
              have hsplit := @List.takeWhile_append_dropWhile _ (isMark Text.isWordChar)
                (back.dropWhile isGap)
              rw [htake] at hsplit hdigit
              rw [textOf_marks] at hdigit
              refine ⟨gap ++ digits, _, _, ?_, ?_, hstopped.1⟩
              · rw [marks_append, List.append_assoc, hsplit, ← hrow]
              · rw [List.forall_mem_append]
                refine ⟨fun c hc =>
                  Text.isClosing_of_isBlank (Text.isBlank_of_isAsciiBlank (hgap c hc)), fun c hc => ?_⟩
                exact Text.isClosing_of_isAlphanum
                  (by rw [Char.isAlphanum, hdigit c hc, Bool.or_true])
            · exact absurd (Prod.mk.inj hread).1 (by simp)
      · exact absurd (Prod.mk.inj hword).1 (by simp)

/-- A keyword, the digits behind it and the rest of a text that closes close. -/
theorem closes_of_item {keyword : Keyword} {word : Text} {name : String} {moved behind : Cursor}
    {number : UInt64} (hform : keyword.form = .phrase [word]) (hword : ∀ c ∈ word, c.isUpper = true)
    (hne : word ≠ []) (hstands : cursor.Stands front back) (hatomic : Atomic back)
    (hconsume : cursor.consume keyword = (true, moved))
    (hnumber : readNumber name moved = (.ok number, behind))
    (hrest : ∀ front rest : List Lexeme, rest.length < back.length → behind.Stands front rest →
      Atomic rest → Closes rest) : Closes back := by
  obtain ⟨text, others, rfl, hnil, htext, hmoved⟩ :=
    exists_of_consume hform hword hne hstands hatomic hconsume
  have hothers := (atomic_append.mp hatomic).2
  obtain ⟨digits, rest, passed, rfl, hdigits, hbehind⟩ :=
    exists_of_readNumber hmoved hothers hnumber
  have hshort : rest.length < (marks text ++ (marks digits ++ rest)).length := by
    have hpos := List.length_pos_of_ne_nil hnil
    rw [List.length_append, List.length_append, marks, List.length_map]
    omega
  exact ((hrest passed rest hshort hbehind (atomic_append.mp hothers).2).pad hdigits).pad htext

theorem closes_of_readWithin {bound : Nat} (hbound : back.length < bound)
    (hstands : cursor.Stands front back) (hatomic : Atomic back)
    (hread : (readWithin bound paging cursor).1 = .ok found) : Closes back := by
  induction bound generalizing paging cursor front back with
  | zero => exact absurd hbound (Nat.not_lt_zero _)
  | succ bound ih =>
      have hstart := hstands.skipBlanks hatomic
      have hrest := hatomic.dropWhile isGap
      have hshort := (List.dropWhile_suffix (l := back) isGap).length_le
      apply Closes.of_dropWhile_isGap
      rw [readWithin, hstart.atEnd_eq_isEmpty hrest] at hread
      split at hread
      · rename_i hempty
        rw [List.isEmpty_iff.mp hempty]
        exact closes_nil
      · split at hread
        · rename_i moved hconsume
          split at hread
          · rename_i number behind hnumber
            exact @closes_of_item _ _ _ _ "LIMIT".toList _ _ _ _ rfl
              (Lexeme.Holds.isUpper_of_mem_reservedWords (by decide)) (by decide) hstart hrest
              hconsume hnumber fun _ _ hless hbehind hatomic => ih (by omega) hbehind hatomic hread
          · exact absurd hread (by simp)
        · split at hread
          · rename_i moved hconsume
            split at hread
            · rename_i number behind hnumber
              exact @closes_of_item _ _ _ _ "OFFSET".toList _ _ _ _ rfl
                (Lexeme.Holds.isUpper_of_mem_reservedWords (by decide)) (by decide) hstart hrest
                hconsume hnumber fun _ _ hless hbehind hatomic => ih (by omega) hbehind hatomic hread
            · exact absurd hread (by simp)
          · exact absurd hread (by simp)

theorem closes_of_read {row : List Lexeme} (htext : cursor.text = textOf row)
    (hposition : cursor.position = 0) (hsound : Sound row)
    (hread : (read cursor).1 = .ok found) : Closes row := by
  have hstands : cursor.Stands [] row :=
    ⟨htext, hposition, by rw [htext, hsound.cells_textOf, List.nil_append]⟩
  refine closes_of_readWithin ?_ hstands hsound.atomic hread
  rw [Cursor.length, htext]
  exact Nat.lt_succ_of_le hsound.atomic.length_le_size

end Paging

end SelectForm

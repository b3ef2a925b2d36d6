import Mathlib
import SelectForm.Proofs.Lexis.KeywordMatch
import SelectForm.Query.Operand

/-!
# Names and numbers as words

A valid name is a run of ASCII letters, digits, underscores and dollar signs that
is no reserved word.  Such a run is a word of the lexical structure, no blank
occurs in it, and it is found again at the front of any text in which no
character of a name follows.  A number is a run of digits and points, between
optional signs and behind an optional exponent mark.
-/

namespace SelectForm

namespace Text

/-! ## Characters -/

theorem isBlank_iff {c : Char} :
    isBlank c = true ↔
      (0x09 ≤ c.toNat ∧ c.toNat ≤ 0x0D) ∨ c.toNat = 0x20 ∨ c.toNat = 0x85 ∨ c.toNat = 0xA0 ∨
        c.toNat = 0x1680 ∨ (0x2000 ≤ c.toNat ∧ c.toNat ≤ 0x200A) ∨ c.toNat = 0x2028 ∨
        c.toNat = 0x2029 ∨ c.toNat = 0x202F ∨ c.toNat = 0x205F ∨ c.toNat = 0x3000 := by
  simp only [isBlank, Bool.or_eq_true, Bool.and_eq_true, decide_eq_true_eq, beq_iff_eq]
  tauto

theorem toNat_of_isUpper {c : Char} (hc : c.isUpper = true) : 0x41 ≤ c.toNat ∧ c.toNat ≤ 0x5A := by
  simp only [Char.isUpper, decide_eq_true_eq] at hc
  exact ⟨UInt32.le_iff_toNat_le.mp hc.1, UInt32.le_iff_toNat_le.mp hc.2⟩

theorem toNat_of_isLower {c : Char} (hc : c.isLower = true) : 0x61 ≤ c.toNat ∧ c.toNat ≤ 0x7A := by
  simp only [Char.isLower, Bool.and_eq_true, decide_eq_true_eq] at hc
  exact ⟨UInt32.le_iff_toNat_le.mp hc.1, UInt32.le_iff_toNat_le.mp hc.2⟩

theorem toUpper_of_isUpper {c : Char} (hc : c.isUpper = true) : c.toUpper = c :=
  Char.toUpper_eq_of_not_isLower fun hlower => by
    have hbig := toNat_of_isUpper hc
    have hsmall := toNat_of_isLower hlower
    omega

theorem toNat_of_isDigit {c : Char} (hc : c.isDigit = true) : 0x30 ≤ c.toNat ∧ c.toNat ≤ 0x39 := by
  simp only [Char.isDigit, Bool.and_eq_true, decide_eq_true_eq] at hc
  exact ⟨UInt32.le_iff_toNat_le.mp hc.1, UInt32.le_iff_toNat_le.mp hc.2⟩

theorem toNat_of_isAlpha {c : Char} (hc : c.isAlpha = true) :
    (0x41 ≤ c.toNat ∧ c.toNat ≤ 0x5A) ∨ (0x61 ≤ c.toNat ∧ c.toNat ≤ 0x7A) := by
  rw [Char.isAlpha, Bool.or_eq_true] at hc
  exact hc.imp toNat_of_isUpper toNat_of_isLower

theorem toNat_of_isNameTail {c : Char} (hc : isNameTail c = true) :
    (0x41 ≤ c.toNat ∧ c.toNat ≤ 0x5A) ∨ (0x61 ≤ c.toNat ∧ c.toNat ≤ 0x7A) ∨
      (0x30 ≤ c.toNat ∧ c.toNat ≤ 0x39) ∨ c.toNat = 0x5F ∨ c.toNat = 0x24 := by
  simp only [isNameTail, Char.isAlphanum, Bool.or_eq_true, beq_iff_eq] at hc
  rcases hc with ((hc | hc) | rfl) | rfl
  · rcases toNat_of_isAlpha hc with hc | hc
    · exact .inl hc
    · exact .inr (.inl hc)
  · exact .inr (.inr (.inl (toNat_of_isDigit hc)))
  · exact .inr (.inr (.inr (.inl rfl)))
  · exact .inr (.inr (.inr (.inr rfl)))

theorem isNameTail_of_isNameHead {c : Char} (hc : isNameHead c = true) :
    isNameTail c = true := by
  simp only [isNameHead, isNameTail, Char.isAlphanum, Bool.or_eq_true] at hc ⊢
  tauto

theorem isWordChar_of_isNameTail {c : Char} (hc : isNameTail c = true) :
    isWordChar c = true := by
  simp only [isNameTail, isWordChar, Bool.or_eq_true] at hc ⊢
  tauto

theorem isBlank_of_isNameTail {c : Char} (hc : isNameTail c = true) : isBlank c = false := by
  have hrange := toNat_of_isNameTail hc
  by_contra hblank
  have hblank := isBlank_iff.mp (by simpa using hblank)
  omega

theorem isNameTail_of_isParameterChar {c : Char} (hc : isParameterChar c = true) :
    isNameTail c = true := by
  simp only [isParameterChar, isNameTail, Bool.or_eq_true] at hc ⊢
  tauto

theorem foldUpper_eq {c : Char} (hc : c.toNat < 0x80) : foldUpper c = c.toUpper := by
  have hs : c ≠ '\u017F' := by
    rintro rfl
    exact absurd hc (by decide)
  have hk : c ≠ '\u212A' := by
    rintro rfl
    exact absurd hc (by decide)
  simp [foldUpper, hs, hk]

theorem isNameHead_toUpper {c : Char} (hc : isNameHead c = true) :
    isNameHead c.toUpper = true := by
  simp only [isNameHead, Bool.or_eq_true, beq_iff_eq] at hc ⊢
  rcases hc with hc | rfl
  · exact .inl (by rw [Char.isAlpha_toUpper_eq_isAlpha, hc])
  · exact .inr rfl

theorem isNameTail_toUpper {c : Char} (hc : isNameTail c = true) :
    isNameTail c.toUpper = true := by
  by_cases halpha : c.isAlpha = true
  · simp [isNameTail, Char.isAlphanum, halpha]
  · have hlower : ¬ c.isLower = true := fun hlower => halpha (by simp [Char.isAlpha, hlower])
    rwa [Char.toUpper_eq_of_not_isLower hlower]

theorem toNat_lt_of_isNameTail {c : Char} (hc : isNameTail c = true) : c.toNat < 0x80 := by
  have hrange := toNat_of_isNameTail hc
  omega

theorem isFoldedHead_of_isNameHead {c : Char} (hc : isNameHead c = true) :
    isFoldedHead c = true := by
  rw [isFoldedHead, foldUpper_eq (toNat_lt_of_isNameTail (isNameTail_of_isNameHead hc))]
  exact isNameHead_toUpper hc

theorem isFoldedTail_of_isNameTail {c : Char} (hc : isNameTail c = true) :
    isFoldedTail c = true := by
  rw [isFoldedTail, foldUpper_eq (toNat_lt_of_isNameTail hc)]
  exact isNameTail_toUpper hc

/-! ## Runs -/

theorem isRun_imp {head tail head' tail' : Char → Bool} {text : Text}
    (hhead : ∀ c, head c = true → head' c = true) (htail : ∀ c, tail c = true → tail' c = true)
    (hrun : isRun head tail text = true) : isRun head' tail' text = true := by
  cases text with
  | nil => simp [isRun] at hrun
  | cons c rest =>
      simp only [isRun, Bool.and_eq_true, List.all_eq_true] at hrun ⊢
      exact ⟨hhead c hrun.1, fun d hd => htail d (hrun.2 d hd)⟩

theorem isRun_folded {text : Text} (hname : isName text = true) :
    isRun isFoldedHead isFoldedTail text = true :=
  isRun_imp (fun _ => isFoldedHead_of_isNameHead) (fun _ => isFoldedTail_of_isNameTail) hname

/-- A run is taken off the front of a text in which no further character follows. -/
theorem takeRun?_append {head tail : Char → Bool} {text rest : Text}
    (hrun : isRun head tail text = true) (hrest : ∀ c ∈ rest.head?, tail c = false) :
    takeRun? head tail (text ++ rest) = some (text, rest) := by
  cases text with
  | nil => simp [isRun] at hrun
  | cons c text =>
      simp only [isRun, Bool.and_eq_true, List.all_eq_true] at hrun
      have htake : rest.takeWhile tail = [] := by
        cases rest with
        | nil => rfl
        | cons d rest => rw [List.takeWhile_cons_of_neg (by simp [hrest d rfl])]
      have hdrop : rest.dropWhile tail = rest := by
        cases rest with
        | nil => rfl
        | cons d rest => rw [List.dropWhile_cons_of_neg (by simp [hrest d rfl])]
      rw [List.cons_append, takeRun?, if_pos hrun.1, List.takeWhile_append_of_pos hrun.2,
        List.dropWhile_append_of_pos hrun.2, htake, hdrop, List.append_nil]

theorem takeRun?_eq_some {head tail : Char → Bool} {text : Text}
    (hrun : isRun head tail text = true) : takeRun? head tail text = some (text, []) := by
  have htake := @takeRun?_append head tail text [] hrun (by simp)
  rwa [List.append_nil] at htake

/-- What is behind a run is the end of the text. -/
theorem append_of_takeRun? {head tail : Char → Bool} {text front rest : Text}
    (htake : takeRun? head tail text = some (front, rest)) : text = front ++ rest := by
  cases text with
  | nil => simp [takeRun?] at htake
  | cons c text =>
      rw [takeRun?] at htake
      split at htake
      · simp only [Option.some.injEq, Prod.mk.injEq] at htake
        rw [← htake.1, ← htake.2, List.cons_append, List.takeWhile_append_dropWhile]
      · simp at htake

theorem forall_of_isRun {head tail : Char → Bool} {text : Text}
    (himp : ∀ c, head c = true → tail c = true) (hrun : isRun head tail text = true) :
    text ≠ [] ∧ ∀ c ∈ text, tail c = true := by
  cases text with
  | nil => simp [isRun] at hrun
  | cons c rest =>
      simp only [isRun, Bool.and_eq_true, List.all_eq_true] at hrun
      refine ⟨by simp, fun d hd => ?_⟩
      rcases List.mem_cons.mp hd with rfl | hd
      · exact himp _ hrun.1
      · exact hrun.2 d hd

theorem forall_of_isName {text : Text} (hname : isName text = true) :
    text ≠ [] ∧ ∀ c ∈ text, isNameTail c = true :=
  forall_of_isRun (fun _ => isNameTail_of_isNameHead) hname

end Text

/-! ## Valid names -/

namespace Identifier

theorem isName_of_isValid {name : String} (hvalid : isValid name = true) :
    Text.isName name.toList = true := by
  rw [isValid, Bool.and_eq_true] at hvalid
  exact hvalid.1

/-- No valid name is a reserved word, whatever the case of its letters. -/
theorem toUpper_ne_of_isValid {name reserved : String} (hvalid : isValid name = true)
    (hreserved : reserved ∈ reservedWords) :
    name.toList.map Char.toUpper ≠ reserved.toList := by
  intro hupper
  rw [isValid, Bool.and_eq_true, Bool.not_eq_true'] at hvalid
  have hnot := List.any_eq_false.mp hvalid.2 reserved hreserved
  rw [same, Text.sameLetters, ← hupper, List.map_map] at hnot
  simp [Function.comp_def] at hnot

end Identifier

end SelectForm

import Mathlib
import SelectForm.Proofs.Text.Name

/-!
# The form of numbers

A decimal number consists of an optional sign, a mantissa of digits and points
and an optional exponent.  The digits may come from any script, so that a number
can hold characters beyond ASCII, but never a blank, a quotation mark or a mark
other than its signs.
-/

namespace SelectForm

namespace Text

/-- A text that is an optional sign. -/
def IsSign (sign : Text) : Prop := sign = [] ∨ sign = ['+'] ∨ sign = ['-']

theorem exists_sign (text : Text) : ∃ sign, IsSign sign ∧ text = sign ++ afterSign text := by
  rw [afterSign.eq_def]
  split
  · exact ⟨['+'], .inr (.inl rfl), rfl⟩
  · exact ⟨['-'], .inr (.inr rfl), rfl⟩
  · exact ⟨[], .inl rfl, rfl⟩

theorem exists_of_isExponent {text : Text} (hexponent : isExponent text = true) :
    text = [] ∨ ∃ e sign digits, text = e :: (sign ++ digits) ∧ (e = 'e' ∨ e = 'E') ∧
      IsSign sign ∧ digits ≠ [] ∧ ∀ c ∈ digits, isDecimal c = true := by
  cases text with
  | nil => exact .inl rfl
  | cons e rest =>
      simp only [isExponent, Bool.and_eq_true, Bool.or_eq_true, beq_iff_eq] at hexponent
      obtain ⟨sign, hsign, hrest⟩ := exists_sign rest
      obtain ⟨hne, hdigits⟩ := forall_of_isRun (fun _ => id) hexponent.2
      exact .inr ⟨e, sign, afterSign rest, by rw [← hrest], hexponent.1, hsign, hne, hdigits⟩

/-- The parts of a number. -/
theorem exists_of_isNumber {text : Text} (hnumber : isNumber text = true) :
    ∃ sign mantissa exponent, text = sign ++ (mantissa ++ exponent) ∧ IsSign sign ∧
      mantissa ≠ [] ∧ (∀ c ∈ mantissa, isDecimal c = true ∨ c = '.') ∧
      isExponent exponent = true := by
  obtain ⟨sign, hsign, htext⟩ := exists_sign text
  rw [isNumber] at hnumber
  generalize afterSign text = unsigned at hnumber htext
  have hsplit := List.takeWhile_append_dropWhile (p := isDecimal) (l := unsigned)
  have hdigits : ∀ c ∈ unsigned.takeWhile isDecimal, isDecimal c = true := fun c hc =>
    List.mem_takeWhile_imp hc
  generalize unsigned.takeWhile isDecimal = digits at hnumber hsplit hdigits
  generalize unsigned.dropWhile isDecimal = rest at hnumber hsplit
  split at hnumber
  next rest =>
    have hfraction := List.takeWhile_append_dropWhile (p := isDecimal) (l := rest)
    refine ⟨sign, '.' :: rest.takeWhile isDecimal, rest.dropWhile isDecimal, ?_, hsign,
      by simp, ?_, ?_⟩
    · rw [htext, ← hsplit, List.cons_append, hfraction, List.nil_append]
    · intro c hc
      rcases List.mem_cons.mp hc with rfl | hc
      · exact .inr rfl
      · exact .inl (List.mem_takeWhile_imp hc)
    · rw [Bool.and_eq_true] at hnumber
      exact hnumber.2
  next => simp at hnumber
  next d digits rest =>
    have hfraction := List.takeWhile_append_dropWhile (p := isDecimal) (l := rest)
    refine ⟨sign, (d :: digits) ++ '.' :: rest.takeWhile isDecimal, rest.dropWhile isDecimal, ?_,
      hsign, by simp, ?_, hnumber⟩
    · rw [htext, ← hsplit, List.append_assoc, List.cons_append (a := '.'), hfraction]
    · intro c hc
      rcases List.mem_append.mp hc with hc | hc
      · exact .inl (hdigits c hc)
      · rcases List.mem_cons.mp hc with rfl | hc
        · exact .inr rfl
        · exact .inl (List.mem_takeWhile_imp hc)
  next _ d digits _ =>
    exact ⟨sign, d :: digits, rest, by rw [htext, ← hsplit], hsign, by simp,
      fun c hc => .inl (hdigits c hc), hnumber⟩

theorem forall_of_isNumber {text : Text} (hnumber : isNumber text = true) :
    ∀ c ∈ text, isDecimal c = true ∨ c ∈ ['+', '-', '.', 'e', 'E'] := by
  have hsigns : ∀ sign : Text, IsSign sign → ∀ c ∈ sign, c ∈ ['+', '-', '.', 'e', 'E'] := by
    rintro sign (rfl | rfl | rfl) <;> simp
  obtain ⟨sign, mantissa, exponent, rfl, hsign, -, hmantissa, hexponent⟩ :=
    exists_of_isNumber hnumber
  simp only [List.forall_mem_append]
  refine ⟨fun c hc => .inr (hsigns sign hsign c hc), fun c hc => ?_, ?_⟩
  · exact (hmantissa c hc).imp_right fun hdot => by simp [hdot]
  · rcases exists_of_isExponent hexponent with rfl | ⟨e, sign', digits, rfl, he, hsign', -, hdigits⟩
    · exact List.forall_mem_nil _
    · rw [List.forall_mem_cons, List.forall_mem_append]
      refine ⟨.inr ?_, fun c hc => .inr (hsigns sign' hsign' c hc), fun c hc => .inl (hdigits c hc)⟩
      rcases he with rfl | rfl <;> simp

/-! ## Digits -/

/-- Where the digits of the table stand among the code points. -/
theorem toNat_of_isDecimal {c : Char} (hc : isDecimal c = true) :
    (0x30 ≤ c.toNat ∧ c.toNat ≤ 0x39) ∨ 0x80 ≤ c.toNat := by
  simp only [isDecimal, List.any_eq_true, Bool.and_eq_true, decide_eq_true_eq] at hc
  obtain ⟨first, hmem, hlow, hhigh⟩ := hc
  have htable : ∀ first ∈ digitZeros, first = 0x30 ∨ 0x80 ≤ first := by decide
  rcases htable first hmem with rfl | hfirst <;> omega

theorem isWordChar_of_isDecimal {c : Char} (hc : isDecimal c = true) : isWordChar c = true := by
  rcases toNat_of_isDecimal hc with hc | hc
  · have hdigit : c.isDigit = true := by
      simp only [Char.isDigit, Bool.and_eq_true, decide_eq_true_eq]
      exact ⟨UInt32.le_iff_toNat_le.mpr hc.1, UInt32.le_iff_toNat_le.mpr hc.2⟩
    simp [isWordChar, Char.isAlphanum, hdigit]
  · simp [isWordChar, hc]

theorem isBlank_of_isDecimal {c : Char} (hc : isDecimal c = true) : isBlank c = false := by
  simp only [isDecimal, List.any_eq_true, Bool.and_eq_true, decide_eq_true_eq] at hc
  obtain ⟨first, hmem, hlow, hhigh⟩ := hc
  have htable : ∀ first ∈ digitZeros, first = 0x30 ∨
      (0x660 ≤ first ∧ first ≤ 0x1090) ∨ (0x17E0 ≤ first ∧ first ≤ 0x1C50) ∨
        0x3001 ≤ first := by decide
  by_contra hblank
  have hblank := isBlank_iff.mp (by simpa using hblank)
  rcases htable first hmem with rfl | hfirst | hfirst | hfirst <;> omega

/-- No digit folds to a letter. -/
theorem foldUpper_of_isDecimal {c : Char} (hc : isDecimal c = true) : foldUpper c = c.toUpper := by
  have hs : c ≠ '\u017F' := by
    rintro rfl
    exact absurd hc (by decide)
  have hk : c ≠ '\u212A' := by
    rintro rfl
    exact absurd hc (by decide)
  simp [foldUpper, hs, hk]

theorem isAlpha_of_isDecimal {c : Char} (hc : isDecimal c = true) : c.isAlpha = false := by
  have hrange := toNat_of_isDecimal hc
  by_contra halpha
  have halpha := toNat_of_isAlpha (by simpa using halpha)
  omega

end Text

end SelectForm

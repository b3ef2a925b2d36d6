import Mathlib
import SelectForm.Text.Blank
import SelectForm.Text.Letter

/-!
# Characters and their bytes

A character of ASCII is one byte, and every byte of another character is at or above 0x80.  So
the bytes of a text tell where letters, blanks and the characters of names stand, and a place
between a byte that belongs to no name and another byte is a place between two characters.
-/

namespace SelectForm

namespace Text

variable {c d : Char} {byte : UInt8} {text front back : Text}

theorem bytes_append (first second : Text) :
    bytes (first ++ second) = bytes first ++ bytes second :=
  List.flatMap_append

theorem bytes_cons (c : Char) (rest : Text) :
    bytes (c :: rest) = String.utf8EncodeChar c ++ bytes rest :=
  List.flatMap_cons

/-- The byte behind some text is the first one of what follows. -/
theorem byteAt?_size (front back : Text) :
    byteAt? (front ++ back) (size front) = (bytes back)[0]? := by
  rw [byteAt?, bytes_append, ← length_bytes, List.getElem?_append_right le_rfl, Nat.sub_self]

theorem lt_size_of_byteAt? {place : Nat} (hbyte : byteAt? text place = some byte) :
    place < size text := by
  obtain ⟨hplace, -⟩ := List.getElem?_eq_some_iff.mp hbyte
  rwa [length_bytes] at hplace

/-! ## Decoding -/

/-- What follows a character in bytes does not matter to it. -/
theorem eq_of_utf8EncodeChar_append {first second : List UInt8}
    (hbytes : String.utf8EncodeChar c ++ first = String.utf8EncodeChar d ++ second) :
    c = d ∧ first = second := by
  have hdecode : ∀ (c : Char) (rest : List UInt8),
      ByteArray.utf8DecodeChar? (String.utf8EncodeChar c ++ rest).toByteArray 0 = some c := by
    intro c rest
    rw [List.toByteArray_append]
    exact ByteArray.utf8DecodeChar?_utf8EncodeChar_append
  have hchar : c = d := Option.some.inj ((hdecode c first).symm.trans (hbytes ▸ hdecode d second))
  subst hchar
  exact ⟨rfl, List.append_cancel_left hbytes⟩

/-- A text whose bytes begin with those of another text begins with that text. -/
theorem exists_of_bytes_eq_append {more : List UInt8} (hbytes : bytes text = bytes front ++ more) :
    ∃ back, text = front ++ back ∧ bytes back = more := by
  induction front generalizing text with
  | nil => exact ⟨text, rfl, hbytes⟩
  | cons c front ih =>
      cases text with
      | nil =>
          rw [bytes_cons, List.append_assoc] at hbytes
          exact absurd (List.append_eq_nil_iff.mp hbytes.symm).1 String.utf8EncodeChar_ne_nil
      | cons d rest =>
          rw [bytes_cons, bytes_cons, List.append_assoc] at hbytes
          obtain ⟨rfl, hrest⟩ := eq_of_utf8EncodeChar_append hbytes
          obtain ⟨back, rfl, hback⟩ := ih hrest
          exact ⟨back, rfl, hback⟩

/-! ## Bytes of ASCII -/

/-- All bytes of a character are ASCII, or none is. -/
theorem lt_iff_of_mem_utf8EncodeChar (hmem : byte ∈ String.utf8EncodeChar c) :
    byte < 0x80 ↔ c.toNat < 0x80 := by
  have hval : c.val.toNat = c.toNat := rfl
  have hascii : (0x80 : UInt8).toNat = 0x80 := rfl
  rw [UInt8.lt_iff_toNat_lt, hascii]
  simp only [String.utf8EncodeChar, hval] at hmem
  split_ifs at hmem
  · rw [List.mem_singleton.mp hmem, UInt8.toNat_ofNat']
    omega
  all_goals
    simp only [List.mem_cons, List.not_mem_nil, or_false] at hmem
    rcases hmem with rfl | rfl | rfl | rfl <;>
    · rw [UInt8.toNat_ofNat']
      omega

theorem utf8EncodeChar_of_lt (hascii : c.toNat < 0x80) :
    String.utf8EncodeChar c = [UInt8.ofNat c.toNat] := by
  have hall : ∀ n < 0x80, String.utf8EncodeChar (Char.ofNat n) = [UInt8.ofNat n] := by decide
  have hchar := hall c.toNat hascii
  rwa [Char.ofNat_toNat] at hchar

theorem utf8EncodeChar_ofNat (hascii : byte.toNat < 0x80) :
    String.utf8EncodeChar (Char.ofNat byte.toNat) = [byte] := by
  have hall : ∀ n < 0x80, String.utf8EncodeChar (Char.ofNat n) = [UInt8.ofNat n] := by decide
  rw [hall byte.toNat hascii, UInt8.ofNat_toNat]

/-- The character of the number of a byte is ASCII if the byte is. -/
theorem toNat_ofNat_byte (byte : UInt8) : (Char.ofNat byte.toNat).toNat = byte.toNat := by
  have hall : ∀ n < 0x100, (Char.ofNat n).toNat = n := by decide +kernel
  exact hall byte.toNat byte.toNat_lt

/-- A test that holds of every character beyond ASCII holds of a character if it holds of the
characters of the numbers of its bytes. -/
theorem test_byte_of_mem {test : Char → Bool} (htest : ∀ c : Char, 0x80 ≤ c.toNat → test c = true)
    (hmem : byte ∈ String.utf8EncodeChar c) : test (Char.ofNat byte.toNat) = test c := by
  by_cases hascii : c.toNat < 0x80
  · rw [utf8EncodeChar_of_lt hascii, List.mem_singleton] at hmem
    rw [hmem, UInt8.toNat_ofNat', Nat.mod_eq_of_lt (by omega), Char.ofNat_toNat]
  · have hbyte : ¬ byte < 0x80 := fun hlt => hascii ((lt_iff_of_mem_utf8EncodeChar hmem).mp hlt)
    rw [htest c (Nat.le_of_not_lt hascii), htest]
    rw [toNat_ofNat_byte]
    exact UInt8.le_iff_toNat_le.mp (UInt8.not_lt.mp hbyte)

/-- A character has the byte of a character of ASCII only if it is that character. -/
theorem eq_ofNat_iff_of_mem (hmem : byte ∈ String.utf8EncodeChar c) (d : Char)
    (hascii : d.toNat < 0x80) : byte = UInt8.ofNat d.toNat ↔ c = d := by
  constructor
  · rintro rfl
    have hlt := (lt_iff_of_mem_utf8EncodeChar hmem).mp (by
      rw [UInt8.lt_iff_toNat_lt, UInt8.toNat_ofNat', Nat.mod_eq_of_lt (by omega)]
      exact hascii)
    rw [utf8EncodeChar_of_lt hlt, List.mem_singleton] at hmem
    have hnat := congrArg UInt8.toNat hmem
    rw [UInt8.toNat_ofNat', UInt8.toNat_ofNat', Nat.mod_eq_of_lt (by omega),
      Nat.mod_eq_of_lt (by omega)] at hnat
    rw [← Char.ofNat_toNat c, ← hnat, Char.ofNat_toNat]
  · rintro rfl
    rwa [utf8EncodeChar_of_lt hascii, List.mem_singleton] at hmem

/-- A text begins with the byte of a character of ASCII exactly if it begins with that
character. -/
theorem head?_bytes_iff (hascii : c.toNat < 0x80) :
    (bytes text)[0]? = some (UInt8.ofNat c.toNat) ↔ text.head? = some c := by
  cases text with
  | nil => simp [bytes]
  | cons d rest =>
      obtain ⟨byte, more, hencode⟩ :=
        List.exists_cons_of_ne_nil (@String.utf8EncodeChar_ne_nil d)
      have hmem : byte ∈ String.utf8EncodeChar d := hencode ▸ List.mem_cons_self
      rw [bytes_cons, hencode, List.cons_append, List.getElem?_cons_zero, Option.some_inj,
        eq_ofNat_iff_of_mem hmem c hascii, List.head?_cons, Option.some_inj]

/-- The byte behind some text is that of a character of ASCII exactly if the character is there. -/
theorem byteAt?_eq_iff (hascii : c.toNat < 0x80) :
    byteAt? (front ++ back) (size front) = some (UInt8.ofNat c.toNat) ↔ back.head? = some c := by
  rw [byteAt?_size, head?_bytes_iff hascii]

theorem utf8Size_of_lt (hascii : c.toNat < 0x80) : c.utf8Size = 1 := by
  rw [← String.length_utf8EncodeChar, utf8EncodeChar_of_lt hascii, List.length_singleton]

theorem byteAt?_succ_iff (hascii : c.toNat < 0x80) (hnext : d.toNat < 0x80) :
    byteAt? (front ++ c :: back) (size front + 1) = some (UInt8.ofNat d.toNat) ↔
      back.head? = some d := by
  have hsize : size (front ++ [c]) = size front + 1 := by
    rw [size_append, size_cons, utf8Size_of_lt hascii, size_nil]
  have hparts : front ++ c :: back = front ++ [c] ++ back := by simp
  rw [← hsize, hparts, byteAt?_eq_iff hnext]

/-! ### Letters -/

/-- A byte with an ASCII letter in upper case. -/
def upperByte (byte : UInt8) : UInt8 :=
  if 0x61 ≤ byte ∧ byte ≤ 0x7A then byte - 0x20 else byte

theorem utf8EncodeChar_toUpper (c : Char) :
    String.utf8EncodeChar c.toUpper = (String.utf8EncodeChar c).map upperByte := by
  by_cases hascii : c.toNat < 0x80
  · have hall : ∀ n < 0x80, String.utf8EncodeChar (Char.ofNat n).toUpper =
        (String.utf8EncodeChar (Char.ofNat n)).map upperByte := by decide +kernel
    have hchar := hall c.toNat hascii
    rwa [Char.ofNat_toNat] at hchar
  · have hlower : c.isLower = false := by
      rw [Bool.eq_false_iff]
      intro hlower
      simp only [Char.isLower, Bool.and_eq_true, decide_eq_true_eq] at hlower
      have hhigh : c.toNat ≤ 0x7A := UInt32.le_iff_toNat_le.mp hlower.2
      omega
    have hbytes : ∀ byte ∈ String.utf8EncodeChar c, upperByte byte = byte := by
      intro byte hmem
      refine if_neg fun hletter => hascii ((lt_iff_of_mem_utf8EncodeChar hmem).mp ?_)
      exact UInt8.lt_of_le_of_lt hletter.2 (by decide)
    rw [Char.toUpper_eq_of_not_isLower (by simp [hlower]), List.map_congr_left hbytes, List.map_id']

/-- The bytes of a text in capitals are the bytes of the text in upper case. -/
theorem bytes_map_toUpper (text : Text) :
    bytes (text.map Char.toUpper) = (bytes text).map upperByte := by
  induction text with
  | nil => rfl
  | cons c rest ih => rw [List.map_cons, bytes_cons, bytes_cons, List.map_append, ih,
      utf8EncodeChar_toUpper]

/-- Texts that differ in the case of letters only have the same bytes up to case. -/
theorem map_upperByte_congr {first second : Text}
    (hsame : first.map Char.toUpper = second.map Char.toUpper) :
    (bytes first).map upperByte = (bytes second).map upperByte := by
  rw [← bytes_map_toUpper, hsame, bytes_map_toUpper]

/-! ### Names and blanks -/

/-- Bytes to which a keyword must not be glued: those of names, the colon of a parameter, the dot
of a qualified name and all bytes of characters beyond ASCII. -/
def isWordByte (byte : UInt8) : Bool := isWordChar (Char.ofNat byte.toNat)

/-- Space, tab, line feed, form feed and carriage return. -/
def isBlankByte (byte : UInt8) : Bool := isAsciiBlank (Char.ofNat byte.toNat)

theorem isWordChar_of_le (hwide : 0x80 ≤ c.toNat) : isWordChar c = true := by
  simp [isWordChar, hwide]

theorem isWordByte_of_mem (hmem : byte ∈ String.utf8EncodeChar c) :
    isWordByte byte = isWordChar c :=
  test_byte_of_mem (fun _ => isWordChar_of_le) hmem

theorem isBlankByte_of_mem (hblank : ∀ c ∈ text, isAsciiBlank c = true) (hmem : byte ∈ bytes text) :
    isBlankByte byte = true := by
  obtain ⟨c, hc, hbyte⟩ := List.mem_flatMap.mp hmem
  have hascii := hblank c hc
  simp only [isAsciiBlank, Bool.or_eq_true, beq_iff_eq] at hascii
  rcases hascii with (((rfl | rfl) | rfl) | rfl) | rfl <;>
    obtain rfl := List.mem_singleton.mp hbyte <;> decide

theorem exists_of_isBlankByte {gap : List UInt8} (hgap : ∀ byte ∈ gap, isBlankByte byte = true) :
    ∃ blanks, gap = bytes blanks ∧ ∀ c ∈ blanks, isAsciiBlank c = true := by
  refine ⟨gap.map fun byte => Char.ofNat byte.toNat, ?_, ?_⟩
  · induction gap with
    | nil => rfl
    | cons byte gap ih =>
        obtain ⟨hbyte, hgap⟩ := List.forall_mem_cons.mp hgap
        have hascii : byte.toNat < 0x80 := by
          have hblank := hbyte
          simp only [isBlankByte, isAsciiBlank, Bool.or_eq_true, beq_iff_eq] at hblank
          rw [← toNat_ofNat_byte]
          rcases hblank with (((h | h) | h) | h) | h <;> rw [h] <;> decide
        rw [List.map_cons, bytes_cons, utf8EncodeChar_ofNat hascii, ← ih hgap]
        rfl
  · exact List.forall_mem_map.mpr hgap

/-! ## Places between characters -/

/-- A place between two characters of a text, or one of its ends. -/
def IsBoundary (text : Text) (place : Nat) : Prop :=
  ∃ front back, text = front ++ back ∧ size front = place

/-- A place in a text is between two characters or inside of one. -/
theorem exists_at {place : Nat} (hplace : place ≤ size text) :
    (∃ front back, text = front ++ back ∧ size front = place) ∨
      ∃ front c back, text = front ++ c :: back ∧ size front < place ∧
        place < size front + c.utf8Size := by
  induction text generalizing place with
  | nil => exact .inl ⟨[], [], rfl, (Nat.le_zero.mp hplace).symm⟩
  | cons c rest ih =>
      rcases Nat.eq_zero_or_pos place with rfl | hpos
      · exact .inl ⟨[], c :: rest, rfl, rfl⟩
      · by_cases hinside : place < c.utf8Size
        · exact .inr ⟨[], c, rest, rfl, hpos, by simpa using hinside⟩
        · rw [size_cons] at hplace
          rcases @ih (place - c.utf8Size) (by omega) with
            ⟨front, back, rfl, hsize⟩ | ⟨front, d, back, rfl, hstart, hstop⟩
          · exact .inl ⟨c :: front, back, rfl, by rw [size_cons]; omega⟩
          · exact .inr ⟨c :: front, d, back, rfl, by rw [size_cons]; omega,
              by rw [size_cons]; omega⟩

theorem exists_byteAt?_of_mem {place : Nat} (hstart : size front ≤ place)
    (hstop : place < size front + c.utf8Size) :
    ∃ byte ∈ String.utf8EncodeChar c, byteAt? (front ++ c :: back) place = some byte := by
  have hlength := String.length_utf8EncodeChar c
  have hplace : place - size front < (String.utf8EncodeChar c).length := by omega
  refine ⟨_, List.getElem_mem hplace, ?_⟩
  rw [byteAt?, bytes_append, List.getElem?_append_right (by rwa [length_bytes]), length_bytes,
    bytes_cons, List.getElem?_append_left hplace, List.getElem?_eq_getElem hplace]

/-- Both bytes around a place inside a character are bytes of names. -/
theorem isWordByte_inside {place : Nat} (hstart : size front < place)
    (hstop : place < size front + c.utf8Size) :
    ∃ first second, byteAt? (front ++ c :: back) (place - 1) = some first ∧
      byteAt? (front ++ c :: back) place = some second ∧ isWordByte first = true ∧
        isWordByte second = true := by
  have hwide : 0x80 ≤ c.toNat := by
    by_contra hascii
    have hsize := String.length_utf8EncodeChar c
    rw [utf8EncodeChar_of_lt (Nat.lt_of_not_le hascii), List.length_singleton] at hsize
    omega
  obtain ⟨first, hfirst, hfirstAt⟩ :=
    @exists_byteAt?_of_mem c front back (place - 1) (by omega) (by omega)
  obtain ⟨second, hsecond, hsecondAt⟩ := @exists_byteAt?_of_mem c front back place hstart.le hstop
  refine ⟨first, second, hfirstAt, hsecondAt, ?_, ?_⟩
  · rw [isWordByte_of_mem hfirst, isWordChar_of_le hwide]
  · rw [isWordByte_of_mem hsecond, isWordChar_of_le hwide]

/-- The byte in front of a place is one of the character there. -/
theorem byteAt?_before (hne : front ≠ []) :
    ∃ byte, byteAt? (front ++ back) (size front - 1) = some byte ∧
      front.getLast?.any isWordChar = isWordByte byte := by
  obtain rfl | ⟨init, c, rfl⟩ := List.eq_nil_or_concat front
  · exact absurd rfl hne
  have hc := c.utf8Size_pos
  have hsize : size (init ++ [c]) = size init + c.utf8Size := by simp
  obtain ⟨byte, hbyte, hat⟩ := @exists_byteAt?_of_mem c init back (size (init ++ [c]) - 1)
    (by omega) (by omega)
  refine ⟨byte, ?_, ?_⟩
  · rwa [List.concat_eq_append, List.append_assoc, List.singleton_append]
  · rw [List.concat_eq_append, List.getLast?_concat, Option.any_some, isWordByte_of_mem hbyte]

/-- The byte behind a place is one of the character there. -/
theorem byteAt?_behind (hne : back ≠ []) :
    ∃ byte, byteAt? (front ++ back) (size front) = some byte ∧
      back.head?.any isWordChar = isWordByte byte := by
  obtain ⟨c, rest, rfl⟩ := List.exists_cons_of_ne_nil hne
  have hc := c.utf8Size_pos
  obtain ⟨byte, hbyte, hat⟩ := @exists_byteAt?_of_mem c front rest (size front) le_rfl (by omega)
  refine ⟨byte, hat, ?_⟩
  rw [List.head?_cons, Option.any_some, isWordByte_of_mem hbyte]

end Text

end SelectForm

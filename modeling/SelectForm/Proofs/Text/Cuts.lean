import Mathlib
import SelectForm.Proofs.Text.Bytes
import SelectForm.Text.Fragment

/-!
# Cuts between characters

A slice of a text shows replacement characters where one of its places falls inside a character.  A
cut is stricter: it is there only if its places are in order, none is behind the end of the text,
and both are between characters.
-/

namespace SelectForm

namespace Text

variable {text front middle back : Text} {first last place count : Nat}

/-! ## Ranges -/

/-- Two places of a text, in order, both between characters. -/
structure IsRange (text : Text) (first last : Nat) : Prop where
  ordered : first ≤ last
  inside : last ≤ size text
  first : text.IsBoundary first
  last : text.IsBoundary last

theorem isRange_iff : text.IsRange first last ↔
    ∃ front middle back, text = front ++ (middle ++ back) ∧ size front = first ∧
      size front + size middle = last := by
  constructor
  · rintro ⟨hle, -, ⟨front, back, htext, rfl⟩, ⟨front', back', htext', rfl⟩⟩
    obtain ⟨middle, rfl, rfl⟩ | ⟨middle, rfl, rfl⟩ :=
      List.append_eq_append_iff.mp (htext.symm.trans htext')
    · exact ⟨front, middle, back', htext, rfl, (size_append _ _).symm⟩
    · rw [size_append] at hle
      obtain rfl : middle = [] := by
        cases middle with
        | nil => rfl
        | cons c middle =>
            have hc := c.utf8Size_pos
            rw [size_cons] at hle
            omega
      exact ⟨front', [], back, by simpa using htext, by simp, by simp⟩
  · rintro ⟨front, middle, back, rfl, rfl, rfl⟩
    refine ⟨Nat.le_add_right _ _, ?_, ⟨front, _, rfl, rfl⟩, ⟨front ++ middle, back, ?_, ?_⟩⟩
    · simp only [size_append]
      omega
    · rw [List.append_assoc]
    · rw [size_append]

/-! ## Cuts -/

/-- What is behind a number of bytes, if they are whole characters. -/
def drop? : Text → Nat → Option Text
  | text, 0 => some text
  | [], _ + 1 => none
  | c :: rest, count + 1 =>
    if c.utf8Size ≤ count + 1 then drop? rest (count + 1 - c.utf8Size) else none

/-- The first bytes of a text, if they are whole characters. -/
def take? : Text → Nat → Option Text
  | _, 0 => some []
  | [], _ + 1 => none
  | c :: rest, count + 1 =>
    if c.utf8Size ≤ count + 1 then
      (take? rest (count + 1 - c.utf8Size)).map (c :: ·)
    else
      none

/-- The text between two places that are in order and between characters. -/
def cut? (text : Text) (first last : Nat) : Option Text :=
  if first ≤ last then (text.drop? first).bind fun rest => take? rest (last - first) else none

theorem exists_size_cons (c : Char) (front : Text) :
    ∃ count, size (c :: front) = count + 1 ∧ c.utf8Size ≤ count + 1 ∧
      count + 1 - c.utf8Size = size front := by
  obtain ⟨count, hcount⟩ := Nat.exists_eq_succ_of_ne_zero c.utf8Size_pos.ne'
  refine ⟨count + size front, ?_, ?_, ?_⟩
  · rw [size_cons, hcount]
    omega
  · omega
  · omega

theorem drop?_append (front back : Text) : drop? (front ++ back) (size front) = some back := by
  induction front with
  | nil => cases back <;> rfl
  | cons c front ih =>
      obtain ⟨count, hsize, hinside, hrest⟩ := exists_size_cons c front
      rw [hsize, List.cons_append, drop?, if_pos hinside, hrest, ih]

theorem take?_append (front back : Text) : take? (front ++ back) (size front) = some front := by
  induction front with
  | nil => cases back <;> rfl
  | cons c front ih =>
      obtain ⟨count, hsize, hinside, hrest⟩ := exists_size_cons c front
      rw [hsize, List.cons_append, take?, if_pos hinside, hrest, ih]
      rfl

theorem exists_of_drop? (hdrop : text.drop? count = some back) :
    ∃ front, text = front ++ back ∧ size front = count := by
  fun_induction drop? text count with
  | case1 text => exact ⟨[], Option.some.inj hdrop, rfl⟩
  | case2 count => contradiction
  | case3 c rest count hle ih =>
      obtain ⟨front, rfl, hsize⟩ := ih hdrop
      exact ⟨c :: front, rfl, by rw [size_cons]; omega⟩
  | case4 c rest count hle => contradiction

theorem exists_of_take? (htake : text.take? count = some front) :
    ∃ back, text = front ++ back ∧ size front = count := by
  fun_induction take? text count generalizing front with
  | case1 text =>
      obtain rfl := Option.some.inj htake
      exact ⟨text, rfl, rfl⟩
  | case2 count => contradiction
  | case3 c rest count hle ih =>
      obtain ⟨front, hfront, rfl⟩ := Option.map_eq_some_iff.mp htake
      obtain ⟨back, rfl, hsize⟩ := ih hfront
      exact ⟨back, rfl, by rw [size_cons]; omega⟩
  | case4 c rest count hle => contradiction

/-- A text is cut into what is in front of two places, between them and behind them. -/
theorem cut?_eq_some_iff : text.cut? first last = some middle ↔
    ∃ front back, text = front ++ (middle ++ back) ∧ size front = first ∧
      size front + size middle = last := by
  rw [cut?]
  constructor
  · intro hcut
    rw [Option.ite_none_right_eq_some, Option.bind_eq_some_iff] at hcut
    obtain ⟨hle, rest, hdrop, htake⟩ := hcut
    obtain ⟨front, rfl, hfront⟩ := exists_of_drop? hdrop
    obtain ⟨back, rfl, hmiddle⟩ := exists_of_take? htake
    exact ⟨front, back, rfl, hfront, by omega⟩
  · rintro ⟨front, back, rfl, rfl, rfl⟩
    rw [if_pos (Nat.le_add_right _ _), drop?_append, Option.bind_some, Nat.add_sub_cancel_left,
      take?_append]

theorem cut?_append (front middle back : Text) :
    cut? (front ++ (middle ++ back)) (size front) (size front + size middle) = some middle :=
  cut?_eq_some_iff.mpr ⟨front, back, rfl, rfl, rfl⟩

theorem cut?_front (front back : Text) : cut? (front ++ back) 0 (size front) = some front :=
  cut?_eq_some_iff.mpr ⟨[], back, rfl, rfl, Nat.zero_add _⟩

theorem cut?_back (front back : Text) :
    cut? (front ++ back) (size front) (size (front ++ back)) = some back :=
  cut?_eq_some_iff.mpr ⟨front, [], by rw [List.append_nil], rfl, (size_append _ _).symm⟩

theorem cut?_whole (text : Text) : cut? text 0 (size text) = some text :=
  cut?_back [] text

/-- There is a cut between two places exactly if they make a range. -/
theorem isSome_cut?_iff : (text.cut? first last).isSome = true ↔ text.IsRange first last := by
  rw [Option.isSome_iff_exists, isRange_iff]
  constructor
  · rintro ⟨middle, hcut⟩
    obtain ⟨front, back, hparts⟩ := cut?_eq_some_iff.mp hcut
    exact ⟨front, middle, back, hparts⟩
  · rintro ⟨front, middle, back, hparts⟩
    exact ⟨middle, cut?_eq_some_iff.mpr ⟨front, back, hparts⟩⟩

/-! ## Loops over bytes -/

/-- A loop that goes on to the next byte at each byte of a character passes over what is left of
the character. -/
theorem pass_within {β : Type} {loop : Nat → β} {c : Char} {first : Nat} (front back : Text)
    (hfirst : size front ≤ first) (hlast : first ≤ size front + c.utf8Size)
    (hstep : ∀ place byte, first ≤ place → place < size front + c.utf8Size →
      byteAt? (front ++ c :: back) place = some byte → byte ∈ String.utf8EncodeChar c →
        loop place = loop (place + 1)) :
    loop first = loop (size front + c.utf8Size) := by
  have hpass : ∀ count, first + count ≤ size front + c.utf8Size →
      loop first = loop (first + count) := by
    intro count hcount
    induction count with
    | zero => rfl
    | succ count ih =>
        obtain ⟨byte, hmem, hbyte⟩ := @exists_byteAt?_of_mem c front back (first + count)
          (by omega) (by omega)
        rw [ih (by omega), hstep _ byte (Nat.le_add_right _ _) (by omega) hbyte hmem, Nat.add_assoc]
  have hall := hpass (size front + c.utf8Size - first) (by omega)
  rwa [Nat.add_sub_cancel' hlast] at hall

/-- A loop that goes on to the next byte at each byte of a character passes over the character. -/
theorem pass_char {β : Type} {loop : Nat → β} {c : Char} (front back : Text)
    (hstep : ∀ place byte, size front ≤ place → place < size front + c.utf8Size →
      byteAt? (front ++ c :: back) place = some byte → byte ∈ String.utf8EncodeChar c →
        loop place = loop (place + 1)) :
    loop (size front) = loop (size front + c.utf8Size) :=
  pass_within front back le_rfl (Nat.le_add_right _ _) hstep

end Text

end SelectForm

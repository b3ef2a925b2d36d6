import Mathlib
import SelectForm.Proofs.Statement.CursorPlace
import SelectForm.Proofs.Statement.PlacedError

/-!
# Errors at cursors

A cursor that begins at the front of a text and moves over whole characters never stands
inside one.  An error between two of its places shows the text between them, and one byte
more.
-/

namespace SelectForm

theorem Text.slice_append_front (front back : Text) (count : Nat) :
    slice (front ++ back) (size front) (size front + count) = slice back 0 count := by
  induction front with
  | nil => simp
  | cons c front ih =>
      have hc := c.utf8Size_pos
      cases count with
      | zero => rw [slice_of_le _ (by simp), slice_of_le _ (by simp)]
      | succ count =>
          rw [List.cons_append, slice, size_cons, if_neg (by omega), if_pos (by omega),
            Nat.add_sub_cancel_left, Nat.add_assoc, Nat.add_sub_cancel_left, ih]

theorem Text.slice_front_append (front back : Text) (count : Nat) :
    slice (front ++ back) 0 (size front + count) = front ++ slice back 0 count := by
  induction front with
  | nil => simp
  | cons c front ih =>
      have hc := c.utf8Size_pos
      rw [List.cons_append, slice, size_cons, if_neg (by omega), if_neg (by omega), if_pos rfl,
        if_pos (by omega), Nat.add_assoc, Nat.add_sub_cancel_left, ih, List.cons_append]

/-- Only a character of ASCII has the first byte of one. -/
theorem Text.eq_cons_of_byte {text : Text} {byte : UInt8} (hbyte : (bytes text)[0]? = some byte)
    (hascii : byte.toNat < 0x80) : ∃ rest, text = Char.ofNat byte.toNat :: rest := by
  cases text with
  | nil => simp [bytes] at hbyte
  | cons c rest =>
      have hfirst : (String.utf8EncodeChar c)[0]? = some byte := by
        rw [bytes, List.flatMap_cons, List.getElem?_append_left] at hbyte
        · exact hbyte
        · rw [String.length_utf8EncodeChar]
          exact c.utf8Size_pos
      refine ⟨rest, ?_⟩
      congr 1
      have hval : c.val.toNat = c.toNat := rfl
      simp only [String.utf8EncodeChar, hval] at hfirst
      split at hfirst
      · rename_i hsmall
        simp only [List.getElem?_cons_zero, Option.some.injEq] at hfirst
        rw [← hfirst, UInt8.toNat_ofNat', Nat.mod_eq_of_lt (by omega), Char.ofNat_toNat]
      · exfalso
        split at hfirst
        · simp only [List.getElem?_cons_zero, Option.some.injEq] at hfirst
          rw [← hfirst, UInt8.toNat_ofNat'] at hascii
          omega
        · split at hfirst
          all_goals
            simp only [List.getElem?_cons_zero, Option.some.injEq] at hfirst
            rw [← hfirst, UInt8.toNat_ofNat'] at hascii
            omega

namespace Cursor

/-- A cursor before a character of its text, which lies in a larger text. -/
structure WalksIn (whole : Text) (cursor : Cursor) : Prop where
  lies : (Fragment.mk cursor.text cursor.offset).LiesIn whole
  boundary : ∃ front back, cursor.text = front ++ back ∧ cursor.position = Text.size front

variable {whole : Text} {cursor : Cursor}

namespace WalksIn

theorem exists_ahead (hwalks : cursor.WalksIn whole) :
    cursor.ahead.cut = 0 ∧ ∃ front, cursor.text = front ++ Cell.text cursor.ahead.cells ∧
      cursor.position = Text.size front := by
  obtain ⟨front, back, htext, hposition⟩ := hwalks.boundary
  obtain ⟨hcut, hback⟩ := ahead_of_boundary htext hposition.symm
  exact ⟨hcut, front, hback ▸ htext, hposition⟩

theorem jump (hwalks : cursor.WalksIn whole) {piece : Text}
    (hpiece : piece <+: Cell.text cursor.ahead.cells) :
    (cursor.jump (Text.size piece)).WalksIn whole ∧
      (cursor.jump (Text.size piece)).position = cursor.position + Text.size piece := by
  obtain ⟨-, front, htext, hposition⟩ := hwalks.exists_ahead
  obtain ⟨rest, hrest⟩ := hpiece
  rw [← hrest] at htext
  have hlength : cursor.length = Text.size front + (Text.size piece + Text.size rest) := by
    rw [length, htext, Text.size_append, Text.size_append]
  have hmoved : (cursor.jump (Text.size piece)).position = cursor.position + Text.size piece := by
    rw [Cursor.jump, hlength]
    exact min_eq_left (by omega)
  refine ⟨⟨hwalks.lies, front ++ piece, rest, ?_, ?_⟩, hmoved⟩
  · rw [List.append_assoc]
    exact htext
  · rw [hmoved, hposition, Text.size_append]

theorem skipWhile (hwalks : cursor.WalksIn whole) (test : Char → Bool) :
    (cursor.skipWhile test).WalksIn whole :=
  (hwalks.jump (List.takeWhile_prefix test)).1

theorem skipBlanks (hwalks : cursor.WalksIn whole) : cursor.skipBlanks.WalksIn whole := by
  rw [Cursor.skipBlanks]
  split
  · exact hwalks.skipWhile _
  · exact hwalks

theorem consume (hwalks : cursor.WalksIn whole) {keyword : Keyword} {found : Bool} {moved : Cursor}
    (hconsume : cursor.consume keyword = (found, moved)) : moved.WalksIn whole := by
  rw [Cursor.consume] at hconsume
  split at hconsume
  · obtain ⟨-, rfl⟩ := Prod.mk.inj hconsume
    exact (hwalks.jump ((List.take_prefix _ _).map _)).1
  · obtain ⟨-, rfl⟩ := Prod.mk.inj hconsume
    exact hwalks

/-- An error between a place and the place behind some characters. -/
theorem error (hwalks : cursor.WalksIn whole) {piece : Text}
    (hpiece : piece <+: Cell.text cursor.ahead.cells) {cause : ParseError.Cause}
    (hexact : cause.placement = .exact) :
    ((cursor.jump (Text.size piece)).error cursor.position cause).PlacedIn whole := by
  obtain ⟨-, hmoved⟩ := hwalks.jump hpiece
  obtain ⟨-, front, htext, hposition⟩ := hwalks.exists_ahead
  obtain ⟨rest, hrest⟩ := hpiece
  obtain ⟨before, behind, hwhole, hstart⟩ := hwalks.lies
  have hoffset : cursor.offset = Text.size before := hstart
  rw [← hrest] at htext
  have hlength : cursor.length = Text.size front + (Text.size piece + Text.size rest) := by
    rw [length, htext, Text.size_append, Text.size_append]
  have habsolute : ∀ position ≤ cursor.length,
      cursor.absolute position = cursor.offset + position :=
    fun position hle => by rw [absolute, min_eq_left hle]
  refine .of_shows hexact ⟨before ++ front, piece, rest ++ behind, piece, Text.slice rest 0 1,
    ?_, ?_, rfl, ?_, ?_⟩
  · rw [hwhole, htext]
    simp
  · have hslice := Text.slice_append_front front (piece ++ rest) (Text.size piece + 1)
    rw [Text.slice_front_append] at hslice
    rw [Cursor.error, hmoved, hposition, Nat.add_assoc]
    show Text.slice cursor.text _ _ = _
    rw [htext, hslice]
  · show cursor.absolute cursor.position = _
    rw [habsolute _ (by omega), hoffset, hposition, Text.size_append]
  · show cursor.absolute (cursor.jump (Text.size piece)).position = _
    rw [habsolute _ (by omega), hoffset, hmoved, hposition, Text.size_append, Nat.add_assoc]

/-- The text ahead of a cursor lies in the larger text. -/
theorem rest (hwalks : cursor.WalksIn whole) :
    (Fragment.mk (Cell.text cursor.ahead.cells)
      (cursor.absolute cursor.position)).LiesIn whole := by
  obtain ⟨-, front, htext, hposition⟩ := hwalks.exists_ahead
  have hlies := hwalks.lies
  have hle : cursor.position ≤ cursor.length := by
    rw [length, htext, Text.size_append, hposition]
    omega
  rw [htext, ← List.append_nil (Cell.text _)] at hlies
  rw [absolute, min_eq_left hle, hposition]
  exact hlies.part

theorem exists_cons_of_current (hwalks : cursor.WalksIn whole) {c : Char}
    (hcurrent : cursor.current = c) (hascii : c.toNat < 0x80) (hnull : c ≠ '\x00') :
    ∃ rest, Cell.text cursor.ahead.cells = c :: rest := by
  obtain ⟨-, front, htext, hposition⟩ := hwalks.exists_ahead
  have hbyte := Text.byteAt?_size front (Cell.text cursor.ahead.cells)
  rw [← htext, ← hposition] at hbyte
  rw [current, peek, Nat.add_zero, hbyte] at hcurrent
  split at hcurrent
  · rename_i byte hfirst
    subst hcurrent
    refine Text.eq_cons_of_byte hfirst ?_
    have hvalid : byte.toNat.isValidChar := .inl (by have := byte.toNat_lt; omega)
    rwa [Char.toNat_ofNat, if_pos hvalid] at hascii
  · exact absurd hcurrent.symm hnull

end WalksIn

end Cursor

/-! ## LIMIT and OFFSET -/

variable {whole : Text} {cursor : Cursor}

theorem Cursor.WalksIn.jump_zero (hwalks : cursor.WalksIn whole) : cursor.jump 0 = cursor := by
  obtain ⟨-, front, htext, hposition⟩ := hwalks.exists_ahead
  have hle : cursor.position ≤ cursor.length := by
    rw [Cursor.length, htext, Text.size_append, hposition]
    omega
  rw [Cursor.jump, Nat.add_zero, min_eq_left hle]

/-- A word is read from a cursor to the place behind it. -/
theorem Reader.placesErrors_word (hwalks : cursor.WalksIn whole) :
    PlacesErrors whole (Reader.word cursor).1 ∧ ∃ piece, piece <+: Cell.text cursor.ahead.cells ∧
      (Reader.word cursor).2 = cursor.jump (Text.size piece) := by
  have hpiece := List.takeWhile_prefix (l := Cell.text cursor.ahead.cells) Text.isWordChar
  have hstopped : (cursor.jump cursor.ahead.cut).skipWhile Text.isWordChar =
      cursor.jump (Text.size ((Cell.text cursor.ahead.cells).takeWhile Text.isWordChar)) := by
    rw [hwalks.exists_ahead.1, hwalks.jump_zero, Cursor.skipWhile]
  rw [Reader.word]
  rw [hstopped]
  split
  · exact ⟨.ok _, _, hpiece, rfl⟩
  · exact ⟨.error (hwalks.error hpiece rfl), _, hpiece, rfl⟩

namespace Paging

theorem placesErrors_readNumber {keyword : String} (hwalks : cursor.WalksIn whole) :
    PlacesErrors whole (readNumber keyword cursor).1 ∧
      (readNumber keyword cursor).2.WalksIn whole := by
  have hstart := hwalks.skipBlanks
  rw [readNumber]
  dsimp only
  generalize cursor.skipBlanks = start at hstart
  split
  · rename_i hmark
    obtain ⟨rest, hrest⟩ := hstart.exists_cons_of_current hmark (by decide) (by decide)
    have hpiece : ['?'] <+: Cell.text start.ahead.cells := ⟨rest, hrest.symm⟩
    exact ⟨.error (hstart.error hpiece rfl), (hstart.jump hpiece).1⟩
  · obtain ⟨hword, piece, hpiece, hbehind⟩ := Reader.placesErrors_word hstart
    have hmoved := (hstart.jump hpiece).1
    generalize Reader.word start = found at hword hbehind
    obtain ⟨result, behind⟩ := found
    obtain rfl : behind = start.jump (Text.size piece) := hbehind
    split
    · rename_i error behind hfound
      obtain ⟨rfl, rfl⟩ := Prod.mk.inj hfound
      exact ⟨.error (hword _ rfl), hmoved⟩
    · rename_i word behind hfound
      obtain ⟨rfl, rfl⟩ := Prod.mk.inj hfound
      split
      · exact ⟨.error (hstart.error hpiece rfl), hmoved⟩
      · split
        · exact ⟨.error (hstart.error hpiece rfl), hmoved⟩
        · split
          · exact ⟨.ok _, hmoved⟩
          · exact ⟨.error (hstart.error hpiece rfl), hmoved⟩

theorem placesErrors_readWithin (bound : Nat) (paging : Paging) (hwalks : cursor.WalksIn whole) :
    PlacesErrors whole (readWithin bound paging cursor).1 := by
  induction bound generalizing paging cursor with
  | zero => exact .ok paging
  | succ bound ih =>
      have hstart := hwalks.skipBlanks
      rw [readWithin]
      generalize cursor.skipBlanks = start at hstart
      split
      · exact .ok paging
      · split
        · rename_i behind hconsume
          obtain ⟨herrors, hmoved⟩ := @placesErrors_readNumber _ _ "LIMIT" (hstart.consume hconsume)
          split
          · rename_i number behind hnumber
            rw [hnumber] at hmoved
            exact ih _ hmoved
          · rename_i error behind hnumber
            rw [hnumber] at herrors
            exact .error (herrors error rfl)
        · split
          · rename_i behind hconsume
            obtain ⟨herrors, hmoved⟩ :=
              @placesErrors_readNumber _ _ "OFFSET" (hstart.consume hconsume)
            split
            · rename_i number behind hnumber
              rw [hnumber] at hmoved
              exact ih _ hmoved
            · rename_i error behind hnumber
              rw [hnumber] at herrors
              exact .error (herrors error rfl)
          · have hempty : ((start.jump (Text.size [])).error start.position
                .invalidPaging).PlacedIn whole := hstart.error List.nil_prefix rfl
            rw [Text.size_nil, hstart.jump_zero] at hempty
            exact .error hempty

end Paging

end SelectForm

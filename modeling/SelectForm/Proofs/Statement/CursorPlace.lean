import Mathlib
import SelectForm.Statement.Cursor
import SelectForm.Proofs.Statement.Split
import SelectForm.Proofs.Text.Bytes

/-!
# Cursors between pieces

A reader that walks over a written text always stands between two of its pieces.
What is ahead of such a cursor are the cells of the pieces behind it, and each way
to move takes it over some of them, so positions in bytes need not be followed.
-/

namespace SelectForm

/-! ## Slices -/

namespace Text

theorem slice_of_le (text : Text) {first last : Nat} (hle : last ≤ first) :
    slice text first last = [] := by
  cases text with
  | nil => rfl
  | cons c rest => rw [slice, if_pos hle]

theorem slice_front (front back : Text) : slice (front ++ back) 0 (size front) = front := by
  induction front with
  | nil => exact slice_of_le back le_rfl
  | cons c front ih =>
      have hc := c.utf8Size_pos
      rw [List.cons_append, slice, size_cons, if_neg (by omega), if_neg (by omega), if_pos rfl,
        if_pos (by omega), Nat.add_sub_cancel_left, ih]

theorem slice_append (front middle back : Text) :
    slice (front ++ (middle ++ back)) (size front) (size front + size middle) = middle := by
  induction front with
  | nil =>
      rw [List.nil_append, size_nil, Nat.zero_add]
      exact slice_front middle back
  | cons c front ih =>
      by_cases hempty : size middle = 0
      · cases middle with
        | nil => exact slice_of_le _ (by simp)
        | cons d middle =>
            have hd := d.utf8Size_pos
            rw [size_cons] at hempty
            omega
      · rw [List.cons_append, slice, size_cons, if_neg (by omega), if_pos (by omega),
          Nat.add_sub_cancel_left, Nat.add_assoc, Nat.add_sub_cancel_left, ih]

end Text

namespace Ahead

theorem seek_cons {before : Option Char} {cell : Cell} {rest : List Cell} {count : Nat}
    (hcount : cell.char.utf8Size ≤ count) :
    seek before (cell :: rest) count = seek (some cell.char) rest (count - cell.char.utf8Size) := by
  have hpos := cell.char.utf8Size_pos
  cases count with
  | zero => omega
  | succ count => rw [seek, if_pos hcount]

/-- Passing over some characters leads to what is behind them. -/
theorem seek_append (before : Option Char) (front rest : List Cell) :
    seek before (front ++ rest) (Text.size (Cell.text front)) =
      ⟨(Cell.text front).getLast?.or before, 0, rest⟩ := by
  induction front generalizing before with
  | nil => cases rest <;> rfl
  | cons cell front ih =>
      have htext : Cell.text (cell :: front) = cell.char :: Cell.text front := rfl
      rw [htext, Text.size_cons, List.cons_append, seek_cons (Nat.le_add_right _ _),
        Nat.add_sub_cancel_left, ih, Text.getLast?_cons_or]

end Ahead

/-! ## The two ends -/

namespace Cursor

theorem atEnd_finish (cursor : Cursor) : cursor.finish.atEnd = true := by
  have hlength : cursor.finish.length = cursor.length := rfl
  have hposition : cursor.finish.position = min (cursor.position + cursor.length) cursor.length := rfl
  rw [atEnd, decide_eq_true_iff, hlength, hposition, min_eq_right (Nat.le_add_left _ _)]

theorem ahead_start {cursor : Cursor} (hposition : cursor.position = 0) :
    cursor.ahead = ⟨none, 0, cursor.text.cells⟩ := by
  rw [ahead, hposition]
  cases cursor.text.cells <;> rfl

/-- Nothing is cut between two characters, and what is ahead is the text from there on. -/
theorem ahead_of_boundary {cursor : Cursor} {front back : Text} (htext : cursor.text = front ++ back)
    (hposition : Text.size front = cursor.position) :
    cursor.ahead.cut = 0 ∧ Cell.text cursor.ahead.cells = back := by
  have hcells : Cell.text cursor.text.cells = front ++ back := (Mode.text_cells _ _).trans htext
  obtain ⟨first, rest, hsplit, rfl, rfl⟩ := List.map_eq_append_iff.mp hcells
  have hahead : cursor.ahead = ⟨(Cell.text first).getLast?.or none, 0, rest⟩ := by
    rw [ahead, hsplit, ← hposition]
    exact Ahead.seek_append none first rest
  rw [hahead]
  exact ⟨rfl, rfl⟩

theorem restFragment_start {cursor : Cursor} (hposition : cursor.position = 0) :
    cursor.restFragment = ⟨cursor.text, cursor.offset⟩ := by
  rw [restFragment, rest, ahead_start hposition, absolute, hposition, Nat.zero_min, if_pos rfl,
    Text.cells, Mode.text_cells]
  rfl

theorem current_of_text {cursor : Cursor} {front rest : Text} {c : Char}
    (htext : cursor.text = front ++ c :: rest) (hposition : cursor.position = Text.size front)
    (hascii : c.toNat < 0x80) : cursor.current = c := by
  have hsize : c.utf8Size = 1 := by
    rw [Char.utf8Size_eq_one_iff, UInt32.le_iff_toNat_le]
    exact Nat.le_of_lt_succ hascii
  have hbyte : (Text.bytes (c :: rest))[0]? = some c.val.toUInt8 := by
    rw [Text.bytes, List.flatMap_cons, String.utf8EncodeChar_eq_singleton hsize]
    rfl
  have hcode : c.val.toUInt8.toNat = c.toNat := by
    rw [UInt32.toNat_toUInt8]
    exact Nat.mod_eq_of_lt (by
      have hval : c.val.toNat = c.toNat := rfl
      omega)
  rw [current, peek, Nat.add_zero, htext, hposition, Text.byteAt?_size, hbyte]
  simp only [hcode, Char.ofNat_toNat]

end Cursor

/-! ## Places -/

namespace Cursor

open Lexeme

/-- A cursor between two parts of its text, whose cells are the cells of the parts. -/
structure Stands (cursor : Cursor) (front back : List Lexeme) : Prop where
  text : cursor.text = textOf (front ++ back)
  position : cursor.position = Text.size (textOf front)
  cells : cursor.text.cells = cellsOf true (front ++ back)

variable {cursor : Cursor} {front piece back : List Lexeme}

namespace Stands

theorem ahead_eq (hstands : cursor.Stands front back) :
    cursor.ahead = ⟨lastOf none front, 0, cellsOf (freshBehind true front) back⟩ := by
  rw [ahead, hstands.cells, hstands.position, cellsOf_append, ← text_cellsOf true front,
    Ahead.seek_append, text_cellsOf, lastOf_eq]

theorem length_eq (hstands : cursor.Stands front back) :
    cursor.length = Text.size (textOf front) + Text.size (textOf back) := by
  rw [length, hstands.text, textOf_append, Text.size_append]

theorem atEnd_eq (hstands : cursor.Stands front back) (hback : textOf back ≠ []) :
    cursor.atEnd = false := by
  obtain ⟨c, rest, hrest⟩ := List.exists_cons_of_ne_nil hback
  have hc := c.utf8Size_pos
  have hlength := hstands.length_eq
  rw [hrest, Text.size_cons] at hlength
  rw [atEnd, hstands.position, decide_eq_false_iff_not]
  omega

theorem atEnd_nil (hstands : cursor.Stands front []) : cursor.atEnd = true := by
  have hlength := hstands.length_eq
  rw [atEnd, hstands.position, decide_eq_true_eq, hlength]
  exact le_rfl

theorem current_eq (hstands : cursor.Stands front back) {c : Char} {rest : Text}
    (hback : textOf back = c :: rest) (hascii : c.toNat < 0x80) : cursor.current = c := by
  have htext := hstands.text
  rw [textOf_append, hback] at htext
  exact current_of_text htext hstands.position hascii

theorem current_nil (hstands : cursor.Stands front []) : cursor.current = '\x00' := by
  rw [current, peek, Nat.add_zero, hstands.text, hstands.position, textOf_append,
    Text.byteAt?_size]
  rfl

/-! ### Moving -/

theorem jump (hstands : cursor.Stands front (piece ++ back)) :
    (cursor.jump (Text.size (textOf piece))).Stands (front ++ piece) back := by
  have hlength := hstands.length_eq
  rw [textOf_append, Text.size_append] at hlength
  refine ⟨?_, ?_, ?_⟩
  · rw [List.append_assoc]
    exact hstands.text
  · rw [Cursor.jump, hstands.position, hlength, textOf_append, Text.size_append]
    exact min_eq_left (by omega)
  · rw [List.append_assoc]
    exact hstands.cells

theorem skipWhile {test : Char → Bool} (hstands : cursor.Stands front (piece ++ back))
    (hpiece : ∀ c ∈ textOf piece, test c = true)
    (hback : ∀ c ∈ (textOf back).head?, test c = false) :
    (cursor.skipWhile test).Stands (front ++ piece) back := by
  have htake : (textOf piece ++ textOf back).takeWhile test = textOf piece := by
    rw [List.takeWhile_append_of_pos hpiece]
    cases hrest : textOf back with
    | nil => simp
    | cons c rest =>
        have hc := hback c (by simp [hrest])
        simp [hc]
  rw [Cursor.skipWhile, hstands.ahead_eq, text_cellsOf, textOf_append, htake]
  exact hstands.jump

theorem since_eq {start : Cursor} (hstart : start.Stands front (piece ++ back))
    (hstands : cursor.Stands (front ++ piece) back) :
    cursor.since start.position = textOf piece := by
  rw [since, range, hstands.text, hstands.position, hstart.position, List.append_assoc,
    textOf_append, textOf_append, textOf_append, Text.size_append]
  exact Text.slice_append _ _ _

end Stands

/-- A cursor between two parts of a lexed text. -/
structure IsBetween (cursor : Cursor) (front back : List Lexeme) : Prop where
  text : cursor.text = textOf (front ++ back)
  position : cursor.position = Text.size (textOf front)
  lexed : Lexed none (front ++ back)

theorem isBetween_nil {cursor : Cursor} {lexemes : List Lexeme}
    (htext : cursor.text = textOf lexemes) (hposition : cursor.position = 0)
    (hlexed : Lexed none lexemes) : cursor.IsBetween [] lexemes :=
  ⟨htext, hposition, hlexed⟩

theorem IsBetween.stands (hbetween : cursor.IsBetween front back) : cursor.Stands front back :=
  ⟨hbetween.text, hbetween.position, by rw [hbetween.text, hbetween.lexed.cells_textOf]⟩

/-- A cursor that has moved still stands in the same lexed text. -/
theorem Stands.isBetween {moved : Cursor} (hstands : moved.Stands (front ++ piece) back)
    (hbetween : cursor.IsBetween front (piece ++ back)) : moved.IsBetween (front ++ piece) back :=
  ⟨hstands.text, hstands.position, by
    rw [List.append_assoc]
    exact hbetween.lexed⟩

theorem IsBetween.jump (hbetween : cursor.IsBetween front (piece ++ back)) :
    (cursor.jump (Text.size (textOf piece))).IsBetween (front ++ piece) back :=
  hbetween.stands.jump.isBetween hbetween

theorem IsBetween.skipWhile {test : Char → Bool}
    (hbetween : cursor.IsBetween front (piece ++ back))
    (hpiece : ∀ c ∈ textOf piece, test c = true)
    (hback : ∀ c ∈ (textOf back).head?, test c = false) :
    (cursor.skipWhile test).IsBetween (front ++ piece) back :=
  (hbetween.stands.skipWhile hpiece hback).isBetween hbetween

theorem IsBetween.skipBlanks {gap : Text} (hbetween : cursor.IsBetween front (marks gap ++ back))
    (hgap : ∀ c ∈ gap, isLayoutBlank c = true)
    (hback : ∀ c ∈ (textOf back).head?, Text.isAsciiBlank c = false) :
    cursor.skipBlanks.IsBetween (front ++ marks gap) back := by
  have hcut : cursor.ahead.cut = 0 := by rw [hbetween.stands.ahead_eq]
  rw [Cursor.skipBlanks, if_pos hcut]
  refine hbetween.skipWhile ?_ hback
  rw [textOf_marks]
  exact fun c hc => (isSpacer_of_isLayoutBlank (hgap c hc)).2.2

theorem IsBetween.skipBlanks_self (hbetween : cursor.IsBetween front back)
    (hback : ∀ c ∈ (textOf back).head?, Text.isAsciiBlank c = false) :
    cursor.skipBlanks.IsBetween front back := by
  have hskip := @IsBetween.skipBlanks cursor front back [] hbetween (List.forall_mem_nil _) hback
  rwa [marks, List.map_nil, List.append_nil] at hskip

/-- A keyword at a cursor is looked for among the pieces behind it. -/
theorem IsBetween.keywordLength?_eq {keyword : Keyword} (hbetween : cursor.IsBetween front back)
    (hplain : keyword.isPlain = true) (hback : textOf back ≠ []) :
    cursor.keywordLength? keyword =
      (keyword.behind? back).map fun rest => (textOf back).length - (textOf rest).length := by
  have hstarts := hbetween.lexed.startsBehind (startsBehind_none _)
  have hlexed := (Lexed.append_iff.mp hbetween.lexed).2
  rw [keywordLength?, hbetween.stands.atEnd_eq hback, hbetween.stands.ahead_eq]
  exact Keyword.length?_cellsOf (freshBehind true front) hplain hstarts hlexed

theorem IsBetween.consume {keyword : Keyword} (hbetween : cursor.IsBetween front (piece ++ back))
    (hplain : keyword.isPlain = true) (hpiece : textOf piece ≠ [])
    (hbehind : keyword.behind? (piece ++ back) = some back) :
    ∃ behind, cursor.consume keyword = (true, behind) ∧
      behind.IsBetween (front ++ piece) back := by
  have hlength := hbetween.keywordLength?_eq hplain (by simp [hpiece])
  have htake : (cellsOf (freshBehind true front) (piece ++ back)).take (textOf piece).length =
      cellsOf (freshBehind true front) piece := by
    rw [cellsOf_append, List.take_left' (length_cellsOf _ _)]
  rw [hbehind, Option.map_some, textOf_append, List.length_append, Nat.add_sub_cancel] at hlength
  refine ⟨_, ?_, hbetween.jump⟩
  rw [Cursor.consume, hlength, hbetween.stands.ahead_eq]
  simp only [htake, text_cellsOf]

theorem IsBetween.consume_none {keyword : Keyword} (hbetween : cursor.IsBetween front back)
    (hplain : keyword.isPlain = true) (hback : textOf back ≠ [])
    (hbehind : keyword.behind? back = none) : cursor.consume keyword = (false, cursor) := by
  have hlength := hbetween.keywordLength?_eq hplain hback
  rw [hbehind, Option.map_none] at hlength
  rw [Cursor.consume, hlength]

end Cursor

end SelectForm

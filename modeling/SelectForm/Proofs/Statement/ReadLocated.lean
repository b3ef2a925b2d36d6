import Mathlib
import SelectForm.Proofs.Statement.CollectClauses
import SelectForm.Proofs.Statement.CursorPlace

/-!
# Locating clauses at a cursor

A cursor searches for keywords among the cells of the whole text.  From the front of a text it
finds what is found in the text without the blanks in front of it, and all offsets are the same.
-/

namespace SelectForm

/-! ## Blanks in front of a text -/

/-- The cells of a text are those of the blanks in front of it and of what is behind them, which is
read as code begins. -/
theorem Mode.exists_blanks (text : Text) :
    ∃ front mode, text.cells = front ++ Mode.cells mode (text.dropWhile Text.isAsciiBlank) ∧
      Cell.text front = text.takeWhile Text.isAsciiBlank ∧ (mode = .between ∨ mode = .code) := by
  have hsplit := @List.takeWhile_append_dropWhile _ Text.isAsciiBlank text
  have hplain : ∀ c ∈ text.takeWhile Text.isAsciiBlank,
      Quote.ofChar? c = none ∧ c ≠ '-' ∧ c ≠ '/' := fun c hc =>
    Text.plain_of_isBlank (Text.isBlank_of_isAsciiBlank (List.mem_takeWhile_imp hc))
  have hcells := Mode.text_cells .between text
  nth_rewrite 2 [← hsplit] at hcells
  generalize text.takeWhile Text.isAsciiBlank = blanks at hcells hplain
  generalize text.dropWhile Text.isAsciiBlank = rest at hcells
  obtain ⟨front, back, hparts, rfl, rfl⟩ := List.map_eq_append_iff.mp hcells
  obtain ⟨mode, -, hmode, hback⟩ := Mode.exists_of_cells hparts
  exact ⟨front, mode, hparts.trans (congrArg (front ++ ·) hback), rfl,
    hmode ▸ Mode.behind_plain (.inl rfl) hplain⟩

namespace Fragment

theorem skipAsciiBlanks_eq (text : Text) :
    (mk text 0).skipAsciiBlanks =
      ⟨text.dropWhile Text.isAsciiBlank, Text.size (text.takeWhile Text.isAsciiBlank)⟩ := by
  have hsplit := @List.takeWhile_append_dropWhile _ Text.isAsciiBlank text
  have htake := @List.take_left _ (text.takeWhile Text.isAsciiBlank)
    (text.dropWhile Text.isAsciiBlank)
  have hdrop := @List.drop_left _ (text.takeWhile Text.isAsciiBlank)
    (text.dropWhile Text.isAsciiBlank)
  rw [hsplit] at htake hdrop
  rw [skipAsciiBlanks, drop, htake, hdrop, Nat.zero_add]

/-- The error at a fragment in a text that stands at an offset of a larger one. -/
theorem shift_error (fragment : Fragment) (cause : ParseError.Cause) (clause : Option Clause)
    (offset : Nat) :
    (fragment.error cause clause).shift offset =
      (mk fragment.text (fragment.start + offset)).error cause clause := by
  simp [error, ParseError.shift, stop, Nat.add_right_comm]

end Fragment

namespace Cursor

variable {cursor : Cursor}

/-- Where a cursor at the front stands when it has moved over the blanks. -/
theorem skipBlanks_start (hposition : cursor.position = 0) :
    cursor.skipBlanks =
        { cursor with position := Text.size (cursor.text.takeWhile Text.isAsciiBlank) } ∧
      ∃ mode, (mode = Mode.between ∨ mode = Mode.code) ∧
        cursor.skipBlanks.ahead = ⟨(cursor.text.takeWhile Text.isAsciiBlank).getLast?, 0,
          mode.cells (cursor.text.dropWhile Text.isAsciiBlank)⟩ := by
  have hsplit := @List.takeWhile_append_dropWhile _ Text.isAsciiBlank cursor.text
  have hlength := congrArg Text.size hsplit
  rw [Text.size_append] at hlength
  have hskip : cursor.skipBlanks =
      { cursor with position := Text.size (cursor.text.takeWhile Text.isAsciiBlank) } := by
    rw [skipBlanks, ahead_start hposition, if_pos rfl, skipWhile, ahead_start hposition, Text.cells,
      Mode.text_cells, jump, hposition, Nat.zero_add, length, min_eq_left (by omega)]
  refine ⟨hskip, ?_⟩
  rw [hskip]
  obtain ⟨front, mode, hcells, hfront, hmode⟩ := Mode.exists_blanks cursor.text
  have hseek := Ahead.seek_append none front (mode.cells (cursor.text.dropWhile Text.isAsciiBlank))
  rw [← hcells, hfront, Option.or_none] at hseek
  exact ⟨mode, hmode, hseek⟩

end Cursor

/-! ## At the front of a text -/

namespace LocatedClause

variable {cursor : Cursor}

theorem not_isWordChar_blanks (text : Text) :
    (text.takeWhile Text.isAsciiBlank).getLast?.any Text.isWordChar = false := by
  cases hlast : (text.takeWhile Text.isAsciiBlank).getLast? with
  | none => rfl
  | some c =>
      exact Text.not_isWordChar_of_isAsciiBlank
        (List.mem_takeWhile_imp (List.mem_of_getLast? hlast))

/-- The keywords that a cursor finds are those of the text without the blanks in front of it. -/
theorem ofCells_skipBlanks (hposition : cursor.position = 0) :
    Segmentation.ofCells finder cursor.skipBlanks.ahead.before cursor.skipBlanks.ahead.cells
        cursor.skipBlanks.position =
      (Fragment.mk cursor.text 0).skipAsciiBlanks.segment finder := by
  obtain ⟨hskip, mode, hmode, hahead⟩ := Cursor.skipBlanks_start hposition
  have hcut := @cutCells_edge _ entries _ _ _ 0 arePhrases_entries
    (Mode.faces_eq hmode (cursor.text.dropWhile Text.isAsciiBlank))
    (.inl (not_isWordChar_blanks cursor.text))
  rw [Fragment.skipAsciiBlanks_eq, Fragment.segment, hahead, hskip]
  unfold Segmentation.ofCells
  rw [finder_eq, hcut]

/-- A keyword at the cursor is one at the front of the text without the blanks. -/
theorem keywordLength?_skipBlanks (hposition : cursor.position = 0) {keyword : Keyword}
    (hphrase : keyword.isPhrase = true) :
    cursor.skipBlanks.keywordLength? keyword =
      keyword.length? none (Fragment.mk cursor.text 0).skipAsciiBlanks.text.cells := by
  obtain ⟨hskip, mode, hmode, hahead⟩ := Cursor.skipBlanks_start hposition
  have hlength :=
    congrArg Text.size (@List.takeWhile_append_dropWhile _ Text.isAsciiBlank cursor.text)
  rw [Text.size_append] at hlength
  rw [Fragment.skipAsciiBlanks_eq, Cursor.keywordLength?, hahead]
  dsimp only
  by_cases hend : cursor.skipBlanks.atEnd = true
  · have hrest : cursor.text.dropWhile Text.isAsciiBlank = [] := by
      rw [hskip, Cursor.atEnd, decide_eq_true_iff, Cursor.length] at hend
      dsimp only at hend
      cases hcons : cursor.text.dropWhile Text.isAsciiBlank with
      | nil => rfl
      | cons c rest =>
          have hc := c.utf8Size_pos
          rw [hcons, Text.size_cons] at hlength
          omega
    have hnone : keyword.length? none (Text.cells []) = none := by
      cases hcount : keyword.length? none (Text.cells []) with
      | none => rfl
      | some count =>
          obtain ⟨front, rest, hcells, -, -, hfits⟩ := Keyword.exists_of_length? hcount
          obtain ⟨⟨c, hc, -⟩, -⟩ := Keyword.ends_of_spells hphrase hfits.spells
          obtain ⟨rfl, -⟩ := List.append_eq_nil_iff.mp hcells.symm
          simp [Cell.text] at hc
    rw [hend, hrest, hnone]
    rfl
  · rw [Bool.not_eq_true] at hend
    have hsame := @Keyword.length?_congr _ _ none _ _ hphrase
      (Mode.faces_eq hmode (cursor.text.dropWhile Text.isAsciiBlank))
      (not_isWordChar_blanks cursor.text)
    rw [hend, hsame]
    rfl

/-- The first word of a text, as the cursor finds it. -/
theorem word_skipBlanks (hposition : cursor.position = 0) :
    Fragment.mk
        (((cursor.skipBlanks.jump cursor.skipBlanks.ahead.cut).skipWhile
          fun c => !Text.isAsciiBlank c).since cursor.skipBlanks.position)
        (cursor.skipBlanks.absolute cursor.skipBlanks.position) =
      ⟨(Fragment.mk cursor.text 0).skipAsciiBlanks.text.takeWhile fun c => !Text.isAsciiBlank c,
        (Fragment.mk cursor.text 0).skipAsciiBlanks.start + cursor.offset⟩ := by
  obtain ⟨hskip, mode, -, hahead⟩ := Cursor.skipBlanks_start hposition
  have hsplit := @List.takeWhile_append_dropWhile _ Text.isAsciiBlank cursor.text
  have hrest := @List.takeWhile_append_dropWhile _ (fun c => !Text.isAsciiBlank c)
    (cursor.text.dropWhile Text.isAsciiBlank)
  have hlength := congrArg Text.size hsplit
  rw [← hrest, Text.size_append, Text.size_append] at hlength
  have hjump : cursor.skipBlanks.jump cursor.skipBlanks.ahead.cut = cursor.skipBlanks := by
    rw [hahead, hskip, Cursor.jump, Nat.add_zero, Cursor.length, min_eq_left (by dsimp only; omega)]
  have hslice := Text.slice_append (cursor.text.takeWhile Text.isAsciiBlank)
    ((cursor.text.dropWhile Text.isAsciiBlank).takeWhile fun c => !Text.isAsciiBlank c)
    ((cursor.text.dropWhile Text.isAsciiBlank).dropWhile fun c => !Text.isAsciiBlank c)
  rw [hrest, hsplit] at hslice
  rw [hjump, Cursor.skipWhile, hahead, Mode.text_cells, hskip, Fragment.skipAsciiBlanks_eq]
  rw [Cursor.since, Cursor.range, Cursor.jump, Cursor.absolute, Cursor.length]
  dsimp only
  rw [min_eq_left (by omega), min_eq_left (by omega), hslice, Nat.add_comm]

/-- At the front of a text a cursor locates the clauses of the text, and moves to its end. -/
theorem read_start (hposition : cursor.position = 0) :
    (read cursor).1 = (locate cursor.text).mapError (ParseError.shift cursor.offset) ∧
      ∀ clauses, locate cursor.text = .ok clauses → (read cursor).2.atEnd = true := by
  obtain ⟨hskip, mode, -, hahead⟩ := Cursor.skipBlanks_start hposition
  have hcompare : cursor.skipBlanks.compare .select =
      (Keyword.select.length? none
        (Fragment.mk cursor.text 0).skipAsciiBlanks.text.cells).isSome := by
    rw [Cursor.compare, keywordLength?_skipBlanks hposition rfl]
  have hsegment := ofCells_skipBlanks hposition
  have hoffset : cursor.skipBlanks.offset = cursor.offset := by rw [hskip]
  have htext : cursor.skipBlanks.text = cursor.text := by rw [hskip]
  unfold read locate
  dsimp only
  rw [hcompare, hsegment]
  cases Keyword.select.length? none (Fragment.mk cursor.text 0).skipAsciiBlanks.text.cells with
  | none =>
      rw [Option.isSome_none, if_neg (by simp)]
      refine ⟨?_, fun _ hok => absurd hok (by simp)⟩
      rw [Except.mapError, Fragment.shift_error, word_skipBlanks hposition]
  | some count =>
      rw [Option.isSome_some, if_pos rfl]
      cases collect [] [] ((Fragment.mk cursor.text 0).skipAsciiBlanks.segment finder).tail with
      | error failed =>
          refine ⟨?_, fun _ hok => absurd hok (by simp [bind, Except.bind])⟩
          rw [hoffset]
          rfl
      | ok clauses =>
          dsimp only [bind, Except.bind]
          split
          · exact ⟨rfl, fun _ _ => cursor.skipBlanks.atEnd_finish⟩
          · refine ⟨?_, fun _ hok => absurd hok (by simp)⟩
            rw [Except.mapError, Fragment.shift_error, htext, Cursor.absolute, hoffset, Nat.zero_min,
              Nat.add_comm]

end LocatedClause

end SelectForm

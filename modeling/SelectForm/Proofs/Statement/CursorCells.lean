import Mathlib
import SelectForm.Proofs.Lexis.Recut
import SelectForm.Proofs.Statement.CursorPlace

/-!
# Cursors among the cells of any text

A text may hold comments and may be left open.  It is then no row of pieces, and what is ahead
of a cursor are some of the cells of the text.  Each way to move takes the cursor over the
first of them, and a keyword that it consumes is written out there in code.
-/

namespace SelectForm

/-! ## Cells of code -/

/-- A character that opens neither a literal nor a comment. -/
def Text.opensNothing (c : Char) : Bool :=
  (Quote.ofChar? c).isNone && c != '-' && c != '/'

theorem Mode.enter_of_opensNothing {c : Char} (hc : Text.opensNothing c = true) (fresh : Bool)
    (next : Option Char) : enter fresh c next = (⟨c, .code, fresh⟩, .code) := by
  simp only [Text.opensNothing, Bool.and_eq_true, Option.isNone_iff_eq_none, bne_iff_ne] at hc
  simp [enter, hc.1.1, hc.1.2, hc.2]

theorem Text.isCode_cells {text : Text} (htext : ∀ c ∈ text, opensNothing c = true) :
    ∀ cell ∈ text.cells, cell.isCode = true := by
  have hmode : ∀ mode : Mode, mode = .between ∨ mode = .code →
      ∀ cell ∈ mode.cells text, cell.isCode = true := by
    induction text with
    | nil => exact fun mode _ cell hmem => absurd hmem List.not_mem_nil
    | cons c rest ih =>
        obtain ⟨hc, hrest⟩ := List.forall_mem_cons.mp htext
        intro mode hmode
        have hstep : (mode.step c rest.head?).1.isCode = true ∧
            (mode.step c rest.head?).2 = .code := by
          rcases hmode with rfl | rfl <;> simp [Mode.step, Mode.enter_of_opensNothing hc, Cell.isCode]
        rw [Mode.cells, hstep.2, List.forall_mem_cons]
        exact ⟨hstep.1, ih hrest .code (.inr rfl)⟩
  exact hmode .between (.inl rfl)

/-- The cells at the front whose characters pass a test. -/
theorem Cell.exists_split (test : Char → Bool) (cells : List Cell) :
    ∃ piece rest, cells = piece ++ rest ∧ (∀ c ∈ Cell.text piece, test c = true) ∧
      ∀ c ∈ (Cell.text rest).head?, test c = false := by
  obtain ⟨piece, rest, hcells, hpiece, hrest⟩ := List.map_eq_append_iff.mp
    (List.takeWhile_append_dropWhile (p := test) (l := Cell.text cells)).symm
  refine ⟨piece, rest, hcells, ?_, ?_⟩
  · rw [Cell.text, hpiece]
    exact fun c hc => List.mem_takeWhile_imp hc
  · rw [Cell.text, hrest]
    intro c hc
    have hfirst := List.head?_dropWhile_not test (Cell.text cells)
    rw [Option.mem_def.mp hc] at hfirst
    simpa using hfirst

theorem Cell.length_le_size (cells : List Cell) : cells.length ≤ Text.size (Cell.text cells) := by
  induction cells with
  | nil => exact le_rfl
  | cons cell cells ih =>
      have hsize := cell.char.utf8Size_pos
      have htext : Cell.text (cell :: cells) = cell.char :: Cell.text cells := rfl
      rw [htext, Text.size_cons, List.length_cons]
      omega

/-! ## Cursors -/

namespace Cursor

/-- A cursor before some cells of its text; it has passed the others. -/
structure Faces (cursor : Cursor) (passed cells : List Cell) : Prop where
  cells : cursor.text.cells = passed ++ cells
  position : cursor.position = Text.size (Cell.text passed)

variable {cursor moved : Cursor} {passed piece cells rest : List Cell}

theorem faces_start (hposition : cursor.position = 0) : cursor.Faces [] cursor.text.cells :=
  ⟨rfl, hposition⟩

namespace Faces

theorem text_eq (hfaces : cursor.Faces passed cells) :
    cursor.text = Cell.text passed ++ Cell.text cells := by
  have htext : Cell.text cursor.text.cells = cursor.text := Mode.text_cells _ _
  rw [← htext, hfaces.cells, Cell.text_append]

theorem ahead_eq (hfaces : cursor.Faces passed cells) :
    cursor.ahead = ⟨(Cell.text passed).getLast?, 0, cells⟩ := by
  rw [ahead, hfaces.cells, hfaces.position, Ahead.seek_append, Option.or_none]

theorem length_eq (hfaces : cursor.Faces passed cells) :
    cursor.length = Text.size (Cell.text passed) + Text.size (Cell.text cells) := by
  rw [length, hfaces.text_eq, Text.size_append]

theorem atEnd_eq (hfaces : cursor.Faces passed cells) : cursor.atEnd = cells.isEmpty := by
  rw [atEnd, hfaces.length_eq, hfaces.position]
  cases cells with
  | nil => simp [Cell.text]
  | cons cell cells =>
      have hsize := cell.char.utf8Size_pos
      simp [Cell.text]
      omega

theorem current_eq (hfaces : cursor.Faces passed cells) {c : Char} {text : Text}
    (hcells : Cell.text cells = c :: text) (hascii : c.toNat < 0x80) : cursor.current = c :=
  current_of_text (hcells ▸ hfaces.text_eq) hfaces.position hascii

theorem current_nil (hfaces : cursor.Faces passed []) : cursor.current = '\x00' := by
  rw [current, peek, Nat.add_zero, hfaces.text_eq, hfaces.position, Text.byteAt?_size]
  rfl

/-! ### Moving -/

theorem jump (hfaces : cursor.Faces passed (piece ++ rest)) :
    (cursor.jump (Text.size (Cell.text piece))).Faces (passed ++ piece) rest := by
  have hlength := hfaces.length_eq
  rw [Cell.text_append, Text.size_append] at hlength
  refine ⟨?_, ?_⟩
  · rw [List.append_assoc]
    exact hfaces.cells
  · rw [Cursor.jump, hfaces.position, hlength, Cell.text_append, Text.size_append]
    exact min_eq_left (by omega)

theorem skipWhile {test : Char → Bool} (hfaces : cursor.Faces passed (piece ++ rest))
    (hpiece : ∀ c ∈ Cell.text piece, test c = true)
    (hrest : ∀ c ∈ (Cell.text rest).head?, test c = false) :
    (cursor.skipWhile test).Faces (passed ++ piece) rest := by
  have htake : (Cell.text piece ++ Cell.text rest).takeWhile test = Cell.text piece := by
    rw [List.takeWhile_append_of_pos hpiece]
    cases htext : Cell.text rest with
    | nil => simp
    | cons c text =>
        have hc := hrest c (by simp [htext])
        simp [hc]
  rw [Cursor.skipWhile, hfaces.ahead_eq, Cell.text_append, htake]
  exact hfaces.jump

theorem skipBlanks (hfaces : cursor.Faces passed (piece ++ rest))
    (hpiece : ∀ c ∈ Cell.text piece, Text.isAsciiBlank c = true)
    (hrest : ∀ c ∈ (Cell.text rest).head?, Text.isAsciiBlank c = false) :
    cursor.skipBlanks.Faces (passed ++ piece) rest := by
  rw [Cursor.skipBlanks, hfaces.ahead_eq, if_pos rfl]
  exact hfaces.skipWhile hpiece hrest

theorem since_eq {start : Cursor} (hstart : start.Faces passed (piece ++ rest))
    (hfaces : cursor.Faces (passed ++ piece) rest) :
    cursor.since start.position = Cell.text piece := by
  rw [since, range, hfaces.text_eq, hfaces.position, hstart.position, Cell.text_append,
    Text.size_append, List.append_assoc]
  exact Text.slice_append _ _ _

/-! ### Keywords -/

theorem exists_of_consume {keyword : Keyword} (hfaces : cursor.Faces passed cells)
    (hconsume : cursor.consume keyword = (true, moved)) :
    ∃ word rest, cells = word ++ rest ∧ moved.Faces (passed ++ word) rest ∧
      keyword.Fits (Cell.text passed).getLast? (Cell.text word) (Cell.text rest) := by
  rw [Cursor.consume, keywordLength?, hfaces.ahead_eq] at hconsume
  split at hconsume
  · rename_i count hcount
    obtain ⟨-, rfl⟩ := Prod.mk.inj hconsume
    rw [Option.ite_none_left_eq_some] at hcount
    obtain ⟨word, rest, rfl, rfl, -, hfits⟩ := Keyword.exists_of_length? hcount.2
    dsimp only
    rw [List.take_left]
    exact ⟨word, rest, rfl, hfaces.jump, hfits⟩
  · exact absurd (Prod.mk.inj hconsume).1 Bool.false_ne_true

/-- A word that fits between what the cursor has passed and what follows is consumed. -/
theorem consume_eq {keyword : Keyword} {name : Text} {word : List Cell}
    (hfaces : cursor.Faces passed (word ++ rest)) (hform : keyword.form = .phrase [name])
    (hne : word ≠ []) (hcode : ∀ cell ∈ word, cell.isCode = true)
    (hfits : keyword.Fits (Cell.text passed).getLast? (Cell.text word) (Cell.text rest)) :
    cursor.consume keyword = (true, cursor.jump (Text.size (Cell.text word))) := by
  have hspelled := (Keyword.spells_iff_of_word hform).mp hfits.spells
  obtain ⟨hbefore, hbehind⟩ := hfits.bounded _ hform
  have hword : Keyword.afterWord? name (word ++ rest) = some rest := by
    refine Keyword.afterWord?_eq_some_iff.mpr ⟨word, rfl, ?_, hcode⟩
    rwa [Cell.text, List.map_map] at hspelled
  have hclear : (rest.head?.any fun cell => Text.isWordChar cell.char) = false := by
    rwa [Cell.text, List.head?_map, Option.any_map] at hbehind
  have hafter : keyword.after? (Cell.text passed).getLast? (word ++ rest) = some rest := by
    simp only [Keyword.after?, hform, hbefore, Keyword.afterPhrase?, hword, Keyword.afterWords?,
      hclear, Bool.false_eq_true, if_false]
  have hlength : cursor.keywordLength? keyword = some word.length := by
    rw [keywordLength?, hfaces.ahead_eq, hfaces.atEnd_eq, Keyword.length?, hafter]
    simp [hne]
  rw [Cursor.consume, hlength, hfaces.ahead_eq]
  dsimp only
  rw [List.take_left]

/-! ### Words -/

/-- A word is what stands up to the first character that is not part of a word. -/
theorem exists_word (hfaces : cursor.Faces passed (piece ++ rest))
    (hpiece : ∀ c ∈ Cell.text piece, Text.isWordChar c = true)
    (hrest : ∀ c ∈ (Cell.text rest).head?, Text.isWordChar c = false) :
    ∃ stopped : Cursor, stopped.Faces (passed ++ piece) rest ∧
      Reader.word cursor =
        if stopped.atEnd || Reader.endsWord stopped.current then (.ok (Cell.text piece), stopped)
        else (.error (stopped.error cursor.position .invalidText), stopped) := by
  have hstart : (cursor.jump 0).Faces passed (piece ++ rest) := by
    simpa [Cell.text] using @Cursor.Faces.jump cursor passed [] (piece ++ rest) hfaces
  have hstopped := hstart.skipWhile hpiece hrest
  refine ⟨_, hstopped, ?_⟩
  rw [Reader.word, hfaces.ahead_eq]
  dsimp only
  rw [hfaces.since_eq hstopped]

end Faces

theorem consume_of_ne {keyword : Keyword}
    (hno : ∀ moved, cursor.consume keyword ≠ (true, moved)) :
    cursor.consume keyword = (false, cursor) := by
  rw [consume] at hno ⊢
  split at hno
  · exact absurd rfl (hno _)
  · rfl

end Cursor

end SelectForm

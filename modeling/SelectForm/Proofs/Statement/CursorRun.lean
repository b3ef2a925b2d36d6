import Mathlib
import SelectForm.Statement.Paging
import SelectForm.Statement.Table
import SelectForm.Proofs.Statement.CursorPlace

/-!
# Runs of a cursor

Whatever is done with a cursor, and whether it succeeds or fails, is a sequence of jumps.  A jump
leads onward and stops at the end of the text, so a cursor that starts in a text never leaves it,
and never returns to what it has passed.
-/

namespace SelectForm

/-! ## Slices at any two places -/

namespace Text

variable {text : Text} {first last : Nat}

theorem slice_of_size_le (hfirst : size text ≤ first) : text.slice first last = [] := by
  induction text generalizing first last with
  | nil => rfl
  | cons c rest ih =>
      rw [size_cons] at hfirst
      rw [slice]
      split
      · rfl
      · rw [if_pos (by omega), ih (by omega)]

/-- Behind the end of a text nothing more is in a slice. -/
theorem slice_of_size_le_last (hlast : size text ≤ last) :
    text.slice first last = text.slice first (size text) := by
  induction text generalizing first last with
  | nil => rfl
  | cons c rest ih =>
      have hcut : size (c :: rest) - c.utf8Size = size rest := by rw [size_cons]; omega
      by_cases hbehind : size (c :: rest) ≤ first
      · rw [slice_of_size_le hbehind, slice_of_size_le hbehind]
      · rw [size_cons] at hlast
        have hrest : ∀ first,
            slice rest first (last - c.utf8Size) = slice rest first (size rest) :=
          fun first => ih (by omega)
        have hsize : c.utf8Size ≤ size (c :: rest) := by rw [size_cons]; omega
        rw [slice, slice, hcut, hrest, hrest, if_neg (by rw [size_cons] at hbehind; omega),
          if_neg hbehind, if_pos (show c.utf8Size ≤ last by omega), if_pos hsize,
          min_eq_left (show c.utf8Size ≤ last by omega), min_eq_left hsize]

theorem slice_min (text : Text) (first last : Nat) :
    text.slice first last = text.slice first (min last (size text)) := by
  rcases le_total (size text) last with hlast | hlast
  · rw [min_eq_right hlast, slice_of_size_le_last hlast]
  · rw [min_eq_left hlast]

/-- A slice between any two places is one between two places of the text, in order. -/
theorem slice_clamp (text : Text) (first last : Nat) :
    text.slice first last =
      text.slice (min first (min last (size text))) (min last (size text)) := by
  rw [slice_min]
  rcases le_total first (min last (size text)) with hle | hle
  · rw [min_eq_left hle]
  · rw [min_eq_right hle, slice_of_le _ hle, slice_of_le _ le_rfl]

end Text

/-! ## What is ahead -/

namespace Ahead

theorem seek_append_add (before : Option Char) (front rest : List Cell) (count : Nat) :
    seek before (front ++ rest) (Text.size (Cell.text front) + count) =
      seek ((Cell.text front).getLast?.or before) rest count := by
  induction front generalizing before with
  | nil =>
      rw [List.nil_append]
      exact congrArg (seek before rest) (Nat.zero_add count)
  | cons cell front ih =>
      have htext : Cell.text (cell :: front) = cell.char :: Cell.text front := rfl
      rw [htext, Text.size_cons, List.cons_append, Nat.add_assoc, seek_cons (Nat.le_add_right _ _),
        Nat.add_sub_cancel_left, ih, Text.getLast?_cons_or]

end Ahead

namespace Cursor

variable {cursor moved : Cursor}

/-- Inside a character its other bytes are cut. -/
theorem cut_ne_zero_of_inside {front back : Text} {c : Char}
    (htext : cursor.text = front ++ c :: back) (hstart : Text.size front < cursor.position)
    (hstop : cursor.position < Text.size front + c.utf8Size) : cursor.ahead.cut ≠ 0 := by
  have hcells : Cell.text cursor.text.cells = front ++ c :: back :=
    (Mode.text_cells _ _).trans htext
  obtain ⟨first, rest, hsplit, hfirst, hrest⟩ := List.map_eq_append_iff.mp hcells
  obtain ⟨cell, behind, rfl, rfl, -⟩ := List.map_eq_cons_iff.mp hrest
  obtain ⟨count, hcount⟩ : ∃ count, cursor.position = Text.size front + (count + 1) :=
    ⟨cursor.position - Text.size front - 1, by omega⟩
  have hsize : Text.size (Cell.text first) = Text.size front := congrArg Text.size hfirst
  rw [ahead, hsplit, hcount, ← hsize, Ahead.seek_append_add, Ahead.seek, if_neg (by omega)]
  show cell.char.utf8Size - (count + 1) ≠ 0
  omega

/-- Bytes of a cut character are ahead of a cursor if it stands inside a character. -/
theorem cut_eq_zero_iff (hinside : cursor.position ≤ cursor.length) :
    cursor.ahead.cut = 0 ↔ cursor.text.IsBoundary cursor.position := by
  constructor
  · intro hcut
    rcases Text.exists_at hinside with hboundary | ⟨front, c, back, htext, hstart, hstop⟩
    · exact hboundary
    · exact absurd hcut (cut_ne_zero_of_inside htext hstart hstop)
  · rintro ⟨front, back, htext, hposition⟩
    exact (ahead_of_boundary htext hposition).1

/-- What is ahead of a cursor between two characters is the text from there on; inside a character
there is nothing to read. -/
theorem rest_cases (hinside : cursor.position ≤ cursor.length) :
    (∃ front, cursor.text = front ++ cursor.rest ∧ Text.size front = cursor.position) ∨
      cursor.rest = [] ∧ ¬ cursor.text.IsBoundary cursor.position := by
  by_cases hboundary : cursor.text.IsBoundary cursor.position
  · obtain ⟨front, back, htext, hposition⟩ := hboundary
    obtain ⟨hcut, hback⟩ := ahead_of_boundary htext hposition
    refine .inl ⟨front, ?_, hposition⟩
    rw [rest, if_pos hcut, hback, htext]
  · refine .inr ⟨?_, hboundary⟩
    rw [rest, if_neg fun hcut => hboundary ((cut_eq_zero_iff hinside).mp hcut)]

/-! ## Moving onward -/

/-- Where a cursor can get: it stays in its text, and is neither in front of where it was nor behind
the end. -/
structure Reaches (cursor moved : Cursor) : Prop where
  text : moved.text = cursor.text
  offset : moved.offset = cursor.offset
  onward : cursor.position ≤ moved.position
  inside : moved.position ≤ moved.length

namespace Reaches

theorem refl (hinside : cursor.position ≤ cursor.length) : cursor.Reaches cursor :=
  ⟨rfl, rfl, le_rfl, hinside⟩

theorem trans {further : Cursor} (hmoved : cursor.Reaches moved) (hfurther : moved.Reaches further) :
    cursor.Reaches further :=
  ⟨hfurther.text.trans hmoved.text, hfurther.offset.trans hmoved.offset,
    hmoved.onward.trans hfurther.onward, hfurther.inside⟩

theorem jump (hmoved : cursor.Reaches moved) (count : Nat) : cursor.Reaches (moved.jump count) := by
  have hinside := hmoved.inside
  refine hmoved.trans ⟨rfl, rfl, ?_, ?_⟩
  · exact le_min (Nat.le_add_right _ _) hinside
  · exact min_le_right _ _

theorem skipWhile (hmoved : cursor.Reaches moved) (test : Char → Bool) :
    cursor.Reaches (moved.skipWhile test) :=
  hmoved.jump _

theorem skipBlanks (hmoved : cursor.Reaches moved) : cursor.Reaches moved.skipBlanks := by
  rw [Cursor.skipBlanks]
  split
  · exact hmoved.skipWhile _
  · exact hmoved

theorem consume (hmoved : cursor.Reaches moved) (keyword : Keyword) :
    cursor.Reaches (moved.consume keyword).2 := by
  rw [Cursor.consume]
  split
  · exact hmoved.jump _
  · exact hmoved

end Reaches

theorem consume_of_fst_eq_false {keyword : Keyword} (hfails : (cursor.consume keyword).1 = false) :
    (cursor.consume keyword).2 = cursor := by
  rw [Cursor.consume] at hfails ⊢
  split
  · rename_i count hcount
    rw [hcount] at hfails
    exact absurd hfails (by simp)
  · rfl

end Cursor

namespace Reader

/-- A reader that moves a cursor onward, whatever it reads. -/
def Moves {α : Type} (reader : Reader α) : Prop :=
  ∀ cursor : Cursor, cursor.position ≤ cursor.length → cursor.Reaches (reader cursor).2

theorem Moves.reaches {α : Type} {reader : Reader α} {cursor moved : Cursor}
    (hreader : reader.Moves) (hmoved : cursor.Reaches moved) : cursor.Reaches (reader moved).2 :=
  hmoved.trans (hreader moved hmoved.inside)

theorem moves_word : word.Moves := by
  intro cursor hinside
  have hstopped := ((Cursor.Reaches.refl hinside).jump cursor.ahead.cut).skipWhile Text.isWordChar
  rw [word]
  split
  · exact hstopped
  · exact hstopped

end Reader

namespace Paging

theorem moves_readNumber (keyword : String) : (readNumber keyword).Moves := by
  intro cursor hinside
  have hstart := (Cursor.Reaches.refl hinside).skipBlanks
  have hbehind := Reader.moves_word.reaches hstart
  rw [readNumber]
  dsimp only
  split
  · exact hstart.jump 1
  · split
    · rename_i error behind hword
      rwa [hword] at hbehind
    · rename_i word behind hword
      rw [hword] at hbehind
      repeat' split
      all_goals exact hbehind

theorem moves_readWithin (bound : Nat) (paging : Paging) : (readWithin bound paging).Moves := by
  induction bound generalizing paging with
  | zero => exact fun cursor hinside => (Cursor.Reaches.refl hinside).skipBlanks
  | succ bound ih =>
      intro cursor hinside
      have hstart := (Cursor.Reaches.refl hinside).skipBlanks
      have hnumber : ∀ {keyword written behind result moved},
          cursor.skipBlanks.consume keyword = (true, behind) →
            readNumber written behind = (result, moved) → cursor.Reaches moved := by
        intro keyword written behind result moved hconsume hread
        have hbehind := hstart.consume keyword
        rw [hconsume] at hbehind
        have hmoved := (moves_readNumber written).reaches hbehind
        rwa [hread] at hmoved
      rw [readWithin]
      split
      · exact hstart
      · split
        · rename_i behind hconsume
          split
          · rename_i number moved hread
            exact (ih _).reaches (hnumber hconsume hread)
          · rename_i error moved hread
            exact hnumber hconsume hread
        · split
          · rename_i behind hconsume
            split
            · rename_i number moved hread
              exact (ih _).reaches (hnumber hconsume hread)
            · rename_i error moved hread
              exact hnumber hconsume hread
          · exact hstart

theorem moves_read : read.Moves :=
  fun cursor => moves_readWithin _ _ cursor

end Paging

theorem TableItem.moves_readList : readList.Moves := by
  intro cursor hinside
  have hstart := (Cursor.Reaches.refl hinside).skipBlanks
  rw [readList]
  dsimp only
  split
  · have hmoved := hstart.jump
      (cursor.skipBlanks.ahead.cut + Text.size cursor.skipBlanks.joins.head.text)
    exact ⟨hmoved.text, hmoved.offset, hmoved.onward, hmoved.inside⟩
  · exact hstart

theorem Join.moves_readList : readList.Moves := by
  intro cursor hinside
  have hstart := (Cursor.Reaches.refl hinside).skipBlanks
  rw [readList]
  split
  · exact hstart
  · split
    · exact hstart.jump _
    · exact hstart

/-! ## Runs -/

namespace Cursor

variable {cursor moved : Cursor}

/-- What can be done with a cursor. -/
inductive Operation
  | next
  | skipBlanks
  | jump (count : Nat)
  | consume (keyword : Keyword)
  | word
  | paging
  | tables
  | joins

/-- The cursor behind an operation, whether it succeeded or failed. -/
def Operation.move : Operation → Cursor → Cursor
  | .next, cursor => cursor.next
  | .skipBlanks, cursor => cursor.skipBlanks
  | .jump count, cursor => cursor.jump count
  | .consume keyword, cursor => (cursor.consume keyword).2
  | .word, cursor => (Reader.word cursor).2
  | .paging, cursor => (Paging.read cursor).2
  | .tables, cursor => (TableItem.readList cursor).2
  | .joins, cursor => (Join.readList cursor).2

/-- All cursors of a run: where it starts, and where each operation leads. -/
def visited (cursor : Cursor) : List Operation → List Cursor
  | [] => [cursor]
  | operation :: operations => cursor :: visited (operation.move cursor) operations

/-- One operation moves a cursor onward. -/
theorem Reaches.move (hmoved : cursor.Reaches moved) (operation : Operation) :
    cursor.Reaches (operation.move moved) := by
  cases operation with
  | next => exact hmoved.jump 1
  | skipBlanks => exact hmoved.skipBlanks
  | jump count => exact hmoved.jump count
  | consume keyword => exact hmoved.consume keyword
  | word => exact Reader.moves_word.reaches hmoved
  | paging => exact Paging.moves_read.reaches hmoved
  | tables => exact TableItem.moves_readList.reaches hmoved
  | joins => exact Join.moves_readList.reaches hmoved

/-- A run leads nowhere but onward. -/
theorem reaches_of_mem_visited {operations : List Operation} (hmoved : cursor.Reaches moved) :
    ∀ further ∈ visited moved operations, cursor.Reaches further := by
  induction operations generalizing moved with
  | nil => exact List.forall_mem_singleton.mpr hmoved
  | cons operation operations ih =>
      exact List.forall_mem_cons.mpr ⟨hmoved, ih (hmoved.move operation)⟩

theorem pairwise_visited {operations : List Operation} (hinside : cursor.position ≤ cursor.length) :
    (visited cursor operations).Pairwise Reaches := by
  induction operations generalizing cursor with
  | nil => exact List.pairwise_singleton _ _
  | cons operation operations ih =>
      have hmoved := (Reaches.refl hinside).move operation
      exact List.pairwise_cons.mpr ⟨reaches_of_mem_visited hmoved, ih hmoved.inside⟩

/-- A run from the front of a text, of operations that may fail, never goes back and never leaves
the text, and a keyword that is not there leaves the cursor as it is.  All along, any two places,
in the text or not, show a slice between two places of it, which is exact between characters;
offsets stay within the text; and what is ahead is the text from the cursor on, or nothing if the
cursor is inside a character. -/
theorem visited_onward (text : Text) (offset : Nat) (clause : Option Clause)
    (operations : List Operation) :
    let cursors := visited ⟨text, offset, 0, clause⟩ operations
    cursors.Pairwise (fun earlier later => earlier.position ≤ later.position) ∧
      ∀ cursor ∈ cursors, cursor.text = text ∧ cursor.position ≤ Text.size text ∧
        (∀ keyword, (cursor.consume keyword).1 = false → (cursor.consume keyword).2 = cursor) ∧
        (∀ first last, cursor.range first last =
          text.slice (min first (min last (Text.size text))) (min last (Text.size text))) ∧
        (∀ front middle back, text = front ++ (middle ++ back) →
          cursor.range (Text.size front) (Text.size front + Text.size middle) = middle) ∧
        (∀ pivot, cursor.since pivot = text.slice (min pivot cursor.position) cursor.position) ∧
        (∀ place, cursor.absolute place = offset + min place (Text.size text) ∧
          cursor.absolute place ≤ offset + Text.size text) ∧
        ((∃ front, text = front ++ cursor.rest ∧ Text.size front = cursor.position) ∨
          cursor.rest = [] ∧ ¬ text.IsBoundary cursor.position) := by
  intro cursors
  have hstart : (Cursor.mk text offset 0 clause).Reaches ⟨text, offset, 0, clause⟩ :=
    .refl (Nat.zero_le _)
  refine ⟨(pairwise_visited hstart.inside).imp Reaches.onward, fun cursor hmem => ?_⟩
  obtain ⟨htext, hoffset, -, hinside⟩ := reaches_of_mem_visited hstart cursor hmem
  obtain rfl : cursor.text = text := htext
  obtain rfl : cursor.offset = offset := hoffset
  have hclamp : min cursor.position (Text.size cursor.text) = cursor.position := min_eq_left hinside
  refine ⟨rfl, hinside, fun keyword => consume_of_fst_eq_false, Text.slice_clamp _, ?_, ?_, ?_,
    rest_cases hinside⟩
  · intro front middle back hparts
    rw [range, hparts]
    exact Text.slice_append front middle back
  · intro pivot
    have hslice := Text.slice_clamp cursor.text pivot cursor.position
    rwa [hclamp] at hslice
  · exact fun place => ⟨rfl, Nat.add_le_add_left (min_le_right _ _) _⟩

/-- A run from the middle of a keyword, where the keyword is not read and LIMIT cannot be, into the
middle of a character, where neither tables nor a word can be read. -/
theorem visited_onward_inside :
    let text : Text := "LIMIT é".toList
    let inside : Cursor := ⟨text, 3, 7, none⟩
    inside ∈ visited ⟨text, 3, 0, none⟩ [.jump 1, .consume .limit, .paging, .jump 6, .tables] ∧
      inside.position ≤ Text.size text ∧ (inside.consume .limit).1 = false ∧
      (inside.consume .limit).2 = inside ∧ text = "LIMIT".toList ++ (" ".toList ++ "é".toList) ∧
      inside.range 5 6 = " ".toList ∧ inside.absolute 20 ≤ 3 + Text.size text ∧
      inside.rest = [] ∧ ¬ text.IsBoundary 7 := by
  intro text inside
  have hmem : inside ∈ visited ⟨text, 3, 0, none⟩
      [.jump 1, .consume .limit, .paging, .jump 6, .tables] := by decide
  obtain ⟨-, hall⟩ := visited_onward text 3 none
    [.jump 1, .consume .limit, .paging, .jump 6, .tables]
  obtain ⟨-, hinside, hconsume, -, hexact, -, habsolute, hrest⟩ := hall inside hmem
  have hfails : (inside.consume .limit).1 = false := by decide
  have hparts : text = "LIMIT".toList ++ (" ".toList ++ "é".toList) := rfl
  have hempty : inside.rest = [] := by decide
  refine ⟨hmem, hinside, hfails, hconsume _ hfails, hparts, hexact _ _ _ hparts, (habsolute 20).2,
    hempty, ?_⟩
  rcases hrest with ⟨front, hfront, hposition⟩ | ⟨-, hcut⟩
  · rw [hempty, List.append_nil] at hfront
    rw [← hfront] at hposition
    exact absurd hposition (by decide)
  · exact hcut

end Cursor

end SelectForm

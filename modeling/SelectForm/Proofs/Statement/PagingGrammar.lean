import Mathlib
import SelectForm.Proofs.Statement.CursorCells
import SelectForm.Proofs.Statement.ReadPaging

/-!
# The grammar of LIMIT and OFFSET

A text is read as LIMIT and OFFSET if and only if it is a sequence of items.  An item is one of
the two keywords in any case, blanks, and the digits of a number of 64 bits; blanks stand between
two items and may stand around the sequence.  The last item of a keyword gives its number.

This holds of every text, also of one with comments or an open literal.  So what is ahead of the
reader is described by cells: a text that was read is cut at the places where the reader
stopped, and a text that is a sequence of items has cells of code only.
-/

namespace SelectForm

namespace Text

theorem opensNothing_of_isWordChar {c : Char} (hc : isWordChar c = true) :
    opensNothing c = true := by
  have hne : ∀ d : Char, isWordChar d = false → c ≠ d := by
    rintro d hd rfl
    rw [hc] at hd
    exact absurd hd (by decide)
  simp [opensNothing, Quote.ofChar?, hne '\'' (by decide), hne '"' (by decide),
    hne '-' (by decide), hne '/' (by decide)]

theorem opensNothing_of_isAsciiBlank {c : Char} (hc : isAsciiBlank c = true) :
    opensNothing c = true := by
  simp only [isAsciiBlank, Bool.or_eq_true, beq_iff_eq] at hc
  rcases hc with (((rfl | rfl) | rfl) | rfl) | rfl <;> decide

theorem isWordChar_of_isDigit {c : Char} (hc : c.isDigit = true) : isWordChar c = true :=
  isWordChar_of_isNameTail (Query.isNameTail_of_isDigit hc)

end Text

namespace Paging

/-! ## Sequences of items -/

/-- One of the two keywords in any case, blanks, and decimal digits. -/
structure Item where
  keyword : Keyword
  word : Text
  gap : Text
  digits : Text
  isPaging : keyword = .limit ∨ keyword = .offset
  spelled : word.map Char.toUpper = keyword.name.toList
  gap_ne_nil : gap ≠ []
  isAsciiBlank_gap : ∀ c ∈ gap, Text.isAsciiBlank c = true
  digits_ne_nil : digits ≠ []
  isDigit_digits : ∀ c ∈ digits, c.isDigit = true

namespace Item

variable (item : Item)

def text : Text := item.word ++ (item.gap ++ item.digits)

/-- The number that the digits write, of any size. -/
def value : Nat := Nat.ofDigitChars 10 item.digits 0

/-- The number behind its keyword. -/
def entry : Keyword × UInt64 := (item.keyword, UInt64.ofNat item.value)

/-- The item with some zeros in front of its digits. -/
def pad (zeros : Nat) : Item :=
  { item with
    digits := List.replicate zeros '0' ++ item.digits
    digits_ne_nil := by simp [item.digits_ne_nil]
    isDigit_digits := List.forall_mem_append.mpr
      ⟨fun c hc => by rw [List.eq_of_mem_replicate hc]; rfl, item.isDigit_digits⟩ }

end Item

/-- A text that is a sequence of items.  What follows an item begins with a blank, if
anything follows. -/
inductive Written : List Item → Text → Prop
  | nil {gap : Text} (hgap : ∀ c ∈ gap, Text.isAsciiBlank c = true) : Written [] gap
  | cons {item : Item} {items : List Item} {gap rest : Text}
      (hgap : ∀ c ∈ gap, Text.isAsciiBlank c = true) (hrest : Written items rest)
      (hends : ∀ c ∈ rest.head?, Text.isAsciiBlank c = true) :
      Written (item :: items) (gap ++ (item.text ++ rest))

/-- The number of the last item of a keyword. -/
def last? (keyword : Keyword) (items : List Item) : Option UInt64 :=
  (items.filter fun item => item.keyword = keyword).getLast?.map fun item =>
    UInt64.ofNat item.value

/-- The numbers that a sequence of items gives. -/
def ofItems (items : List Item) : Paging where
  limit := last? .limit items
  offset := last? .offset items

namespace Item

variable (item : Item)

theorem form_eq : item.keyword.form = .phrase [item.keyword.name.toList] := by
  rcases item.isPaging with h | h <;> rw [h] <;> rfl

theorem isAlpha_word : ∀ c ∈ item.word, c.isAlpha = true := by
  refine Keyword.isAlpha_of_map_toUpper ?_ item.spelled
  rcases item.isPaging with h | h <;> simp [h, Keyword.limit, Keyword.offset, Keyword.ofWords]

theorem word_ne_nil : item.word ≠ [] := by
  intro hnil
  have hspelled := item.spelled
  rw [hnil] at hspelled
  rcases item.isPaging with h | h <;> rw [h] at hspelled <;> exact absurd hspelled (by decide)

theorem isWordChar_word : ∀ c ∈ item.word, Text.isWordChar c = true :=
  fun c hc => Text.isWordChar_of_isAlpha (item.isAlpha_word c hc)

theorem isWordChar_digits : ∀ c ∈ item.digits, Text.isWordChar c = true :=
  fun c hc => Text.isWordChar_of_isDigit (item.isDigit_digits c hc)

theorem exists_text_eq_cons : ∃ c rest, item.text = c :: rest ∧ Text.isWordChar c = true := by
  obtain ⟨c, word, hword⟩ := List.exists_cons_of_ne_nil item.word_ne_nil
  refine ⟨c, word ++ (item.gap ++ item.digits), ?_, item.isWordChar_word c ?_⟩
  · rw [text, hword, List.cons_append]
  · rw [hword]
    exact List.mem_cons_self

theorem opensNothing_text : ∀ c ∈ item.text, Text.opensNothing c = true := by
  unfold text
  simp only [List.forall_mem_append]
  exact ⟨fun c hc => Text.opensNothing_of_isWordChar (item.isWordChar_word c hc),
    fun c hc => Text.opensNothing_of_isAsciiBlank (item.isAsciiBlank_gap c hc),
    fun c hc => Text.opensNothing_of_isWordChar (item.isWordChar_digits c hc)⟩

theorem value_pad (zeros : Nat) : (item.pad zeros).value = item.value := by
  have hzeros : ∀ digits : Text, Nat.ofDigitChars 10 (List.replicate zeros '0' ++ digits) 0 =
      Nat.ofDigitChars 10 digits 0 := by
    intro digits
    induction zeros with
    | zero => rfl
    | succ zeros ih =>
        rw [List.replicate_succ, List.cons_append, Nat.ofDigitChars_cons]
        exact ih
  exact hzeros item.digits

end Item

namespace Written

variable {items : List Item} {text : Text}

theorem opensNothing (hwritten : Written items text) : ∀ c ∈ text, Text.opensNothing c = true := by
  induction hwritten with
  | nil hgap => exact fun c hc => Text.opensNothing_of_isAsciiBlank (hgap c hc)
  | @cons item _ _ _ hgap _ _ ih =>
      simp only [List.forall_mem_append]
      exact ⟨fun c hc => Text.opensNothing_of_isAsciiBlank (hgap c hc), item.opensNothing_text, ih⟩

/-- More blanks in front of a sequence. -/
theorem pad {gap : Text} (hgap : ∀ c ∈ gap, Text.isAsciiBlank c = true)
    (hwritten : Written items text) : Written items (gap ++ text) := by
  cases hwritten with
  | nil hblank => exact .nil (List.forall_mem_append.mpr ⟨hgap, hblank⟩)
  | cons hblank hrest hends =>
      rw [← List.append_assoc]
      exact .cons (List.forall_mem_append.mpr ⟨hgap, hblank⟩) hrest hends

theorem isAsciiBlank_head (hwritten : Written items text)
    (hhead : ∀ c ∈ text.head?, Text.isWordChar c = false) :
    ∀ c ∈ text.head?, Text.isAsciiBlank c = true := by
  cases hwritten with
  | nil hgap => exact fun c hc => hgap c (List.mem_of_mem_head? hc)
  | @cons item _ gap _ hgap _ _ =>
      cases gap with
      | cons d gap =>
          intro c hc
          obtain rfl : d = c := by simpa using hc
          exact hgap d List.mem_cons_self
      | nil =>
          obtain ⟨d, rest, htext, hd⟩ := item.exists_text_eq_cons
          rw [hhead d (by simp [htext])] at hd
          exact absurd hd Bool.false_ne_true

end Written

theorem put_limit (paging : Paging) (number : UInt64) :
    paging.put (.limit, number) = { paging with limit := some number } := rfl

theorem put_offset (paging : Paging) (number : UInt64) :
    paging.put (.offset, number) = { paging with offset := some number } := rfl

/-- Putting the numbers of a sequence one by one leaves the last ones. -/
theorem foldl_put_entries (items : List Item) :
    (items.map Item.entry).foldl put {} = ofItems items := by
  induction items using List.reverseRecOn with
  | nil => rfl
  | append_singleton items item ih =>
      rw [List.map_append, List.foldl_append, ih]
      rcases item.isPaging with h | h <;>
        simp [put, ofItems, last?, Item.entry, List.filter_append, h, Keyword.limit,
          Keyword.offset, Keyword.ofWords]

/-! ## Numbers -/

theorem number?_eq (text : Text) :
    number? text =
      if text.isEmpty || !text.all Char.isDigit then none
      else if Nat.ofDigitChars 10 text 0 < 2 ^ 64 then
        some (UInt64.ofNat (Nat.ofDigitChars 10 text 0))
      else none := by
  have hvalue : text.foldl (fun n c => n * 10 + (c.toNat - '0'.toNat)) 0 =
      Nat.ofDigitChars 10 text 0 := by
    simp only [Nat.ofDigitChars, Nat.mul_comm 10]
  rw [number?, hvalue]
  rfl

theorem Item.number?_digits (item : Item) :
    number? item.digits =
      if item.value < 2 ^ 64 then some (UInt64.ofNat item.value) else none := by
  rw [number?_eq, List.isEmpty_eq_false_iff.mpr item.digits_ne_nil,
    List.all_eq_true.mpr item.isDigit_digits]
  rfl

/-- A text that was read as a number is made of digits, and its number has 64 bits. -/
theorem of_number?_eq_some {text : Text} {number : UInt64} (hnumber : number? text = some number) :
    text ≠ [] ∧ (∀ c ∈ text, c.isDigit = true) ∧ Nat.ofDigitChars 10 text 0 < 2 ^ 64 ∧
      number = UInt64.ofNat (Nat.ofDigitChars 10 text 0) := by
  rw [number?_eq, Option.ite_none_left_eq_some, Option.ite_none_right_eq_some] at hnumber
  obtain ⟨hdigits, hsize, hvalue⟩ := hnumber
  simp only [Bool.or_eq_true, not_or, Bool.not_eq_true, Bool.not_eq_eq_eq_not, Bool.not_true,
    List.isEmpty_eq_false_iff, Bool.not_eq_false] at hdigits
  exact ⟨hdigits.1, List.all_eq_true.mp hdigits.2, hsize, (Option.some.inj hvalue).symm⟩

variable {cursor moved behind : Cursor} {passed cells gap digits rest : List Cell}
  {paging found : Paging} {keyword : Keyword} {number : UInt64} {bound : Nat}

/-- A number that was read is written behind the cursor. -/
theorem exists_of_readNumber_cells {name : String} (hfaces : cursor.Faces passed cells)
    (hread : readNumber name cursor = (.ok number, moved)) :
    ∃ gap digits rest : List Cell, cells = gap ++ (digits ++ rest) ∧
      moved.Faces (passed ++ gap ++ digits) rest ∧
      (∀ c ∈ Cell.text gap, Text.isAsciiBlank c = true) ∧
      number? (Cell.text digits) = some number ∧
      ∀ c ∈ (Cell.text rest).head?, Text.isWordChar c = false := by
  obtain ⟨gap, others, rfl, hgap, hothers⟩ := Cell.exists_split Text.isAsciiBlank cells
  obtain ⟨digits, rest, rfl, hdigits, hrest⟩ := Cell.exists_split Text.isWordChar others
  obtain ⟨stopped, hstopped, hword⟩ := (hfaces.skipBlanks hgap hothers).exists_word hdigits hrest
  unfold readNumber at hread
  dsimp only at hread
  rw [hword] at hread
  split at hread
  · exact absurd (Prod.mk.inj hread).1 (by simp)
  · cases hends : stopped.atEnd || Reader.endsWord stopped.current with
    | false =>
        simp only [hends, Bool.false_eq_true, if_false] at hread
        exact absurd (Prod.mk.inj hread).1 (by simp)
    | true =>
        simp only [hends, if_true] at hread
        split at hread
        · exact absurd (Prod.mk.inj hread).1 (by simp)
        · split at hread
          · exact absurd (Prod.mk.inj hread).1 (by simp)
          · split at hread
            · rename_i value hnumber
              obtain ⟨hvalue, rfl⟩ := Prod.mk.inj hread
              obtain rfl := Except.ok.inj hvalue
              exact ⟨gap, digits, rest, rfl, hstopped, hgap, hnumber, hrest⟩
            · exact absurd (Prod.mk.inj hread).1 (by simp)

/-- A blank ends a word, as the end of the text does, and neither is a comma. -/
theorem endsWord_of_faces {behind : Cursor} (hbehind : behind.Faces passed rest)
    (hends : ∀ c ∈ (Cell.text rest).head?, Text.isAsciiBlank c = true) :
    (behind.atEnd || Reader.endsWord behind.current) = true ∧ behind.current ≠ ',' := by
  cases rest with
  | nil =>
      rw [hbehind.current_nil, hbehind.atEnd_eq]
      exact ⟨rfl, by decide⟩
  | cons cell rest =>
      have hblank := hends cell.char rfl
      have hascii : cell.char.toNat < 0x80 := by
        simp only [Text.isAsciiBlank, Bool.or_eq_true, beq_iff_eq] at hblank
        rcases hblank with (((h | h) | h) | h) | h <;> rw [h] <;> decide
      have hcells : Cell.text (cell :: rest) = cell.char :: Cell.text rest := rfl
      rw [hbehind.current_eq hcells hascii, Reader.endsWord, hblank]
      refine ⟨by simp, ?_⟩
      rintro hcomma
      rw [hcomma] at hblank
      exact absurd hblank (by decide)

/-- The number of an item is read if it has 64 bits, and refused otherwise. -/
theorem readNumber_item (item : Item) (name : String)
    (hfaces : cursor.Faces passed (gap ++ (digits ++ rest))) (hgap : Cell.text gap = item.gap)
    (hdigits : Cell.text digits = item.digits)
    (hends : ∀ c ∈ (Cell.text rest).head?, Text.isAsciiBlank c = true) :
    ∃ behind : Cursor, behind.Faces (passed ++ gap ++ digits) rest ∧
      readNumber name cursor =
        if item.value < 2 ^ 64 then (.ok (UInt64.ofNat item.value), behind)
        else (.error (behind.error cursor.skipBlanks.position (.invalidNumber name)), behind) := by
  obtain ⟨d, others, hhead⟩ := List.exists_cons_of_ne_nil item.digits_ne_nil
  have hd := item.isDigit_digits d (hhead ▸ List.mem_cons_self)
  have hrange := Text.toNat_of_isDigit hd
  have hne : ∀ c : Char, c.isDigit = false → d ≠ c := by
    rintro c hc rfl
    rw [hd] at hc
    exact absurd hc (by decide)
  have htext : Cell.text (digits ++ rest) = d :: (others ++ Cell.text rest) := by
    rw [Cell.text_append, hdigits, hhead, List.cons_append]
  have hstart := hfaces.skipBlanks (hgap ▸ item.isAsciiBlank_gap) fun c hc => by
    obtain rfl : d = c := by simpa [htext] using hc
    exact Text.isAsciiBlank_eq_false_of_isWordChar (Text.isWordChar_of_isDigit hd)
  have hcurrent := hstart.current_eq htext (by omega)
  obtain ⟨behind, hbehind, hword⟩ := hstart.exists_word (hdigits ▸ item.isWordChar_digits)
    fun c hc => Text.not_isWordChar_of_isAsciiBlank (hends c hc)
  have hstop := endsWord_of_faces hbehind hends
  have hcolon : (Cell.text digits).head? ≠ some ':' := by
    rw [hdigits, hhead]
    simpa using hne ':' (by decide)
  refine ⟨behind, hbehind, ?_⟩
  rw [readNumber]
  simp only [hcurrent, hne '?' (by decide), if_false, hword, hstop.1, if_true, hcolon, hstop.2]
  rw [hdigits, item.number?_digits]
  split
  · rename_i hnumber
    obtain ⟨hsize, hvalue⟩ := Option.ite_none_right_eq_some.mp hnumber
    rw [if_pos hsize, Option.some.inj hvalue]
  · rename_i hnumber
    rw [if_neg (by simpa using hnumber)]

/-! ## What is read is a sequence of items -/

/-- Reading ends with the text, or goes on behind a keyword with its number. -/
theorem readWithin_succ_eq_ok (hread : (readWithin (bound + 1) paging cursor).1 = .ok found) :
    (cursor.skipBlanks.atEnd = true ∧ found = paging) ∨
      ∃ (keyword : Keyword) (name : String) (number : UInt64) (moved behind : Cursor),
        (keyword = .limit ∨ keyword = .offset) ∧
        cursor.skipBlanks.consume keyword = (true, moved) ∧
        readNumber name moved = (.ok number, behind) ∧
        (readWithin bound (paging.put (keyword, number)) behind).1 = .ok found := by
  rw [readWithin] at hread
  split at hread
  · rename_i hend
    exact .inl ⟨hend, (Except.ok.inj hread).symm⟩
  · split at hread
    · rename_i moved hconsume
      split at hread
      · rename_i number behind hnumber
        exact .inr ⟨.limit, _, number, moved, behind, .inl rfl, hconsume, hnumber, hread⟩
      · exact absurd hread (by simp)
    · split at hread
      · rename_i moved hconsume
        split at hread
        · rename_i number behind hnumber
          exact .inr ⟨.offset, _, number, moved, behind, .inr rfl, hconsume, hnumber, hread⟩
        · exact absurd hread (by simp)
      · exact absurd hread (by simp)

/-- A keyword and a number that were read make an item. -/
theorem exists_item {name : String} (hkeyword : keyword = .limit ∨ keyword = .offset)
    (hfaces : cursor.Faces passed cells) (hconsume : cursor.consume keyword = (true, moved))
    (hread : readNumber name moved = (.ok number, behind)) :
    ∃ (item : Item) (piece rest : List Cell), cells = piece ++ rest ∧
      Cell.text piece = item.text ∧ item.value < 2 ^ 64 ∧ item.entry = (keyword, number) ∧
      behind.Faces (passed ++ piece) rest ∧
      ∀ c ∈ (Cell.text rest).head?, Text.isWordChar c = false := by
  have hform : keyword.form = .phrase [keyword.name.toList] := by
    rcases hkeyword with rfl | rfl <;> rfl
  obtain ⟨word, others, rfl, hmoved, hfits⟩ := hfaces.exists_of_consume hconsume
  obtain ⟨gap, digits, rest, rfl, hbehind, hgap, hnumber, hrest⟩ :=
    exists_of_readNumber_cells hmoved hread
  obtain ⟨hne, hdigits, hsize, hvalue⟩ := of_number?_eq_some hnumber
  have hclear := (hfits.bounded _ hform).2
  -- The first digit would touch the keyword if there were no blank between them.
  have hgap_ne : Cell.text gap ≠ [] := by
    intro hnil
    obtain ⟨d, text, htext⟩ := List.exists_cons_of_ne_nil hne
    have hd := hdigits d (htext ▸ List.mem_cons_self)
    rw [Cell.text_append, hnil, List.nil_append, Cell.text_append, htext, List.cons_append,
      List.head?_cons, Option.any_some, Text.isWordChar_of_isDigit hd] at hclear
    exact absurd hclear (by decide)
  have hspelled := (Keyword.spells_iff_of_word hform).mp hfits.spells
  let item : Item :=
    ⟨keyword, Cell.text word, Cell.text gap, Cell.text digits, hkeyword, hspelled, hgap_ne, hgap,
      hne, hdigits⟩
  refine ⟨item, word ++ (gap ++ digits), rest, by simp, ?_, hsize, ?_, ?_, hrest⟩
  · rw [Cell.text_append, Cell.text_append]
    rfl
  · rw [hvalue]
    rfl
  · simpa using hbehind

/-- A text that was read to its end is a sequence of items. -/
theorem exists_written_of_readWithin (hbound : cells.length < bound)
    (hfaces : cursor.Faces passed cells) (hread : (readWithin bound paging cursor).1 = .ok found) :
    ∃ items, Written items (Cell.text cells) ∧ (∀ item ∈ items, item.value < 2 ^ 64) ∧
      found = (items.map Item.entry).foldl put paging := by
  induction bound generalizing paging cursor passed cells with
  | zero => exact absurd hbound (Nat.not_lt_zero _)
  | succ bound ih =>
      obtain ⟨gap, others, rfl, hgap, hothers⟩ := Cell.exists_split Text.isAsciiBlank cells
      have hstart := hfaces.skipBlanks hgap hothers
      rw [Cell.text_append]
      rcases readWithin_succ_eq_ok hread with ⟨hend, rfl⟩ |
        ⟨keyword, name, number, moved, behind, hkeyword, hconsume, hnumber, hrest⟩
      · rw [hstart.atEnd_eq, List.isEmpty_iff] at hend
        subst hend
        have hwritten : Written [] (Cell.text gap ++ Cell.text []) :=
          (Written.nil (List.forall_mem_nil _)).pad hgap
        exact ⟨[], hwritten, List.forall_mem_nil _, rfl⟩
      · obtain ⟨item, piece, rest, rfl, hpiece, hsize, hentry, hbehind, hclear⟩ :=
          exists_item hkeyword hstart hconsume hnumber
        have hne : piece ≠ [] := by
          rintro rfl
          obtain ⟨c, others, hitem, -⟩ := item.exists_text_eq_cons
          exact List.cons_ne_nil c others (hitem.symm.trans hpiece.symm)
        have hpos := List.length_pos_of_ne_nil hne
        rw [List.length_append, List.length_append] at hbound
        obtain ⟨items, hwritten, hsizes, rfl⟩ := ih (by omega) hbehind hrest
        refine ⟨item :: items, ?_, List.forall_mem_cons.mpr ⟨hsize, hsizes⟩, ?_⟩
        · rw [Cell.text_append, hpiece]
          exact .cons hgap hwritten (hwritten.isAsciiBlank_head hclear)
        · rw [List.map_cons, List.foldl_cons, hentry]

/-! ## A sequence of items is read -/

theorem head?_of_spelled {word rest name : Text} {c : Char}
    (hspelled : word.map Char.toUpper = c :: name) :
    (word ++ rest).head?.map Char.toUpper = some c := by
  cases word with
  | nil => exact absurd hspelled (by simp)
  | cons d word => exact congrArg some (List.cons.inj hspelled).1

/-- Where OFFSET stands LIMIT is not consumed. -/
theorem consume_limit_of_offset {word : List Cell} (hfaces : cursor.Faces passed (word ++ rest))
    (hspelled : (Cell.text word).map Char.toUpper = "OFFSET".toList) :
    cursor.consume .limit = (false, cursor) := by
  refine Cursor.consume_of_ne fun moved hconsume => ?_
  obtain ⟨other, behind, hcells, -, hfits⟩ := hfaces.exists_of_consume hconsume
  have hlimit : (Cell.text other).map Char.toUpper = "LIMIT".toList :=
    (Keyword.spells_iff_of_word rfl).mp hfits.spells
  have hhead := @head?_of_spelled _ (Cell.text rest) _ 'O' hspelled
  rw [← Cell.text_append, hcells, Cell.text_append,
    @head?_of_spelled _ (Cell.text behind) _ 'L' hlimit] at hhead
  exact absurd hhead (by decide)

/-- The keyword of an item is consumed, and its number is read behind it. -/
theorem readWithin_keyword (item : Item) {word : List Cell}
    (hstart : cursor.skipBlanks.Faces passed (word ++ rest)) (hword : Cell.text word = item.word)
    (hcode : ∀ cell ∈ word, cell.isCode = true)
    (hbefore : (Cell.text passed).getLast?.any Text.isWordChar = false)
    (hbehind : (Cell.text rest).head?.any Text.isWordChar = false) :
    ∃ moved : Cursor, moved.Faces (passed ++ word) rest ∧
      (∀ number behind, readNumber item.keyword.name moved = (.ok number, behind) →
        readWithin (bound + 1) paging cursor =
          readWithin bound (paging.put (item.keyword, number)) behind) ∧
      ∀ error behind, readNumber item.keyword.name moved = (.error error, behind) →
        (readWithin (bound + 1) paging cursor).1 = .error error := by
  have hne : word ≠ [] := by
    rintro rfl
    exact item.word_ne_nil hword.symm
  have hspelled := item.spelled
  have hfits : item.keyword.Fits (Cell.text passed).getLast? (Cell.text word) (Cell.text rest) :=
    ⟨(Keyword.spells_iff_of_word item.form_eq).mpr (hword ▸ hspelled),
      fun _ _ => ⟨hbefore, hbehind⟩⟩
  have hconsume := hstart.consume_eq item.form_eq hne hcode hfits
  have hend : cursor.skipBlanks.atEnd = false := by
    rw [hstart.atEnd_eq]
    simp [hne]
  refine ⟨_, hstart.jump, ?_⟩
  rw [readWithin, hend]
  rw [← hword] at hspelled
  rcases item.isPaging with hkeyword | hkeyword
  · have hname : Keyword.limit.name = "LIMIT" := rfl
    rw [hkeyword] at hconsume ⊢
    simp only [Bool.false_eq_true, if_false, hconsume, hname, put_limit]
    constructor <;> intro _ _ hnumber <;> rw [hnumber]
  · have hname : Keyword.offset.name = "OFFSET" := rfl
    rw [hkeyword] at hconsume hspelled ⊢
    simp only [Bool.false_eq_true, if_false, hconsume, consume_limit_of_offset hstart hspelled,
      hname, put_offset]
    constructor <;> intro _ _ hnumber <;> rw [hnumber]

/-- An item is read if its number has 64 bits, and refused otherwise. -/
theorem readWithin_item (item : Item) {piece : List Cell}
    (hfaces : cursor.Faces passed (gap ++ (piece ++ rest)))
    (hgap : ∀ c ∈ Cell.text gap, Text.isAsciiBlank c = true) (hpiece : Cell.text piece = item.text)
    (hcode : ∀ cell ∈ piece, cell.isCode = true)
    (hbefore : (Cell.text (passed ++ gap)).getLast?.any Text.isWordChar = false)
    (hends : ∀ c ∈ (Cell.text rest).head?, Text.isAsciiBlank c = true) :
    ∃ behind : Cursor, behind.Faces (passed ++ gap ++ piece) rest ∧
      if item.value < 2 ^ 64 then
        readWithin (bound + 1) paging cursor = readWithin bound (paging.put item.entry) behind
      else
        ∃ error, (readWithin (bound + 1) paging cursor).1 = .error error ∧
          error.cause = .invalidNumber item.keyword.name := by
  obtain ⟨word, others, rfl, hword, hothers⟩ := List.map_eq_append_iff.mp hpiece
  obtain ⟨space, digits, rfl, hspace, hdigits⟩ := List.map_eq_append_iff.mp hothers
  obtain ⟨c, text, hhead⟩ := List.exists_cons_of_ne_nil item.word_ne_nil
  obtain ⟨d, blanks, hblanks⟩ := List.exists_cons_of_ne_nil item.gap_ne_nil
  have hc := item.isWordChar_word c (hhead ▸ List.mem_cons_self)
  have hd := item.isAsciiBlank_gap d (hblanks ▸ List.mem_cons_self)
  rw [List.append_assoc] at hfaces
  have hstart := hfaces.skipBlanks hgap fun e he => by
    obtain rfl : c = e := by simpa [Cell.text, hword, hhead] using he
    exact Text.isAsciiBlank_eq_false_of_isWordChar hc
  obtain ⟨moved, hmoved, hread, hfail⟩ := @readWithin_keyword _ _ _ paging bound item word hstart hword
    (fun cell hmem => hcode cell (List.mem_append_left _ hmem)) hbefore (by
      simp [Cell.text, hspace, hblanks, Text.not_isWordChar_of_isAsciiBlank hd])
  rw [List.append_assoc space] at hmoved
  obtain ⟨behind, hbehind, hnumber⟩ := readNumber_item item item.keyword.name hmoved hspace hdigits
    hends
  refine ⟨behind, by simpa using hbehind, ?_⟩
  split
  · rename_i hsize
    rw [if_pos hsize] at hnumber
    exact hread _ _ hnumber
  · rename_i hsize
    rw [if_neg hsize] at hnumber
    exact ⟨_, hfail _ _ hnumber, rfl⟩

/-- If blanks or nothing stand between a character of a word and the next one, then no character
of a word is in front of that one. -/
theorem isWordChar_before {gap rest : Text} {before : Option Char} {c : Char}
    (hgap : ∀ d ∈ gap, Text.isAsciiBlank d = true) (hc : Text.isWordChar c = true)
    (hseam : before.any Text.isWordChar = false ∨
      ∀ d ∈ (gap ++ c :: rest).head?, Text.isAsciiBlank d = true) :
    (gap.getLast?.or before).any Text.isWordChar = false := by
  cases hlast : gap.getLast? with
  | some d => exact Text.not_isWordChar_of_isAsciiBlank (hgap d (List.mem_of_getLast? hlast))
  | none =>
      obtain rfl := List.getLast?_eq_none_iff.mp hlast
      rcases hseam with hbefore | hblank
      · exact hbefore
      · rw [Text.not_isWordChar_of_isAsciiBlank (hblank c rfl)] at hc
        exact absurd hc (by decide)

/-- A sequence of items is read if all numbers have 64 bits, and refused otherwise. -/
theorem readWithin_written {items : List Item} (hwritten : Written items (Cell.text cells))
    (hcode : ∀ cell ∈ cells, cell.isCode = true) (hfaces : cursor.Faces passed cells)
    (hseam : (Cell.text passed).getLast?.any Text.isWordChar = false ∨
      ∀ c ∈ (Cell.text cells).head?, Text.isAsciiBlank c = true)
    (hbound : cells.length < bound) :
    ((∀ item ∈ items, item.value < 2 ^ 64) →
      (readWithin bound paging cursor).1 = .ok ((items.map Item.entry).foldl put paging)) ∧
    ((∃ item ∈ items, 2 ^ 64 ≤ item.value) →
      ∃ error, (readWithin bound paging cursor).1 = .error error ∧
        ∃ item ∈ items, 2 ^ 64 ≤ item.value ∧
          error.cause = .invalidNumber item.keyword.name) := by
  generalize htext : Cell.text cells = text at hwritten
  -- The seam is kept: behind an item there is a blank, so a word may end there.
  induction hwritten generalizing cursor passed cells paging bound with
  | @nil gap hgap =>
      refine ⟨fun _ => ?_, fun hlarge => by simp at hlarge⟩
      rw [← List.append_nil cells] at hfaces
      have hend := (hfaces.skipBlanks (htext ▸ hgap) (by simp [Cell.text])).atEnd_eq
      cases bound with
      | zero => exact absurd hbound (Nat.not_lt_zero _)
      | succ bound =>
          rw [readWithin, hend]
          rfl
  | @cons item items gap text hgap hrest hends ih =>
      obtain ⟨blanks, others, rfl, rfl, hothers⟩ := List.map_eq_append_iff.mp htext
      obtain ⟨piece, rest, rfl, hpiece, rfl⟩ := List.map_eq_append_iff.mp hothers
      simp only [List.forall_mem_append] at hcode
      obtain ⟨c, others, hitem, hc⟩ := item.exists_text_eq_cons
      have hhead : Cell.text (piece ++ rest) = c :: (others ++ Cell.text rest) := by
        rw [Cell.text_append, Cell.text, hpiece, hitem, List.cons_append]
      rw [Cell.text_append, hhead] at hseam
      have hbefore : (Cell.text (passed ++ blanks)).getLast?.any Text.isWordChar = false := by
        rw [Cell.text_append, List.getLast?_append]
        exact isWordChar_before hgap hc hseam
      cases bound with
      | zero => exact absurd hbound (Nat.not_lt_zero _)
      | succ bound =>
          obtain ⟨behind, hbehind, hread⟩ := @readWithin_item _ _ _ _ paging bound item piece
            hfaces hgap hpiece hcode.2.1 hbefore hends
          have hpos : 0 < piece.length := by
            rw [← @List.length_map _ _ piece Cell.char, hpiece, hitem]
            exact Nat.succ_pos _
          rw [List.length_append, List.length_append] at hbound
          have hshort : rest.length < bound := by omega
          obtain ⟨hsmall, hlarge⟩ := ih hcode.2.2 hbehind (.inr hends) hshort rfl
          by_cases hsize : item.value < 2 ^ 64
          · rw [if_pos hsize] at hread
            rw [hread]
            constructor
            · exact fun hsizes => hsmall (List.forall_mem_cons.mp hsizes).2
            · rintro ⟨other, hmem, hother⟩
              rcases List.mem_cons.mp hmem with rfl | hmem
              · exact absurd hsize (Nat.not_lt.mpr hother)
              · obtain ⟨error, hfailed, bad, hbad, hcause⟩ := hlarge ⟨other, hmem, hother⟩
                exact ⟨error, hfailed, bad, List.mem_cons_of_mem _ hbad, hcause⟩
          · rw [if_neg hsize] at hread
            constructor
            · exact fun hsizes => absurd (hsizes item List.mem_cons_self) hsize
            · obtain ⟨error, hfailed, hcause⟩ := hread
              exact fun _ =>
                ⟨error, hfailed, item, List.mem_cons_self, Nat.not_lt.mp hsize, hcause⟩

/-! ## The whole text -/

variable {items items' : List Item} {text text' : Text}

/-- What becomes of a text that is a sequence of items. -/
theorem read_written (hwritten : Written items text) (offset : Nat) (clause : Option Clause) :
    ((∀ item ∈ items, item.value < 2 ^ 64) →
      (read { text, offset, clause }).1 = .ok (ofItems items)) ∧
    ((∃ item ∈ items, 2 ^ 64 ≤ item.value) →
      ∃ error, (read { text, offset, clause }).1 = .error error ∧
        ∃ item ∈ items, 2 ^ 64 ≤ item.value ∧
          error.cause = .invalidNumber item.keyword.name) := by
  have hcells : Cell.text text.cells = text := Mode.text_cells _ _
  have hcode := Text.isCode_cells hwritten.opensNothing
  rw [← hcells] at hwritten
  have hbound : text.cells.length < Text.size text + 1 := by
    have hlength := Cell.length_le_size text.cells
    rw [hcells] at hlength
    exact Nat.lt_succ_of_le hlength
  rw [← foldl_put_entries]
  exact readWithin_written hwritten hcode (Cursor.faces_start rfl) (.inl rfl) hbound

/-- Sequences that give the same numbers are read alike. -/
theorem read_congr (hwritten : Written items text) (hwritten' : Written items' text')
    (hsizes : (∀ item ∈ items, item.value < 2 ^ 64) ↔ ∀ item ∈ items', item.value < 2 ^ 64)
    (hnumbers : ofItems items = ofItems items') (offset : Nat) (clause : Option Clause)
    (paging : Paging) :
    (read { text, offset, clause }).1 = .ok paging ↔
      (read { text := text', offset, clause }).1 = .ok paging := by
  obtain ⟨hsmall, hlarge⟩ := read_written hwritten offset clause
  obtain ⟨hsmall', hlarge'⟩ := read_written hwritten' offset clause
  by_cases hsize : ∀ item ∈ items, item.value < 2 ^ 64
  · rw [hsmall hsize, hsmall' (hsizes.mp hsize), hnumbers]
  · have hsize' := mt hsizes.mpr hsize
    simp only [not_forall, Nat.not_lt, exists_prop] at hsize hsize'
    obtain ⟨error, hfailed, -⟩ := hlarge hsize
    obtain ⟨error', hfailed', -⟩ := hlarge' hsize'
    rw [hfailed, hfailed']
    simp

theorem ofItems_swap {first second : Item} (hne : first.keyword ≠ second.keyword)
    (front back : List Item) :
    ofItems (front ++ first :: second :: back) = ofItems (front ++ second :: first :: back) := by
  have hlast : ∀ keyword, last? keyword (front ++ first :: second :: back) =
      last? keyword (front ++ second :: first :: back) := by
    intro keyword
    unfold last?
    simp only [List.filter_append, List.filter_cons]
    by_cases hfirst : first.keyword = keyword
    · have hsecond : second.keyword ≠ keyword := fun h => hne (hfirst.trans h.symm)
      simp [hfirst, hsecond]
    · simp [hfirst]
  rw [ofItems, ofItems, hlast, hlast]

theorem ofItems_pad (item : Item) (zeros : Nat) (front back : List Item) :
    ofItems (front ++ item.pad zeros :: back) = ofItems (front ++ item :: back) := by
  have hentry : (item.pad zeros).entry = item.entry := by
    rw [Item.entry, item.value_pad]
    rfl
  rw [← foldl_put_entries, ← foldl_put_entries, List.map_append, List.map_append, List.map_cons,
    List.map_cons, hentry]

/-- A text is read as LIMIT and OFFSET if and only if it is a sequence of items whose numbers
have 64 bits, and the last item of each keyword gives its number.  A larger number is refused.
Neither the order of LIMIT and OFFSET matters nor zeros in front of a number. -/
theorem read_iff_written (text : Text) (offset : Nat) (clause : Option Clause) :
    let result (text : Text) := (read { text, offset, clause }).1
    (∀ paging, result text = .ok paging ↔
      ∃ items, Written items text ∧ (∀ item ∈ items, item.value < 2 ^ 64) ∧
        paging = ofItems items) ∧
    (∀ items, Written items text → (∃ item ∈ items, 2 ^ 64 ≤ item.value) →
      ∃ error, result text = .error error ∧ ∃ item ∈ items, 2 ^ 64 ≤ item.value ∧
        error.cause = .invalidNumber item.keyword.name) ∧
    (∀ (front : List Item) (first second : Item) (back : List Item) (swapped : Text),
      first.keyword ≠ second.keyword →
      Written (front ++ first :: second :: back) text →
      Written (front ++ second :: first :: back) swapped →
      ∀ paging, result text = .ok paging ↔ result swapped = .ok paging) ∧
    (∀ (front : List Item) (item : Item) (zeros : Nat) (back : List Item) (padded : Text),
      Written (front ++ item :: back) text →
      Written (front ++ item.pad zeros :: back) padded →
      ∀ paging, result text = .ok paging ↔ result padded = .ok paging) := by
  intro result
  have hcells : Cell.text text.cells = text := Mode.text_cells _ _
  refine ⟨fun paging => ⟨?read, ?written⟩, ?large, ?swap, ?pad⟩
  case read =>
    intro hread
    have hlength := Cell.length_le_size text.cells
    rw [hcells] at hlength
    obtain ⟨items, hwritten, hsizes, hpaging⟩ := exists_written_of_readWithin
      (Nat.lt_succ_of_le hlength) (Cursor.faces_start rfl) hread
    rw [hcells] at hwritten
    exact ⟨items, hwritten, hsizes, hpaging.trans (foldl_put_entries items)⟩
  case written =>
    rintro ⟨items, hwritten, hsizes, rfl⟩
    exact (read_written hwritten offset clause).1 hsizes
  case large =>
    intro items hwritten hlarge
    exact (read_written hwritten offset clause).2 hlarge
  case swap =>
    intro front first second back swapped hne hwritten hswapped paging
    refine read_congr hwritten hswapped ?_ (ofItems_swap hne front back) offset clause paging
    simp only [List.forall_mem_append, List.forall_mem_cons]
    exact and_congr_right fun _ => and_left_comm
  case pad =>
    intro front item zeros back padded hwritten hpadded paging
    refine read_congr hwritten hpadded ?_ (ofItems_pad item zeros front back).symm offset clause
      paging
    simp only [List.forall_mem_append, List.forall_mem_cons, Item.value_pad]

/-- Both keywords in either order, and a number that is too large. -/
theorem read_iff_written_limit_offset :
    let result (text : String) := (read { text := text.toList }).1
    result "\tlimit 007 OFFSET 3" = .ok { limit := some 7, offset := some 3 } ∧
      result "OFFSET 3\nlimit 007 " = .ok { limit := some 7, offset := some 3 } ∧
      ∃ error, result "OFFSET 18446744073709551616" = .error error := by
  intro result
  let limit : Item :=
    { keyword := .limit, word := "limit".toList, gap := [' '], digits := "007".toList
      isPaging := .inl rfl, spelled := rfl, gap_ne_nil := by decide, digits_ne_nil := by decide
      isAsciiBlank_gap := List.all_eq_true.mp rfl, isDigit_digits := List.all_eq_true.mp rfl }
  let offset : Item :=
    { keyword := .offset, word := "OFFSET".toList, gap := [' '], digits := "3".toList
      isPaging := .inr rfl, spelled := rfl, gap_ne_nil := by decide, digits_ne_nil := by decide
      isAsciiBlank_gap := List.all_eq_true.mp rfl, isDigit_digits := List.all_eq_true.mp rfl }
  let large : Item :=
    { offset with
      digits := "18446744073709551616".toList
      digits_ne_nil := by decide
      isDigit_digits := List.all_eq_true.mp rfl }
  have hend : Written [] [] := .nil (List.forall_mem_nil _)
  have hblank : ∀ c ∈ [' '], Text.isAsciiBlank c = true := List.all_eq_true.mp rfl
  have hfirst : Written [limit, offset]
      (['\t'] ++ (limit.text ++ ([' '] ++ (offset.text ++ [])))) :=
    .cons (List.all_eq_true.mp rfl) (.cons hblank hend (by simp)) (by simp [Text.isAsciiBlank])
  have hsecond : Written [offset, limit]
      ([] ++ (offset.text ++ (['\n'] ++ (limit.text ++ [' '])))) :=
    .cons (List.forall_mem_nil _)
      (.cons (List.all_eq_true.mp rfl) (.nil hblank) (by simp [Text.isAsciiBlank]))
      (by simp [Text.isAsciiBlank])
  have hlarge : Written [large] ([] ++ (large.text ++ [])) :=
    .cons (List.forall_mem_nil _) hend (by simp)
  have htext : "\tlimit 007 OFFSET 3".toList =
      ['\t'] ++ (limit.text ++ ([' '] ++ (offset.text ++ []))) := rfl
  have htext' : "OFFSET 3\nlimit 007 ".toList =
      [] ++ (offset.text ++ (['\n'] ++ (limit.text ++ [' ']))) := rfl
  have htext'' : "OFFSET 18446744073709551616".toList = [] ++ (large.text ++ []) := rfl
  rw [← htext] at hfirst
  rw [← htext'] at hsecond
  rw [← htext''] at hlarge
  have hread : result "\tlimit 007 OFFSET 3" = .ok { limit := some 7, offset := some 3 } :=
    ((read_iff_written _ 0 _).1 _).mpr ⟨_, hfirst, by decide, by decide⟩
  refine ⟨hread, ?swapped, ?large⟩
  case swapped =>
    exact ((read_iff_written _ 0 _).2.2.1 [] limit offset [] _ (by decide) hfirst hsecond _).mp hread
  case large =>
    obtain ⟨error, hfailed, -⟩ :=
      (read_iff_written _ 0 _).2.1 _ hlarge ⟨large, List.mem_cons_self, by decide⟩
    exact ⟨error, hfailed⟩

end Paging

end SelectForm

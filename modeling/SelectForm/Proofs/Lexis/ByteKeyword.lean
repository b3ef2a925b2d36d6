import Mathlib
import SelectForm.Proofs.Lexis.ByteScan
import SelectForm.Proofs.Lexis.PhrasePlaces
import SelectForm.Proofs.Lexis.Recut

/-!
# Keywords byte by byte

A keyword can be compared with the bytes of a text, at any place between two bytes.  The comparison
looks at no byte outside the text.  Between two characters it finds what stands in the cells from
there on, and inside of a character it finds nothing: a symbol begins with the first byte of a
character, and the byte in front of such a place is one of a name.
-/

namespace SelectForm

namespace Keyword

/-- The words of a phrase are written in capitals, as `ofPhrase` writes those of any text. -/
def IsCapital (keyword : Keyword) : Prop :=
  ∀ words, keyword.form = .phrase words → ∀ word ∈ words, word.map Char.toUpper = word

/-- The keywords that are made from a text, whatever it holds, are in capitals. -/
theorem isCapital_ofPhrase (phrase : String) : (ofPhrase phrase).IsCapital := by
  intro words hform word hword
  obtain rfl := Form.phrase.inj ((form_ofPhrase phrase).symm.trans hform)
  obtain ⟨letters, -, rfl⟩ := List.mem_map.mp hword
  rw [List.map_map]
  exact List.map_congr_left fun c _ => Char.toUpper_toUpper_eq_toUpper c

theorem isCapital_ofSymbol (symbol : String) : (ofSymbol symbol).IsCapital := by
  intro words hform
  contradiction

theorem isFilled_of_isPlain {keyword : Keyword} (hplain : keyword.isPlain = true) :
    keyword.IsFilled := by
  cases hform : keyword.form with
  | phrase words => exact isFilled_of_isPhrase (by rw [isPhrase, hplain, hform]; rfl)
  | symbol text =>
      simp only [isPlain, hform, Bool.and_eq_true, Bool.not_eq_true',
        List.isEmpty_eq_false_iff] at hplain
      rw [IsFilled, hform]
      exact hplain.1

theorem isCapital_of_isPlain {keyword : Keyword} (hplain : keyword.isPlain = true) :
    keyword.IsCapital := by
  intro words hform word hword
  simp only [isPlain, hform, Bool.and_eq_true, List.all_eq_true] at hplain
  refine (List.map_congr_left fun c hc => ?_).trans (List.map_id word)
  exact Text.toUpper_of_isUpper ((hplain.2 word hword).2 c hc)

end Keyword

namespace Bytewise

/-! ## Keywords -/

/-- The part of a list between two places that are in order and not behind its end. -/
def part? {α : Type} (list : List α) (first last : Nat) : Option (List α) :=
  if first ≤ last ∧ last ≤ list.length then
    some ((list.drop first).take (last - first))
  else
    none

/-- Whether a word stands in code at a byte, where bytes are compared up to `fold`. -/
def writtenAt (fold : UInt8 → UInt8) (text : Text) (mask : List Bool) (word : List UInt8)
    (place : Nat) : Option Bool :=
  let stop := place + word.length
  if Text.size text < stop then
    some false
  else do
    let code ← part? mask place stop
    if code.all id then
      let written ← part? (Text.bytes text) place stop
      some (written.map fold == word.map fold)
    else
      some false

/-- Where some blanks of code end. -/
def blanksEnd (text : Text) (mask : List Bool) (place : Nat) : Option Nat :=
  if place < Text.size text then do
    let code ← mask[place]?
    if code then
      let byte ← text.byteAt? place
      if Text.isBlankByte byte then blanksEnd text mask (place + 1) else some place
    else
      some place
  else
    some place
termination_by Text.size text - place

/-- Where the further words of a phrase end. -/
def wordsEnd (text : Text) (mask : List Bool) : List Text → Nat → Option (Option Nat)
  | [], place => some (some place)
  | word :: words, place => do
    let start ← blanksEnd text mask place
    if start = place then
      some none
    else
      let written ← writtenAt Text.upperByte text mask (Text.bytes word) start
      if written then wordsEnd text mask words (start + Text.size word) else some none

/-- Where a phrase ends. -/
def phraseEnd (text : Text) (mask : List Bool) : List Text → Nat → Option (Option Nat)
  | [], place => some (some place)
  | word :: words, place => do
    let written ← writtenAt Text.upperByte text mask (Text.bytes word) place
    if written then wordsEnd text mask words (place + Text.size word) else some none

/-- Whether a byte of a name is in front of a place. -/
def gluedBefore (text : Text) (place : Nat) : Option Bool :=
  if 0 < place then (text.byteAt? (place - 1)).map Text.isWordByte else some false

/-- Whether a byte of a name is at a place. -/
def gluedBehind (text : Text) (place : Nat) : Option Bool :=
  if place < Text.size text then (text.byteAt? place).map Text.isWordByte else some false

/-- The number of bytes of a keyword that stands at a byte. -/
def matchAt (text : Text) (mask : List Bool) (keyword : Keyword) (place : Nat) :
    Option (Option Nat) :=
  match keyword.form with
  | .symbol symbol => do
    let written ← writtenAt id text mask (Text.bytes symbol) place
    some (if written then some (Text.size symbol) else none)
  | .phrase words => do
    let glued ← gluedBefore text place
    if glued then
      some none
    else
      match ← phraseEnd text mask words place with
      | none => some none
      | some stop => do
        let glued ← gluedBehind text stop
        some (if glued then none else some (stop - place))

/-- The first of some labelled keywords that stands at a byte, and its number of bytes. -/
def firstAt {α : Type} (text : Text) (mask : List Bool) :
    List (Keyword × α) → Nat → Option (Option (α × Nat))
  | [], _ => some none
  | (keyword, label) :: keywords, place => do
    match ← matchAt text mask keyword place with
    | some count => some (some (label, count))
    | none => firstAt text mask keywords place

/-! ## Words at a byte -/

section Words

variable {text : Text} {passed cells : List Cell} {word : Text} {words : List Text}

theorem part?_eq {α : Type} {list : List α} {first last : Nat} (hfirst : first ≤ last)
    (hlast : last ≤ list.length) :
    part? list first last = some ((list.drop first).take (last - first)) :=
  if_pos ⟨hfirst, hlast⟩

theorem length_codeMask (text : Text) : text.codeMask.length = Text.size text := by
  have hmask : text.codeMask = Cell.mask text.cells := rfl
  rw [hmask, Cell.length_mask, Text.cells, Mode.text_cells]

theorem text_eq_of_cells (hcells : text.cells = passed ++ cells) :
    text = Cell.text passed ++ Cell.text cells := by
  rw [← Cell.text_append, ← hcells, Text.cells, Mode.text_cells]

theorem size_eq_of_cells (hcells : text.cells = passed ++ cells) :
    Text.size text = Text.size (Cell.text passed) + Text.size (Cell.text cells) := by
  conv_lhs => rw [text_eq_of_cells hcells, Text.size_append]

section Spelled

/-! Characters are compared up to `spell`, and their bytes up to `fold`. -/

variable {fold : UInt8 → UInt8} {spell : Char → Char}
  (hfold : ∀ text : Text, Text.bytes (text.map spell) = (Text.bytes text).map fold)

include hfold

/-- What is spelled alike has as many bytes. -/
theorem size_eq_of_map_eq (hspell : text.map spell = word.map spell) :
    Text.size text = Text.size word := by
  have hbytes := congrArg (fun text => (Text.bytes text).length) hspell
  simpa only [hfold, List.length_map, Text.length_bytes] using hbytes

theorem map_take_bytes_iff :
    ((Text.bytes text).take (Text.size word)).map fold = (Text.bytes word).map fold ↔
      ∃ front back, text = front ++ back ∧ front.map spell = word.map spell := by
  constructor
  · intro hbytes
    have hall : Text.bytes (text.map spell) = Text.bytes (word.map spell) ++
        ((Text.bytes text).drop (Text.size word)).map fold := by
      rw [hfold, hfold, ← hbytes, ← List.map_append, List.take_append_drop]
    obtain ⟨more, hparts, -⟩ := Text.exists_of_bytes_eq_append hall
    obtain ⟨front, back, rfl, hfront, -⟩ := List.map_eq_append_iff.mp hparts
    exact ⟨front, back, rfl, hfront⟩
  · rintro ⟨front, back, rfl, hfront⟩
    rw [← size_eq_of_map_eq hfold hfront, ← Text.length_bytes, Text.bytes_append, List.take_left,
      ← hfold, hfront, hfold]

theorem map_take_cells_iff :
    ((Text.bytes (Cell.text cells)).take (Text.size word)).map fold =
        (Text.bytes word).map fold ↔
      ∃ front rest, cells = front ++ rest ∧ (Cell.text front).map spell = word.map spell := by
  rw [map_take_bytes_iff hfold]
  constructor
  · rintro ⟨front, back, hparts, hfront⟩
    obtain ⟨front, back, rfl, rfl, rfl⟩ := List.map_eq_append_iff.mp hparts
    exact ⟨front, back, rfl, hfront⟩
  · rintro ⟨front, rest, rfl, hfront⟩
    exact ⟨_, _, Cell.text_append _ _, hfront⟩

omit hfold in
theorem all_mask_iff {front rest : List Cell} (hcells : text.cells = passed ++ (front ++ rest)) :
    ((text.codeMask.drop (Text.size (Cell.text passed))).take
        (Text.size (Cell.text front))).all id = true ↔ ∀ cell ∈ front, cell.isCode = true := by
  rw [Text.codeMask_part hcells, ← Cell.mask_eq_replicate_iff, ← Cell.length_mask,
    List.eq_replicate_length, List.all_eq_true]
  rfl

/-- Behind some cells a word is found in bytes exactly if it is written in cells of code. -/
theorem exists_writtenAt (hcells : text.cells = passed ++ cells) (word : Text) :
    ∃ written, writtenAt fold text text.codeMask (Text.bytes word)
        (Text.size (Cell.text passed)) = some written ∧
      (written = true ↔ ∃ front rest, cells = front ++ rest ∧
        (Cell.text front).map spell = word.map spell ∧ ∀ cell ∈ front, cell.isCode = true) := by
  have hsize := size_eq_of_cells hcells
  rw [writtenAt, Text.length_bytes]
  split
  · rename_i hshort
    refine ⟨false, rfl, ?_⟩
    simp only [Bool.false_eq_true, false_iff, not_exists, not_and]
    rintro front rest rfl hfront
    have hfront := size_eq_of_map_eq hfold hfront
    rw [Cell.text_append, Text.size_append] at hsize
    omega
  · rename_i hfits
    have hinside : Text.size (Cell.text passed) + Text.size word ≤ Text.size text := by omega
    have hdrop : (Text.bytes text).drop (Text.size (Cell.text passed)) =
        Text.bytes (Cell.text cells) := by
      conv_lhs => rw [text_eq_of_cells hcells, Text.bytes_append]
      exact List.drop_left' (Text.length_bytes _)
    rw [part?_eq (Nat.le_add_right _ _) (by rwa [length_codeMask]),
      part?_eq (Nat.le_add_right _ _) (by rwa [Text.length_bytes]), Nat.add_sub_cancel_left]
    simp only [Option.bind_eq_bind, Option.bind_some, hdrop]
    have hcode : ∀ front rest, cells = front ++ rest →
        (Cell.text front).map spell = word.map spell →
          (((text.codeMask.drop (Text.size (Cell.text passed))).take (Text.size word)).all id =
            true ↔ ∀ cell ∈ front, cell.isCode = true) := by
      rintro front rest rfl hfront
      rw [← size_eq_of_map_eq hfold hfront]
      exact all_mask_iff hcells
    split
    · rename_i hall
      refine ⟨_, rfl, ?_⟩
      rw [beq_iff_eq, map_take_cells_iff hfold]
      constructor
      · rintro ⟨front, rest, hparts, hfront⟩
        exact ⟨front, rest, hparts, hfront, (hcode front rest hparts hfront).mp hall⟩
      · rintro ⟨front, rest, hparts, hfront, -⟩
        exact ⟨front, rest, hparts, hfront⟩
    · rename_i hall
      refine ⟨false, rfl, ?_⟩
      simp only [Bool.false_eq_true, false_iff, not_exists, not_and]
      exact fun front rest hparts hfront hcells =>
        hall ((hcode front rest hparts hfront).mpr hcells)

end Spelled

theorem writtenAt_word (hcells : text.cells = passed ++ cells)
    (hcapital : word.map Char.toUpper = word) :
    writtenAt Text.upperByte text text.codeMask (Text.bytes word)
        (Text.size (Cell.text passed)) =
      some (Keyword.afterWord? word cells).isSome := by
  obtain ⟨written, hwritten, hiff⟩ := exists_writtenAt Text.bytes_map_toUpper hcells word
  rw [hwritten, Option.some_inj, Bool.eq_iff_iff, hiff, Option.isSome_iff_exists, hcapital]
  simp only [Keyword.afterWord?_eq_some_iff, Cell.text, List.map_map]
  exact exists_comm

theorem writtenAt_symbol (hcells : text.cells = passed ++ cells) (symbol : Text) :
    writtenAt id text text.codeMask (Text.bytes symbol) (Text.size (Cell.text passed)) =
      some (Keyword.afterSymbol? symbol cells).isSome := by
  obtain ⟨written, hwritten, hiff⟩ := @exists_writtenAt text passed cells id id
    (fun text => by rw [List.map_id, List.map_id]) hcells symbol
  rw [hwritten, Option.some_inj, Bool.eq_iff_iff, hiff, Option.isSome_iff_exists]
  simp only [List.map_id]
  constructor
  · rintro ⟨front, rest, rfl, rfl, hcode⟩
    exact ⟨rest, Keyword.afterSymbol?_of_text hcode⟩
  · rintro ⟨rest, hafter⟩
    obtain ⟨front, hparts, hcode, hfront⟩ := Keyword.exists_of_afterSymbol? hafter
    exact ⟨front, rest, hparts, hfront, hcode⟩

/-! ### Phrases -/

theorem isBlankByte_of_mem {c : Char} {byte : UInt8} (hmem : byte ∈ String.utf8EncodeChar c) :
    Text.isBlankByte byte = Text.isAsciiBlank c := by
  refine Bool.not_inj (@Text.test_byte_of_mem _ _ (fun c => !Text.isAsciiBlank c) ?_ hmem)
  intro c hwide
  rw [Bool.not_eq_true']
  exact Text.isAsciiBlank_eq_false_of_isWordChar (Text.isWordChar_of_le hwide)

theorem utf8Size_of_isAsciiBlank {c : Char} (hblank : Text.isAsciiBlank c = true) :
    c.utf8Size = 1 := by
  refine Text.utf8Size_of_lt (Nat.lt_of_not_le fun hwide => ?_)
  have hword := Text.isWordChar_of_le hwide
  rw [Text.not_isWordChar_of_isAsciiBlank hblank] at hword
  contradiction

theorem append_mark_of_cells {cell : Cell} {mark : List Cell}
    (hcells : text.cells = passed ++ cell :: (mark ++ cells)) :
    text.cells = (passed ++ cell :: mark) ++ cells ∧
      Text.size (Cell.text (passed ++ cell :: mark)) =
        Text.size (Cell.text passed) + Text.size (Cell.text (cell :: mark)) :=
  ⟨by rw [hcells, List.append_assoc]; rfl, by rw [Cell.text_append, Text.size_append]⟩

theorem append_singleton_of_cells {cell : Cell} (hcells : text.cells = passed ++ cell :: cells) :
    text.cells = (passed ++ [cell]) ++ cells ∧
      Text.size (Cell.text (passed ++ [cell])) =
        Text.size (Cell.text passed) + cell.char.utf8Size :=
  @append_mark_of_cells _ _ _ _ [] hcells

theorem exists_byte_of_cells {cell : Cell} (hcells : text.cells = passed ++ cell :: cells) :
    Text.size (Cell.text passed) < Text.size text ∧
      text.codeMask[Text.size (Cell.text passed)]? = some cell.isCode ∧
      ∃ byte ∈ String.utf8EncodeChar cell.char,
        text.byteAt? (Text.size (Cell.text passed)) = some byte := by
  have hpos := cell.char.utf8Size_pos
  have hmask : text.codeMask = Cell.mask text.cells := rfl
  obtain ⟨byte, hmem, hbyte⟩ := @Text.exists_byteAt?_of_mem cell.char (Cell.text passed)
    (Cell.text cells) (Text.size (Cell.text passed)) le_rfl (by omega)
  have htext : text = Cell.text passed ++ cell.char :: Cell.text cells := text_eq_of_cells hcells
  rw [← htext] at hbyte
  refine ⟨Text.lt_size_of_byteAt? hbyte, ?_, byte, hmem, hbyte⟩
  rw [hmask, hcells]
  exact Cell.getElem?_mask _ _ _

/-- The blanks behind some cells end behind the longest gap there. -/
theorem blanksEnd_eq (hcells : text.cells = passed ++ cells) :
    blanksEnd text text.codeMask (Text.size (Cell.text passed)) =
      some (Text.size (Cell.text (passed ++ cells.takeWhile Keyword.isGap))) := by
  induction cells generalizing passed with
  | nil =>
      have hsize := size_eq_of_cells hcells
      rw [blanksEnd, if_neg (by simp [hsize, Cell.text]), List.takeWhile_nil, List.append_nil]
  | cons cell cells ih =>
      obtain ⟨hinside, hcode, byte, hmem, hbyte⟩ := exists_byte_of_cells hcells
      obtain ⟨hcells', hsize⟩ := append_singleton_of_cells hcells
      rw [blanksEnd, if_pos hinside, hcode, hbyte]
      simp only [Option.bind_eq_bind, Option.bind_some, isBlankByte_of_mem hmem]
      cases hgap : Keyword.isGap cell with
      | true =>
          have hparts := hgap
          simp only [Keyword.isGap, Bool.and_eq_true] at hparts
          have hih := ih hcells'
          rw [hsize, utf8Size_of_isAsciiBlank hparts.2] at hih
          rw [if_pos hparts.1, if_pos hparts.2, hih, List.takeWhile_cons_of_pos hgap,
            List.append_assoc]
          rfl
      | false =>
          rw [List.takeWhile_cons_of_neg (by simp [hgap]), List.append_nil]
          split
          · split
            · rename_i hcode hblank
              simp [Keyword.isGap, hcode, hblank] at hgap
            · rfl
          · rfl

theorem exists_of_afterWord? {rest : List Cell}
    (hafter : Keyword.afterWord? word cells = some rest) :
    ∃ front, cells = front ++ rest ∧ Text.size (Cell.text front) = Text.size word := by
  obtain ⟨front, hparts, rfl, -⟩ := Keyword.afterWord?_eq_some_iff.mp hafter
  have hupper : front.map (fun cell => cell.char.toUpper) = (Cell.text front).map Char.toUpper := by
    rw [Cell.text, List.map_map]
    rfl
  refine ⟨front, hparts, ?_⟩
  rw [hupper, ← Text.length_bytes, ← Text.length_bytes, Text.bytes_map_toUpper, List.length_map]

/-- The further words of a phrase are found in bytes as they are found in cells. -/
theorem wordsEnd_eq (hcells : text.cells = passed ++ cells)
    (hcapital : ∀ word ∈ words, word.map Char.toUpper = word) :
    wordsEnd text text.codeMask words (Text.size (Cell.text passed)) =
      some ((Keyword.afterWords? words cells).map fun rest =>
        Text.size text - Text.size (Cell.text rest)) := by
  induction words generalizing passed cells with
  | nil =>
      have hsize := size_eq_of_cells hcells
      rw [wordsEnd, Keyword.afterWords?, Option.map_some, hsize, Nat.add_sub_cancel]
  | cons word words ih =>
      obtain ⟨hword, hwords⟩ := List.forall_mem_cons.mp hcapital
      have hgap := @List.takeWhile_append_dropWhile _ Keyword.isGap cells
      have hbehind : text.cells =
          (passed ++ cells.takeWhile Keyword.isGap) ++ cells.dropWhile Keyword.isGap := by
        rw [List.append_assoc, hgap, hcells]
      rw [wordsEnd, blanksEnd_eq hcells, Keyword.afterWords?]
      simp only [Option.bind_eq_bind, Option.bind_some, writtenAt_word hbehind hword]
      cases hhead : cells.head?.any Keyword.isGap with
      | false =>
          have hnone : cells.takeWhile Keyword.isGap = [] := by
            cases cells with
            | nil => rfl
            | cons cell cells =>
                rw [List.head?_cons, Option.any_some] at hhead
                exact List.takeWhile_cons_of_neg (by simp [hhead])
          rw [hnone, List.append_nil]
          simp
      | true =>
          have hne : Text.size (Cell.text (passed ++ cells.takeWhile Keyword.isGap)) ≠
              Text.size (Cell.text passed) := by
            cases cells with
            | nil => simp at hhead
            | cons cell cells =>
                have hpos := cell.char.utf8Size_pos
                rw [List.head?_cons, Option.any_some] at hhead
                rw [List.takeWhile_cons_of_pos hhead, Cell.text_append, Text.size_append]
                simp only [Cell.text, List.map_cons, Text.size_cons]
                omega
          rw [if_neg hne]
          cases hafter : Keyword.afterWord? word (cells.dropWhile Keyword.isGap) with
          | none => simp
          | some rest =>
              obtain ⟨front, hparts, hsize⟩ := exists_of_afterWord? hafter
              rw [hparts, ← List.append_assoc] at hbehind
              have hrest := ih hbehind hwords
              rw [Cell.text_append, Text.size_append, hsize] at hrest
              simpa using hrest

theorem exists_of_afterPhrase? {rest : List Cell}
    (hafter : Keyword.afterPhrase? words cells = some rest) : ∃ front, cells = front ++ rest := by
  cases words with
  | nil => exact ⟨[], Option.some.inj hafter⟩
  | cons word words =>
      rw [Keyword.afterPhrase?] at hafter
      cases hword : Keyword.afterWord? word cells with
      | none => simp [hword] at hafter
      | some middle =>
          rw [hword] at hafter
          obtain ⟨front, rfl, -⟩ := exists_of_afterWord? hword
          obtain ⟨back, rfl, -⟩ := Keyword.exists_of_afterWords? hafter
          exact ⟨front ++ back, (List.append_assoc _ _ _).symm⟩

/-- A phrase is found in bytes as it is found in cells. -/
theorem phraseEnd_eq (hcells : text.cells = passed ++ cells)
    (hcapital : ∀ word ∈ words, word.map Char.toUpper = word) :
    phraseEnd text text.codeMask words (Text.size (Cell.text passed)) =
      some ((Keyword.afterPhrase? words cells).map fun rest =>
        Text.size text - Text.size (Cell.text rest)) := by
  cases words with
  | nil =>
      have hsize := size_eq_of_cells hcells
      rw [phraseEnd, Keyword.afterPhrase?, Option.map_some, hsize, Nat.add_sub_cancel]
  | cons word words =>
      obtain ⟨hword, hwords⟩ := List.forall_mem_cons.mp hcapital
      rw [phraseEnd, writtenAt_word hcells hword, Keyword.afterPhrase?]
      cases hafter : Keyword.afterWord? word cells with
      | none => simp
      | some rest =>
          obtain ⟨front, rfl, hsize⟩ := exists_of_afterWord? hafter
          rw [← List.append_assoc] at hcells
          have hrest := wordsEnd_eq hcells hwords
          rw [Cell.text_append, Text.size_append, hsize] at hrest
          simpa using hrest

theorem gluedBefore_eq (hcells : text.cells = passed ++ cells) :
    gluedBefore text (Text.size (Cell.text passed)) =
      some ((Cell.text passed).getLast?.any Text.isWordChar) := by
  rw [gluedBefore]
  by_cases hne : Cell.text passed = []
  · rw [hne]
    rfl
  · obtain ⟨byte, hbyte, hword⟩ := @Text.byteAt?_before (Cell.text passed) (Cell.text cells) hne
    rw [← text_eq_of_cells hcells] at hbyte
    have hpos : 0 < Text.size (Cell.text passed) := by
      obtain ⟨c, rest, hcons⟩ := List.exists_cons_of_ne_nil hne
      have hc := c.utf8Size_pos
      rw [hcons, Text.size_cons]
      omega
    rw [if_pos hpos, hbyte, Option.map_some, hword]

theorem gluedBehind_eq (hcells : text.cells = passed ++ cells) :
    gluedBehind text (Text.size (Cell.text passed)) =
      some (cells.head?.any fun cell => Text.isWordChar cell.char) := by
  have hsize := size_eq_of_cells hcells
  rw [gluedBehind]
  cases cells with
  | nil =>
      rw [if_neg (by simp [hsize, Cell.text])]
      rfl
  | cons cell cells =>
      obtain ⟨hinside, -, byte, hmem, hbyte⟩ := exists_byte_of_cells hcells
      rw [if_pos hinside, hbyte, Option.map_some, Text.isWordByte_of_mem hmem]
      rfl

end Words

/-! ## Keywords at a byte -/

section Keywords

variable {text : Text} {passed cells : List Cell} {keyword : Keyword} {place : Nat}

/-- Behind some cells a keyword is found in bytes as it is found in cells. -/
theorem matchAt_of_cells (hcells : text.cells = passed ++ cells) (hcapital : keyword.IsCapital) :
    matchAt text text.codeMask keyword (Text.size (Cell.text passed)) =
      some ((keyword.length? (Cell.text passed).getLast? cells).map fun count =>
        Text.size (Cell.text (cells.take count))) := by
  have htake : ∀ front rest : List Cell,
      (front ++ rest).take ((front ++ rest).length - rest.length) = front := by
    intro front rest
    rw [List.length_append, Nat.add_sub_cancel, List.take_left]
  rw [matchAt, Keyword.length?, Keyword.after?]
  cases hform : keyword.form with
  | symbol symbol =>
      simp only [writtenAt_symbol hcells symbol, Option.bind_eq_bind, Option.bind_some]
      cases hafter : Keyword.afterSymbol? symbol cells with
      | none => rfl
      | some rest =>
          obtain ⟨front, rfl, -, rfl⟩ := Keyword.exists_of_afterSymbol? hafter
          simp only [Option.map_some, htake]
          rfl
  | phrase words =>
      simp only [gluedBefore_eq hcells, phraseEnd_eq hcells (hcapital words hform),
        Option.bind_eq_bind, Option.bind_some]
      split
      · rfl
      · cases hafter : Keyword.afterPhrase? words cells with
        | none => rfl
        | some rest =>
            obtain ⟨front, rfl⟩ := exists_of_afterPhrase? hafter
            rw [← List.append_assoc] at hcells
            have hsize := size_eq_of_cells hcells
            have hstop : Text.size text - Text.size (Cell.text rest) =
                Text.size (Cell.text (passed ++ front)) := by omega
            simp only [Option.map_some, hstop, gluedBehind_eq hcells, Option.bind_some]
            split
            · rfl
            · rw [Cell.text_append, Text.size_append, Nat.add_sub_cancel_left]
              simp only [Option.map_some, htake]

/-- Nothing but an empty symbol is written inside a character. -/
theorem writtenAt_inside {symbol front back : Text} {c : Char} (mask : List Bool)
    (hne : symbol ≠ []) (hstart : Text.size front < place)
    (hstop : place < Text.size front + c.utf8Size) (hmask : mask.length = Text.size text)
    (htext : text = front ++ c :: back) :
    writtenAt id text mask (Text.bytes symbol) place = some false := by
  subst htext
  rw [writtenAt, Text.length_bytes]
  split
  · rfl
  · rename_i hfits
    rw [part?_eq (Nat.le_add_right _ _) (by omega),
      part?_eq (Nat.le_add_right _ _) (by rw [Text.length_bytes]; omega), Nat.add_sub_cancel_left]
    simp only [Option.bind_eq_bind, Option.bind_some, List.map_id]
    split
    · obtain ⟨d, others, rfl⟩ := List.exists_cons_of_ne_nil hne
      rw [Option.some_inj, beq_eq_false_iff_ne]
      intro hbytes
      -- A symbol begins with the first byte of a character.
      have hpos := d.utf8Size_pos
      have hfilled : 0 < (String.utf8EncodeChar d).length := by
        rw [String.length_utf8EncodeChar]
        exact hpos
      have hfirst : ((Text.bytes (front ++ c :: back)).drop place)[0]? =
          (String.utf8EncodeChar d)[0]? := by
        have htake := congrArg (·[0]?) hbytes
        rw [List.getElem?_take_of_lt (by rw [Text.size_cons]; omega), Text.bytes_cons,
          List.getElem?_append_left (by omega)] at htake
        exact htake
      have hinner : place - Text.size front < (String.utf8EncodeChar c).length := by
        rw [String.length_utf8EncodeChar]
        omega
      rw [List.getElem?_drop, Nat.add_zero, Text.bytes_append,
        List.getElem?_append_right (by rw [Text.length_bytes]; omega), Text.length_bytes,
        Text.bytes_cons, List.getElem?_append_left hinner, List.getElem?_eq_getElem hinner,
        List.getElem?_eq_getElem hfilled, Option.some_inj] at hfirst
      have hhead : (String.utf8EncodeChar d)[0].IsUTF8FirstByte :=
        UInt8.isUTF8FirstByte_getElem_utf8EncodeChar.mpr rfl
      rw [← hfirst, UInt8.isUTF8FirstByte_getElem_utf8EncodeChar] at hhead
      omega
    · rfl

theorem matchAt_inside {front back : Text} {c : Char} (hform : keyword.form ≠ .symbol [])
    (hstart : Text.size front < place) (hstop : place < Text.size front + c.utf8Size)
    (htext : text = front ++ c :: back) : matchAt text text.codeMask keyword place = some none := by
  rw [matchAt]
  cases hkeyword : keyword.form with
  | symbol symbol =>
      have hne : symbol ≠ [] := by
        rintro rfl
        exact hform hkeyword
      have hwritten := writtenAt_inside text.codeMask hne hstart hstop (length_codeMask text) htext
      simp only [hwritten]
      rfl
  | phrase words =>
      obtain ⟨byte, -, hbyte, -, hword, -⟩ :=
        @Text.isWordByte_inside c front back place hstart hstop
      have hglued : gluedBefore text place = some true := by
        rw [gluedBefore, if_pos (by omega), htext, hbyte, Option.map_some, hword]
      simp only [hglued]
      rfl

variable {α : Type} {keywords : List (Keyword × α)}

theorem firstAt_of_cells (hcells : text.cells = passed ++ cells)
    (hcapital : ∀ entry ∈ keywords, entry.1.IsCapital) :
    firstAt text text.codeMask keywords (Text.size (Cell.text passed)) =
      some ((Finder.ofKeywords keywords (Cell.text passed).getLast? cells).map fun found =>
        (found.1, Text.size (Cell.text (cells.take found.2)))) := by
  induction keywords with
  | nil => rfl
  | cons entry keywords ih =>
      obtain ⟨hentry, hkeywords⟩ := List.forall_mem_cons.mp hcapital
      rw [firstAt, matchAt_of_cells hcells hentry, Finder.ofKeywords_apply, List.findSome?_cons,
        ← Finder.ofKeywords_apply]
      cases entry.1.length? (Cell.text passed).getLast? cells with
      | none => exact ih hkeywords
      | some count => rfl

theorem firstAt_inside {front back : Text} {c : Char}
    (hform : ∀ entry ∈ keywords, entry.1.form ≠ .symbol []) (hstart : Text.size front < place)
    (hstop : place < Text.size front + c.utf8Size) (htext : text = front ++ c :: back) :
    firstAt text text.codeMask keywords place = some none := by
  induction keywords with
  | nil => rfl
  | cons entry keywords ih =>
      obtain ⟨hentry, hkeywords⟩ := List.forall_mem_cons.mp hform
      rw [firstAt, matchAt_inside hentry hstart hstop htext]
      exact ih hkeywords

end Keywords

end Bytewise

end SelectForm

import Mathlib
import SelectForm.Lexis.Span
import SelectForm.Proofs.Lexis.CellMatch
import SelectForm.Proofs.Text.Bytes

/-!
# Where phrases stand

A keyword is looked for among the characters of a text, at a place that is counted in bytes.  The
bytes of the text say by themselves where a phrase stands: they are code, they hold its words in
any case of letters with one run of blanks between two of them, and no byte of a name touches
them.  Nothing inside a character is matched, since the bytes around such a place are bytes of
names.
-/

namespace SelectForm

/-! ## Cells in bytes -/

namespace Cell

/-- For every byte of some cells, whether it is code. -/
def mask (cells : List Cell) : List Bool :=
  cells.flatMap fun cell => List.replicate cell.char.utf8Size cell.isCode

theorem mask_append (front back : List Cell) : mask (front ++ back) = mask front ++ mask back :=
  List.flatMap_append

theorem mask_cons (cell : Cell) (cells : List Cell) :
    mask (cell :: cells) = List.replicate cell.char.utf8Size cell.isCode ++ mask cells :=
  List.flatMap_cons

theorem length_mask (cells : List Cell) : (mask cells).length = Text.size (text cells) := by
  induction cells with
  | nil => rfl
  | cons cell cells ih =>
      rw [mask_cons, List.length_append, List.length_replicate, ih]
      rfl

theorem getElem?_mask (front back : List Cell) (cell : Cell) :
    (mask (front ++ cell :: back))[Text.size (text front)]? = some cell.isCode := by
  have hpos := cell.char.utf8Size_pos
  rw [mask_append, ← length_mask, List.getElem?_append_right le_rfl, Nat.sub_self, mask_cons,
    List.getElem?_append_left (by simpa using hpos)]
  simp [hpos]

theorem mask_eq_replicate_iff {cells : List Cell} :
    mask cells = List.replicate (Text.size (text cells)) true ↔
      ∀ cell ∈ cells, cell.isCode = true := by
  rw [← length_mask, List.eq_replicate_length]
  constructor
  · intro hmask cell hmem
    refine hmask _ (List.mem_flatMap.mpr ⟨cell, hmem, ?_⟩)
    exact List.mem_replicate.mpr ⟨cell.char.utf8Size_pos.ne', rfl⟩
  · intro hcode flag hmem
    obtain ⟨cell, hcell, hflag⟩ := List.mem_flatMap.mp hmem
    rw [(List.mem_replicate.mp hflag).2, hcode cell hcell]

end Cell

namespace Text

variable {text : Text} {passed front rest : List Cell}

theorem eq_of_cells (hcells : text.cells = passed ++ (front ++ rest)) :
    text = Cell.text passed ++ (Cell.text front ++ Cell.text rest) := by
  have htext : Cell.text text.cells = text := Mode.text_cells _ _
  rw [← htext, hcells, Cell.text, List.map_append, List.map_append]
  rfl

theorem codeMask_part (hcells : text.cells = passed ++ (front ++ rest)) :
    (text.codeMask.drop (size (Cell.text passed))).take (size (Cell.text front)) =
      Cell.mask front := by
  have hmask : text.codeMask = Cell.mask text.cells := rfl
  rw [hmask, hcells, Cell.mask_append, Cell.mask_append, List.drop_left' (Cell.length_mask passed),
    List.take_left' (Cell.length_mask front)]

theorem bytes_part (hcells : text.cells = passed ++ (front ++ rest)) :
    ((bytes text).drop (size (Cell.text passed))).take (size (Cell.text front)) =
      bytes (Cell.text front) := by
  rw [eq_of_cells hcells, bytes_append, bytes_append, List.drop_left' (length_bytes _),
    List.take_left' (length_bytes _)]

end Text

/-! ## Keywords at a byte -/

namespace Keyword

variable {keyword : Keyword} {before : Option Char} {cells : List Cell} {text : Text}
  {offset count : Nat}

/-- Behind a number of bytes of some cells a keyword is found, and takes a number of bytes. -/
def FoundAt (keyword : Keyword) (before : Option Char) (cells : List Cell) (offset count : Nat) :
    Prop :=
  ∃ passed front rest, cells = passed ++ (front ++ rest) ∧
    Text.size (Cell.text passed) = offset ∧
    keyword.length? ((Cell.text passed).getLast?.or before) (front ++ rest) = some front.length ∧
    Text.size (Cell.text front) = count

theorem foundAt_zero :
    keyword.FoundAt before cells 0 count ↔
      ∃ length, keyword.length? before cells = some length ∧
        Text.size (Cell.text (cells.take length)) = count := by
  constructor
  · rintro ⟨passed, front, rest, rfl, hsize, hlength, hcount⟩
    cases passed with
    | nil => exact ⟨front.length, hlength, by rwa [List.nil_append, List.take_left]⟩
    | cons cell passed =>
        have hpos := cell.char.utf8Size_pos
        have hsum : Text.size (Cell.text (cell :: passed)) =
            cell.char.utf8Size + Text.size (Cell.text passed) := rfl
        omega
  · rintro ⟨length, hlength, hcount⟩
    obtain ⟨front, rest, rfl, rfl, -⟩ := exists_of_length? hlength
    exact ⟨[], front, rest, rfl, rfl, hlength, by rwa [List.take_left] at hcount⟩

theorem not_foundAt_nil : ¬ keyword.FoundAt before [] (offset + 1) count := by
  rintro ⟨passed, front, rest, hcells, hsize, -, -⟩
  obtain ⟨rfl, -⟩ := List.append_eq_nil_iff.mp hcells.symm
  simp [Cell.text] at hsize

/-- Past the first byte of a cell nothing is found before the next one. -/
theorem foundAt_cons {cell : Cell} :
    keyword.FoundAt before (cell :: cells) (offset + 1) count ↔
      cell.char.utf8Size ≤ offset + 1 ∧
        keyword.FoundAt (some cell.char) cells (offset + 1 - cell.char.utf8Size) count := by
  have htext : ∀ passed, Cell.text (cell :: passed) = cell.char :: Cell.text passed := fun _ => rfl
  constructor
  · rintro ⟨passed, front, rest, hcells, hsize, hlength, hcount⟩
    cases passed with
    | nil => simp [Cell.text] at hsize
    | cons other passed =>
        obtain ⟨rfl, rfl⟩ := List.cons.inj hcells
        rw [htext, Text.getLast?_cons_or] at hlength
        rw [htext, Text.size_cons] at hsize
        exact ⟨by omega, passed, front, rest, rfl, by omega, hlength, hcount⟩
  · rintro ⟨hinside, passed, front, rest, rfl, hsize, hlength, hcount⟩
    refine ⟨cell :: passed, front, rest, rfl, ?_, ?_, hcount⟩
    · rw [htext, Text.size_cons]
      omega
    · rwa [htext, Text.getLast?_cons_or]

theorem matchAt?_go_eq_some_iff (hform : keyword.form ≠ .symbol []) :
    matchAt?.go keyword before cells offset = some count ↔
      keyword.FoundAt before cells offset count := by
  induction cells generalizing before offset with
  | nil =>
      cases offset with
      | zero => rw [matchAt?.go, Option.map_eq_some_iff, foundAt_zero]
      | succ offset => simp [matchAt?.go, not_foundAt_nil]
  | cons cell cells ih =>
      cases offset with
      | zero => rw [matchAt?.go, Option.map_eq_some_iff, foundAt_zero]
      | succ offset =>
          rw [matchAt?.go, foundAt_cons]
          split
          next hinside => rw [ih, and_iff_right hinside]
          next hinside => simp [hinside]

/-- A keyword is matched at a byte if it is found among the cells of the text from that byte
on. -/
theorem matchAt?_eq_some_iff (hform : keyword.form ≠ .symbol []) :
    keyword.matchAt? text offset = some count ↔
      ∃ passed front rest, text.cells = passed ++ (front ++ rest) ∧
        Text.size (Cell.text passed) = offset ∧
        keyword.length? (Cell.text passed).getLast? (front ++ rest) = some front.length ∧
        Text.size (Cell.text front) = count := by
  rw [matchAt?, matchAt?_go_eq_some_iff hform, FoundAt]
  simp only [Option.or_none]

theorem IsFilled.form_ne (hfilled : keyword.IsFilled) : keyword.form ≠ .symbol [] := by
  intro hform
  rw [IsFilled, hform] at hfilled
  exact hfilled rfl

/-- A keyword that has something to write is matched at a byte if it is written there in code, and
fits between what is before it and what is behind it. -/
theorem IsFilled.matchAt?_eq_some_iff (hfilled : keyword.IsFilled) :
    keyword.matchAt? text offset = some count ↔
      ∃ passed front rest, text.cells = passed ++ (front ++ rest) ∧
        Text.size (Cell.text passed) = offset ∧ Text.size (Cell.text front) = count ∧
        (∀ cell ∈ front, cell.isCode = true) ∧
        keyword.Fits (Cell.text passed).getLast? (Cell.text front) (Cell.text rest) := by
  rw [Keyword.matchAt?_eq_some_iff hfilled.form_ne]
  constructor
  · rintro ⟨passed, front, rest, hcells, hoffset, hlength, hcount⟩
    obtain ⟨front', rest', hsplit, hfront, hcode, hfits⟩ := exists_of_length? hlength
    obtain ⟨rfl, rfl⟩ := List.append_inj hsplit hfront.symm
    exact ⟨passed, front, rest, hcells, hoffset, hcount, hcode, hfits⟩
  · rintro ⟨passed, front, rest, hcells, hoffset, hcount, hcode, hfits⟩
    exact ⟨passed, front, rest, hcells, hoffset,
      (length?_eq_some_iff hfilled).mpr ⟨front, rest, rfl, rfl, hcode, hfits⟩, hcount⟩

end Keyword

/-! ## Words -/

namespace Text

/-- Words are not empty and hold no blanks. -/
theorem of_mem_words {text word : Text} (hmem : word ∈ words text) :
    word ≠ [] ∧ ∀ c ∈ word, isBlank c = false := by
  fun_induction words text generalizing word with
  | case1 => exact absurd hmem List.not_mem_nil
  | case2 c rest hblank ih => exact ih hmem
  | case3 c hblank =>
      rw [List.mem_singleton.mp hmem]
      simpa using hblank
  | case4 c hblank d others hnext ih =>
      rcases List.mem_cons.mp hmem with rfl | hmem
      · simpa using hblank
      · exact ih hmem
  | case5 c hblank d others hnext first words hwords ih =>
      simp only [hwords] at ih hmem
      rcases List.mem_cons.mp hmem with rfl | hmem
      · obtain ⟨-, hfirst⟩ := ih List.mem_cons_self
        exact ⟨List.cons_ne_nil _ _, List.forall_mem_cons.mpr ⟨by simpa using hblank, hfirst⟩⟩
      · exact ih (List.mem_cons_of_mem _ hmem)
  | case6 c hblank d others hnext hwords ih =>
      simp only [hwords] at hmem
      rw [List.mem_singleton.mp hmem]
      simpa using hblank

/-- Some words one behind the other in bytes, each in any case of ASCII letters, with one run of
ASCII blanks between two neighbours. -/
def Spaced : List (List UInt8) → List UInt8 → Prop
  | [], _ => False
  | [word], written => written.map upperByte = word.map upperByte
  | word :: next :: words, written =>
    ∃ first gap rest, written = first ++ (gap ++ rest) ∧
      first.map upperByte = word.map upperByte ∧
      gap ≠ [] ∧ (∀ byte ∈ gap, isBlankByte byte = true) ∧ Spaced (next :: words) rest

/-- Some words stand in code at a byte of a text, take a number of bytes there, and no byte of a
name touches them. -/
structure PhraseAt (words : List Text) (text : Text) (offset count : Nat) : Prop where
  code : (text.codeMask.drop offset).take count = List.replicate count true
  written : Spaced (words.map bytes) (((bytes text).drop offset).take count)
  before : 0 < offset → ∀ byte, text.byteAt? (offset - 1) = some byte → isWordByte byte = false
  behind : ∀ byte, text.byteAt? (offset + count) = some byte → isWordByte byte = false

theorem bytes_inj {first second : Text} (hbytes : bytes first = bytes second) : first = second := by
  obtain ⟨back, rfl, hback⟩ := exists_of_bytes_eq_append (hbytes.trans (List.append_nil _).symm)
  rw [← List.length_eq_zero_iff, length_bytes] at hback
  cases back with
  | nil => rw [List.append_nil]
  | cons c back =>
      have hc := c.utf8Size_pos
      rw [size_cons] at hback
      omega

/-- What writes a word in bytes and something behind it is a text that writes the word. -/
theorem exists_of_upperByte {word text : Text} {first more : List UInt8}
    (hbytes : bytes text = first ++ more)
    (hfirst : first.map upperByte = (bytes word).map upperByte) :
    ∃ front back, text = front ++ back ∧ front.map Char.toUpper = word.map Char.toUpper ∧
      bytes front = first ∧ bytes back = more := by
  have hupper : bytes (text.map Char.toUpper) =
      bytes (word.map Char.toUpper) ++ more.map upperByte := by
    rw [bytes_map_toUpper, bytes_map_toUpper, hbytes, List.map_append, hfirst]
  obtain ⟨behind, hparts, -⟩ := exists_of_bytes_eq_append hupper
  obtain ⟨front, back, rfl, hfront, -⟩ := List.map_eq_append_iff.mp hparts
  have hlength : (bytes front).length = first.length := by
    have hlengths := congrArg List.length (map_upperByte_congr hfront)
    rw [← hfirst, List.length_map, List.length_map] at hlengths
    exact hlengths
  rw [bytes_append] at hbytes
  obtain ⟨hfrontBytes, hbackBytes⟩ := List.append_inj hbytes hlength
  exact ⟨front, back, rfl, hfront, hfrontBytes, hbackBytes⟩

/-- In bytes and in characters the same is written. -/
theorem spaced_bytes_iff {word text : Text} {words : List Text} :
    Spaced ((word :: words).map bytes) (bytes text) ↔
      ∃ first rest, text = first ++ rest ∧ first.map Char.toUpper = word.map Char.toUpper ∧
        Keyword.SpellsWords (words.map (List.map Char.toUpper)) rest := by
  induction words generalizing word text with
  | nil =>
      constructor
      · intro hwritten
        obtain ⟨front, back, rfl, hfront, -, hback⟩ :=
          exists_of_upperByte (List.append_nil _).symm hwritten
        obtain rfl : back = [] := bytes_inj hback
        exact ⟨front, [], rfl, hfront, .nil⟩
      · rintro ⟨first, rest, rfl, hfirst, hrest⟩
        cases hrest
        rw [List.append_nil]
        exact map_upperByte_congr hfirst
  | cons next words ih =>
      constructor
      · rintro ⟨first, gap, rest, hbytes, hfirst, hne, hgap, hrest⟩
        obtain ⟨front, back, rfl, hfront, -, hback⟩ := exists_of_upperByte hbytes hfirst
        obtain ⟨blanks, rfl, hblanks⟩ := exists_of_isBlankByte hgap
        obtain ⟨others, rfl, rfl⟩ := exists_of_bytes_eq_append hback
        obtain ⟨written, behind, rfl, hwritten, hbehind⟩ := ih.mp hrest
        refine ⟨front, blanks ++ (written ++ behind), rfl, hfront, ?_⟩
        exact .cons (fun hnil => hne (by rw [hnil]; rfl)) hblanks hwritten hbehind
      · rintro ⟨first, rest, rfl, hfirst, hrest⟩
        rw [List.map_cons] at hrest
        cases hrest with
        | @cons _ gap written others _ hne hgap hwritten hothers =>
            refine ⟨bytes first, bytes gap, bytes (written ++ others), ?_,
              map_upperByte_congr hfirst, ?_, ?_, ?_⟩
            · rw [bytes_append, bytes_append]
            · exact fun hnil => hne (bytes_inj hnil)
            · exact fun byte hbyte => isBlankByte_of_mem hgap hbyte
            · exact ih.mpr ⟨written, others, rfl, hwritten, hothers⟩

/-! ### Places -/

theorem Spaced.ne_nil {word : Text} {words : List Text} {written : List UInt8} (hne : word ≠ [])
    (hspaced : Spaced ((word :: words).map bytes) written) : written ≠ [] := by
  rintro rfl
  have hbytes : bytes word ≠ bytes [] := fun hnil => hne (bytes_inj hnil)
  cases words with
  | nil => exact hbytes (List.map_eq_nil_iff.mp hspaced.symm)
  | cons next words =>
      obtain ⟨first, gap, rest, hnil, hfirst, -⟩ := hspaced
      obtain ⟨rfl, -⟩ := List.append_eq_nil_iff.mp hnil.symm
      exact hbytes (List.map_eq_nil_iff.mp hfirst.symm)

variable {text : Text} {words : List Text} {offset count : Nat} {passed front rest : List Cell}

theorem phraseAt_of_cells (hcells : text.cells = passed ++ (front ++ rest))
    (hcode : ∀ cell ∈ front, cell.isCode = true)
    (hwritten : Spaced (words.map bytes) (bytes (Cell.text front)))
    (hbounded : (Cell.text passed).getLast?.any isWordChar = false ∧
      (Cell.text rest).head?.any isWordChar = false) :
    PhraseAt words text (size (Cell.text passed)) (size (Cell.text front)) := by
  have htext := eq_of_cells hcells
  refine ⟨?_, ?_, fun hpos byte hbyte => ?_, fun byte hbyte => ?_⟩
  · rw [codeMask_part hcells]
    exact Cell.mask_eq_replicate_iff.mpr hcode
  · rwa [bytes_part hcells]
  · have hne : Cell.text passed ≠ [] := fun hnil => by simp [hnil] at hpos
    obtain ⟨other, hother, hword⟩ :=
      @byteAt?_before (Cell.text passed) (Cell.text front ++ Cell.text rest) hne
    rw [htext, hother] at hbyte
    rw [← Option.some.inj hbyte, ← hword]
    exact hbounded.1
  · rw [htext, ← List.append_assoc, ← size_append] at hbyte
    have hne : Cell.text rest ≠ [] := by
      intro hnil
      rw [hnil, byteAt?_size] at hbyte
      contradiction
    obtain ⟨other, hother, hword⟩ :=
      @byteAt?_behind (Cell.text passed ++ Cell.text front) (Cell.text rest) hne
    rw [hother] at hbyte
    rw [← Option.some.inj hbyte, ← hword]
    exact hbounded.2

theorem PhraseAt.le_size (hphrase : PhraseAt words text offset count) (hpos : 0 < count) :
    offset + count ≤ size text := by
  have hlength := congrArg List.length hphrase.code
  have hmask : text.codeMask.length = size text := by
    have hcells : Cell.text text.cells = text := Mode.text_cells _ _
    rw [← hcells, ← Cell.length_mask, hcells]
    rfl
  rw [List.length_take, List.length_drop, List.length_replicate, hmask] at hlength
  omega

/-- Some words do not begin or end inside a character, whose bytes are all bytes of names. -/
theorem PhraseAt.exists_parts (hpos : 0 < count) (hphrase : PhraseAt words text offset count) :
    ∃ front middle behind, text = front ++ (middle ++ behind) ∧ size front = offset ∧
      size middle = count := by
  have hinside := hphrase.le_size hpos
  obtain ⟨front, back, rfl, rfl⟩ | ⟨front, c, back, rfl, hstart, hstop⟩ :=
    @exists_at text offset (by omega)
  · rw [size_append] at hinside
    obtain ⟨middle, behind, rfl, rfl⟩ | ⟨middle, c, behind, rfl, hstart, hstop⟩ :=
      @exists_at back count (by omega)
    · exact ⟨front, middle, behind, rfl, rfl, rfl⟩
    · obtain ⟨-, byte, -, hbyte, -, hword⟩ :=
        @isWordByte_inside c (front ++ middle) behind (size front + count)
          (by rw [size_append]; omega) (by rw [size_append]; omega)
      rw [List.append_assoc] at hbyte
      rw [hphrase.behind byte hbyte] at hword
      contradiction
  · obtain ⟨byte, -, hbyte, -, hword, -⟩ := @isWordByte_inside c front back offset hstart hstop
    rw [hphrase.before (by omega) byte hbyte] at hword
    contradiction

/-- Where some words stand in bytes, they stand between two characters. -/
theorem PhraseAt.exists_cells {word : Text} (hne : word ≠ [])
    (hphrase : PhraseAt (word :: words) text offset count) :
    ∃ passed front rest, text.cells = passed ++ (front ++ rest) ∧
      size (Cell.text passed) = offset ∧ size (Cell.text front) = count ∧
      (∀ cell ∈ front, cell.isCode = true) ∧
      Spaced ((word :: words).map bytes) (bytes (Cell.text front)) ∧
      (Cell.text passed).getLast?.any isWordChar = false ∧
        (Cell.text rest).head?.any isWordChar = false := by
  have hcount : 0 < count := by
    rw [Nat.pos_iff_ne_zero]
    rintro rfl
    exact hphrase.written.ne_nil hne (List.take_zero)
  obtain ⟨front, middle, behind, rfl, rfl, rfl⟩ := hphrase.exists_parts hcount
  have hcells := Mode.text_cells .between (front ++ (middle ++ behind))
  obtain ⟨passed, others, hparts, rfl, hothers⟩ := List.map_eq_append_iff.mp hcells
  obtain ⟨inner, rest, rfl, rfl, rfl⟩ := List.map_eq_append_iff.mp hothers
  refine ⟨passed, inner, rest, hparts, rfl, rfl, ?_, ?_, ?_, ?_⟩
  · rw [← Cell.mask_eq_replicate_iff, ← codeMask_part hparts]
    exact hphrase.code
  · rw [← bytes_part hparts]
    exact hphrase.written
  · cases passed with
    | nil => rfl
    | cons cell passed =>
        obtain ⟨byte, hbyte, hword⟩ := @byteAt?_before (Cell.text (cell :: passed))
          (Cell.text inner ++ Cell.text rest) (List.cons_ne_nil _ _)
        have hpos := cell.char.utf8Size_pos
        exact hword.trans (hphrase.before (by simp; omega) byte hbyte)
  · cases rest with
    | nil => rfl
    | cons cell rest =>
        obtain ⟨byte, hbyte, hword⟩ := @byteAt?_behind (Cell.text passed ++ Cell.text inner)
          (Cell.text (cell :: rest)) (List.cons_ne_nil _ _)
        rw [List.append_assoc, size_append] at hbyte
        exact hword.trans (hphrase.behind byte hbyte)

end Text

/-! ## Phrases -/

namespace Keyword

variable {phrase : String} {text : Text} {offset count : Nat}

theorem isAsciiBlank_toUpper {c : Char} (hblank : Text.isAsciiBlank c = false) :
    Text.isAsciiBlank c.toUpper = false := by
  cases hlower : c.isLower with
  | false => rwa [Char.toUpper_eq_of_not_isLower (by simp [hlower])]
  | true =>
      refine Text.isAsciiBlank_eq_false_of_isWordChar (Text.isWordChar_of_isAlpha ?_)
      rw [Char.isAlpha_toUpper_eq_isAlpha, Char.isAlpha, hlower, Bool.or_true]

theorem form_ofPhrase (phrase : String) :
    (ofPhrase phrase).form =
      .phrase ((Text.words phrase.toList).map (List.map Char.toUpper)) := rfl

theorem isFilled_ofPhrase (hwords : Text.words phrase.toList ≠ []) :
    (ofPhrase phrase).IsFilled := by
  rw [IsFilled, form_ofPhrase]
  refine ⟨fun hnil => hwords (List.map_eq_nil_iff.mp hnil), List.forall_mem_map.mpr ?_⟩
  intro word hmem
  obtain ⟨hne, hplain⟩ := Text.of_mem_words hmem
  refine ⟨fun hnil => hne (List.map_eq_nil_iff.mp hnil), List.forall_mem_map.mpr fun c hc => ?_⟩
  refine isAsciiBlank_toUpper (Bool.eq_false_iff.mpr fun hblank => ?_)
  have hc := hplain c hc
  rw [Text.isBlank_of_isAsciiBlank hblank] at hc
  contradiction

theorem spells_ofPhrase_iff {word written : Text} {words : List Text}
    (hwords : Text.words phrase.toList = word :: words) :
    (ofPhrase phrase).Spells written ↔
      Text.Spaced ((Text.words phrase.toList).map Text.bytes) (Text.bytes written) := by
  rw [hwords, Text.spaced_bytes_iff, Spells, form_ofPhrase, hwords, List.map_cons]

/-- A phrase is matched at a byte of a text, and takes a number of bytes, if and only if it stands
there; no other number of bytes would do. -/
theorem matchAt?_ofPhrase_iff (phrase : String) (hwords : Text.words phrase.toList ≠ [])
    (text : Text) (offset count : Nat) :
    ((ofPhrase phrase).matchAt? text offset = some count ↔
        Text.PhraseAt (Text.words phrase.toList) text offset count) ∧
      ∀ other, Text.PhraseAt (Text.words phrase.toList) text offset count →
        Text.PhraseAt (Text.words phrase.toList) text offset other → other = count := by
  have hiff : ∀ count, (ofPhrase phrase).matchAt? text offset = some count ↔
      Text.PhraseAt (Text.words phrase.toList) text offset count := by
    intro count
    obtain ⟨word, words, hcons⟩ := List.exists_cons_of_ne_nil hwords
    have hne : word ≠ [] := (Text.of_mem_words (hcons ▸ List.mem_cons_self)).1
    rw [(isFilled_ofPhrase hwords).matchAt?_eq_some_iff]
    constructor
    · rintro ⟨passed, front, rest, hcells, rfl, rfl, hcode, hfits⟩
      exact Text.phraseAt_of_cells hcells hcode ((spells_ofPhrase_iff hcons).mp hfits.spells)
        (hfits.bounded _ (form_ofPhrase phrase))
    · intro hphrase
      obtain ⟨passed, front, rest, hcells, hoffset, hcount, hcode, hspaced, hbounded⟩ :=
        (hcons ▸ hphrase : Text.PhraseAt (word :: words) text offset count).exists_cells hne
      refine ⟨passed, front, rest, hcells, hoffset, hcount, hcode, ?_, fun _ _ => hbounded⟩
      rw [spells_ofPhrase_iff hcons, hcons]
      exact hspaced
  refine ⟨hiff count, fun other hphrase hother => ?_⟩
  exact Option.some.inj (((hiff other).mpr hother).symm.trans ((hiff count).mpr hphrase))

/-- Two words in mixed case, with three blanks between them, behind a character of two bytes and a
blank and in front of a literal. -/
theorem matchAt?_ofPhrase_iff_groupBy :
    Text.words " Group  by".toList ≠ [] ∧
      Text.PhraseAt (Text.words " Group  by".toList) "é grOUP \n\tBy'x'".toList 3 10 ∧
      ∀ other, Text.PhraseAt (Text.words " Group  by".toList) "é grOUP \n\tBy'x'".toList 3 other →
        other = 10 := by
  have hwords : Text.words " Group  by".toList ≠ [] := by decide
  obtain ⟨hiff, hunique⟩ := matchAt?_ofPhrase_iff " Group  by" hwords "é grOUP \n\tBy'x'".toList 3 10
  have hphrase := hiff.mp (by decide +kernel)
  exact ⟨hwords, hphrase, fun other hother => hunique other hphrase hother⟩

end Keyword

end SelectForm

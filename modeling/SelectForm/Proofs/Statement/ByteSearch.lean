import Mathlib
import SelectForm.Proofs.Lexis.ByteKeyword
import SelectForm.Proofs.Statement.KeywordSearch

/-!
# Searching byte by byte

Marks can be searched for at each byte of a text that is code and outside of parentheses.  A search
by bytes also looks at the places inside of characters.  It finds nothing there, and so it finds
what the walk over the cells finds.
-/

namespace SelectForm

namespace Bytewise

/-! ## Searching -/

/-- The marks outside of parentheses from a byte on, where `find` tells what is found at a byte.
The text stands at the offset `start`. -/
def search {α : Type} (start : Nat) (text : Text) (mask : List Bool)
    (find : Nat → Option (Option (α × Nat))) (depth : Int) (place : Nat) :
    Option (List (Match α)) :=
  if place < Text.size text then do
    let code ← mask[place]?
    if code then
      let byte ← text.byteAt? place
      if byte = 0x28 then
        search start text mask find (depth + 1) (place + 1)
      else if byte = 0x29 then
        search start text mask find (depth - 1) (place + 1)
      else if depth = 0 then
        match ← find place with
        | some (label, count) =>
          -- A mark without bytes would be found at the same place again and again.
          if 0 < count then
            (search start text mask find depth (place + count)).map
              (⟨label, start + place, start + (place + count)⟩ :: ·)
          else
            none
        | none => search start text mask find depth (place + 1)
      else
        search start text mask find depth (place + 1)
    else
      search start text mask find depth (place + 1)
  else
    some []
termination_by Text.size text - place

/-- The places of a keyword from a byte on, at any depth of nesting. -/
def occurrences (text : Text) (mask : List Bool) (keyword : Keyword) (place : Nat) :
    Option (List (Nat × Nat)) :=
  if place < Text.size text then do
    match ← matchAt text mask keyword place with
    | some count =>
      if 0 < count then
        (occurrences text mask keyword (place + count)).map ((place, place + count) :: ·)
      else
        none
    | none => occurrences text mask keyword (place + 1)
  else
    some []
termination_by Text.size text - place

/-! ## Marks outside of parentheses -/

/-- What is found at the bytes of a text is what a finder finds among its cells. -/
structure Finds {α : Type} (text : Text) (find : Nat → Option (Option (α × Nat)))
    (finder : Finder α) : Prop where
  between : ∀ passed cell rest, text.cells = passed ++ cell :: rest →
    find (Text.size (Cell.text passed)) =
      some ((finder (Cell.text passed).getLast? (cell :: rest)).map fun found =>
        (found.1, Text.size (Cell.text ((cell :: rest).take found.2))))
  inside : ∀ front c back place, text = front ++ c :: back → Text.size front < place →
    place < Text.size front + c.utf8Size → find place = some none
  filled : ∀ before cells label count, finder before cells = some (label, count) →
    0 < count ∧ count ≤ cells.length

theorem finds_ofKeywords {α : Type} {keywords : List (Keyword × α)}
    (hfilled : ∀ entry ∈ keywords, entry.1.IsFilled)
    (hcapital : ∀ entry ∈ keywords, entry.1.IsCapital) (text : Text) :
    Finds text (firstAt text text.codeMask keywords) (.ofKeywords keywords) where
  between passed cell rest hcells := firstAt_of_cells hcells hcapital
  inside front c back place htext hstart hstop :=
    firstAt_inside (fun entry hentry => (hfilled entry hentry).form_ne) hstart hstop htext
  filled before cells label count hfound := by
    obtain ⟨keyword, front, rest, hmem, rfl, rfl, -, hfits⟩ := Finder.exists_of_ofKeywords hfound
    rw [List.length_append]
    refine ⟨List.length_pos_iff.mpr ?_, Nat.le_add_right _ _⟩
    rintro rfl
    exact (hfilled _ hmem).ne_nil_of_spells hfits.spells rfl

section Search

variable {α : Type} {text : Text} {passed cells rest : List Cell} {cell : Cell} {depth : Int}
  {find : Nat → Option (Option (α × Nat))} {finder : Finder α}

theorem codeMask_within {place : Nat} (hcells : text.cells = passed ++ cell :: rest)
    (hstart : Text.size (Cell.text passed) ≤ place)
    (hstop : place < Text.size (Cell.text passed) + cell.char.utf8Size) :
    text.codeMask[place]? = some cell.isCode := by
  have hmask : text.codeMask = Cell.mask text.cells := rfl
  have hlength := Cell.length_mask passed
  rw [hmask, hcells, Cell.mask_append, List.getElem?_append_right (by omega), Cell.mask_cons,
    List.getElem?_append_left (by rw [List.length_replicate]; omega), List.getElem?_replicate,
    if_pos (by omega)]

/-- A loop that goes on to the next byte at each byte of a cell passes over the cell. -/
theorem pass_cell {β : Type} {loop : Nat → β} (hcells : text.cells = passed ++ cell :: rest)
    (hstep : ∀ place byte, Text.size (Cell.text passed) ≤ place →
      place < Text.size (Cell.text passed) + cell.char.utf8Size → place < Text.size text →
        text.codeMask[place]? = some cell.isCode → text.byteAt? place = some byte →
          byte ∈ String.utf8EncodeChar cell.char → loop place = loop (place + 1)) :
    loop (Text.size (Cell.text passed)) =
      loop (Text.size (Cell.text passed) + cell.char.utf8Size) := by
  have htext : text = Cell.text passed ++ cell.char :: Cell.text rest := text_eq_of_cells hcells
  refine Text.pass_char (Cell.text passed) (Cell.text rest)
    fun place byte hstart hstop hat hmem => ?_
  rw [← htext] at hat
  exact hstep place byte hstart hstop (Text.lt_size_of_byteAt? hat)
    (codeMask_within hcells hstart hstop) hat hmem

/-- A character of ASCII in code is one byte of code. -/
theorem byte_of_isCodeChar {c : Char} (hcells : text.cells = passed ++ cell :: rest)
    (hcode : cell.isCodeChar c = true) (hascii : c.toNat < 0x80) :
    cell.char.utf8Size = 1 ∧ Text.size (Cell.text passed) < Text.size text ∧
      text.codeMask[Text.size (Cell.text passed)]? = some true ∧
      text.byteAt? (Text.size (Cell.text passed)) = some (UInt8.ofNat c.toNat) := by
  obtain ⟨hinside, hmask, byte, hmem, hbyte⟩ := exists_byte_of_cells hcells
  simp only [Cell.isCodeChar, Bool.and_eq_true, beq_iff_eq] at hcode
  obtain ⟨hcode, rfl⟩ := hcode
  obtain rfl := (Text.eq_ofNat_iff_of_mem hmem _ hascii).mpr rfl
  exact ⟨Text.utf8Size_of_lt hascii, hinside, hcode ▸ hmask, hbyte⟩

/-- No byte of code in any other cell is that of a character of ASCII. -/
theorem byte_ne_of_isCodeChar {c : Char} {byte : UInt8} (hother : cell.isCodeChar c = false)
    (hascii : c.toNat < 0x80) (hcode : cell.isCode = true)
    (hmem : byte ∈ String.utf8EncodeChar cell.char) : byte ≠ UInt8.ofNat c.toNat := by
  intro hbyte
  rw [Cell.isCodeChar, hcode, Bool.true_and, beq_eq_false_iff_ne] at hother
  exact hother ((Text.eq_ofNat_iff_of_mem hmem c hascii).mp hbyte)

/-- A cell at which nothing is found is passed over. -/
theorem search_pass (hfinds : Finds text find finder) (hcells : text.cells = passed ++ cell :: rest)
    (hnone : cell.isTopLevel depth = true →
      finder (Cell.text passed).getLast? (cell :: rest) = none) (start : Nat) :
    search start text text.codeMask find depth (Text.size (Cell.text passed)) =
      search start text text.codeMask find (depth + cell.nesting)
        (Text.size (Cell.text passed) + cell.char.utf8Size) := by
  have htext : text = Cell.text passed ++ cell.char :: Cell.text rest := text_eq_of_cells hcells
  cases hopen : cell.isCodeChar '(' with
  | true =>
      obtain ⟨hwidth, hinside, hmask, hbyte⟩ := byte_of_isCodeChar hcells hopen (by decide)
      have hnesting : cell.nesting = 1 := by rw [Cell.nesting, if_pos hopen]
      rw [search, if_pos hinside, hmask, hbyte, hnesting, hwidth]
      rfl
  | false =>
      cases hclose : cell.isCodeChar ')' with
      | true =>
          obtain ⟨hwidth, hinside, hmask, hbyte⟩ := byte_of_isCodeChar hcells hclose (by decide)
          have hnesting : cell.nesting = -1 := by simp [Cell.nesting, hopen, hclose]
          rw [search, if_pos hinside, hmask, hbyte, hnesting, hwidth]
          rfl
      | false =>
          have hnesting : cell.nesting = 0 := by simp [Cell.nesting, hopen, hclose]
          rw [hnesting, Int.add_zero]
          refine pass_cell hcells fun place byte hstart hstop hinside hmask hat hmem => ?_
          rw [search, if_pos hinside, hmask, hat]
          cases hcode : cell.isCode with
          | false => rfl
          | true =>
              have hopenByte : byte ≠ 0x28 := byte_ne_of_isCodeChar hopen (by decide) hcode hmem
              have hcloseByte : byte ≠ 0x29 := byte_ne_of_isCodeChar hclose (by decide) hcode hmem
              have hfound : depth = 0 → find place = some none := by
                rintro rfl
                by_cases hfirst : place = Text.size (Cell.text passed)
                · rw [hfirst, hfinds.between _ _ _ hcells,
                    hnone (by simp [Cell.isTopLevel, hcode, hnesting])]
                  rfl
                · exact hfinds.inside _ _ _ _ htext (by omega) hstop
              simp only [Option.bind_eq_bind, Option.bind_some, if_true, if_neg hopenByte,
                if_neg hcloseByte]
              split
              · rename_i hdepth
                rw [hfound hdepth]
                rfl
              · rfl

theorem take_mark (mark rest : List Cell) (cell : Cell) :
    (cell :: (mark ++ rest)).take (mark.length + 1) = cell :: mark := by
  rw [List.take_succ_cons, List.take_left]

/-- In front of what is behind a mark stands the last character of the mark. -/
theorem getLast?_text_mark (passed mark : List Cell) (cell : Cell) :
    (Cell.text (passed ++ cell :: mark)).getLast? =
      (Cell.text mark).getLast?.or (some cell.char) := by
  rw [Cell.text_append, List.getLast?_append]
  exact Text.getLast?_cons_or _ _ _

/-- A mark that is found is passed over as a whole. -/
theorem search_mark {label : α} {mark : List Cell} (hfinds : Finds text find finder)
    (hcells : text.cells = passed ++ cell :: (mark ++ rest))
    (htop : cell.isTopLevel depth = true)
    (hfound : finder (Cell.text passed).getLast? (cell :: (mark ++ rest)) =
      some (label, mark.length + 1)) (start : Nat) :
    search start text text.codeMask find depth (Text.size (Cell.text passed)) =
      (search start text text.codeMask find depth
          (Text.size (Cell.text passed) + Text.size (Cell.text (cell :: mark)))).map
        (⟨label, start + Text.size (Cell.text passed),
          start + (Text.size (Cell.text passed) + Text.size (Cell.text (cell :: mark)))⟩ :: ·) := by
  obtain ⟨⟨rfl, hcode⟩, hopen, hclose⟩ := Cell.isTopLevel_iff.mp htop
  obtain ⟨hinside, hmask, byte, hmem, hbyte⟩ := exists_byte_of_cells hcells
  have hopenByte : byte ≠ 0x28 := byte_ne_of_isCodeChar hopen (by decide) hcode hmem
  have hcloseByte : byte ≠ 0x29 := byte_ne_of_isCodeChar hclose (by decide) hcode hmem
  have hpos : 0 < Text.size (Cell.text (cell :: mark)) :=
    Nat.add_pos_left cell.char.utf8Size_pos _
  rw [search, if_pos hinside, hmask, hcode, hbyte]
  simp only [Option.bind_eq_bind, Option.bind_some, if_true, if_neg hopenByte, if_neg hcloseByte,
    hfinds.between _ _ _ hcells, hfound, Option.map_some, take_mark]
  exact if_pos hpos

/-- The search in bytes finds what the walk over the cells finds. -/
theorem search_eq (hfinds : Finds text find finder) (hcells : text.cells = passed ++ cells)
    (depth : Int) (start : Nat) :
    search start text text.codeMask find depth (Text.size (Cell.text passed)) =
      some (Match.walk finder 0 depth (Cell.text passed).getLast?
        (start + Text.size (Cell.text passed)) cells) := by
  induction hlength : cells.length using Nat.strong_induction_on
    generalizing depth passed cells with
  | h length ih =>
      subst hlength
      cases cells with
      | nil =>
          rw [search, if_neg (by simp [size_eq_of_cells hcells, Cell.text])]
          rfl
      | cons cell rest =>
          rw [Match.walk_cons]
          cases hfound : if cell.isTopLevel depth then
              finder (Cell.text passed).getLast? (cell :: rest) else none with
          | none =>
              obtain ⟨hbehind, hsize⟩ := append_singleton_of_cells hcells
              have hnone : cell.isTopLevel depth = true →
                  finder (Cell.text passed).getLast? (cell :: rest) = none :=
                fun htop => by rwa [if_pos htop] at hfound
              have hrest := ih rest.length (Nat.lt_succ_self _) hbehind (depth + cell.nesting) rfl
              rw [search_pass hfinds hcells hnone, ← hsize, hrest, getLast?_text_mark, hsize,
                Nat.add_assoc]
              rfl
          | some found =>
              obtain ⟨label, count⟩ := found
              rw [Option.ite_none_right_eq_some] at hfound
              obtain ⟨htop, hfound⟩ := hfound
              obtain ⟨hpos, hcount⟩ := hfinds.filled _ _ _ _ hfound
              obtain ⟨count, rfl⟩ := Nat.exists_eq_succ_of_ne_zero hpos.ne'
              obtain ⟨mark, behind, rfl, rfl⟩ : ∃ mark behind, rest = mark ++ behind ∧
                  mark.length = count := by
                refine ⟨rest.take count, rest.drop count, (List.take_append_drop _ _).symm, ?_⟩
                rw [List.length_take]
                exact Nat.min_eq_left (Nat.le_of_succ_le_succ hcount)
              obtain ⟨hbehind, hsize⟩ := append_mark_of_cells hcells
              have hrest := ih behind.length (by simp) hbehind depth rfl
              rw [search_mark hfinds hcells htop hfound, ← hsize, hrest, getLast?_text_mark, hsize]
              simp only [take_mark, Match.walk_skip, Option.map_some, Nat.add_assoc]
              rfl

/-- A search that begins inside a character goes on behind it. -/
theorem search_inside (hfinds : Finds text find finder)
    (hcells : text.cells = passed ++ cell :: rest) {place : Nat}
    (hstart : Text.size (Cell.text passed) < place)
    (hstop : place < Text.size (Cell.text passed) + cell.char.utf8Size) (start : Nat)
    (depth : Int) :
    search start text text.codeMask find depth place =
      search start text text.codeMask find depth
        (Text.size (Cell.text passed) + cell.char.utf8Size) := by
  have htext : text = Cell.text passed ++ cell.char :: Cell.text rest := text_eq_of_cells hcells
  have hwide : ∀ d : Char, d.toNat < 0x80 → cell.char ≠ d := by
    rintro d hascii rfl
    have hsize := Text.utf8Size_of_lt hascii
    omega
  refine Text.pass_within (Cell.text passed) (Cell.text rest) hstart.le hstop.le
    fun place byte hfirst hlast hat hmem => ?_
  rw [← htext] at hat
  have hopenByte : byte ≠ 0x28 := fun h =>
    hwide '(' (by decide) ((Text.eq_ofNat_iff_of_mem hmem '(' (by decide)).mp h)
  have hcloseByte : byte ≠ 0x29 := fun h =>
    hwide ')' (by decide) ((Text.eq_ofNat_iff_of_mem hmem ')' (by decide)).mp h)
  rw [search, if_pos (Text.lt_size_of_byteAt? hat), codeMask_within hcells (by omega) hlast, hat]
  simp only [Option.bind_eq_bind, Option.bind_some, if_neg hopenByte, if_neg hcloseByte,
    hfinds.inside _ _ _ _ htext (by omega : _ < place) hlast]
  split_ifs <;> rfl

/-- What a search from any byte of a text finds. -/
theorem search_ahead (hfinds : Finds text find finder) (start position : Nat) :
    search start text text.codeMask find 0 position =
      some (Match.walk finder 0 0 (Ahead.seek none text.cells position).before
        (start + min position (Text.size text) + (Ahead.seek none text.cells position).cut)
        (Ahead.seek none text.cells position).cells) := by
  obtain ⟨passed, hcells, hbefore, hsize, -, hfirst⟩ := Ahead.exists_passed none text.cells position
  have htext : Cell.text text.cells = text := Mode.text_cells _ _
  rw [htext] at hsize
  have hahead := search_eq hfinds hcells 0 start
  rw [Nat.add_assoc, hsize, hbefore, Option.or_none, ← hahead]
  by_cases hinside : position ≤ Text.size text
  · obtain ⟨front, back, hparts, hfront⟩ | ⟨front, c, back, hparts, hstart, hstop⟩ :=
      Text.exists_at hinside
    · obtain ⟨front, back, hsplit, rfl, -⟩ := List.map_eq_append_iff.mp (htext.trans hparts)
      obtain ⟨gap, rfl⟩ := hfirst front back hsplit hfront.ge
      change Text.size (Cell.text (passed ++ gap)) = position at hfront
      rw [Cell.text_append, Text.size_append] at hfront
      have hplace : Text.size (Cell.text passed) = position := by omega
      rw [hplace]
    · obtain ⟨front, others, hsplit, rfl, hothers⟩ := List.map_eq_append_iff.mp (htext.trans hparts)
      obtain ⟨cell, back, rfl, rfl, -⟩ := List.map_eq_cons_iff.mp hothers
      change Text.size (Cell.text front) < position at hstart
      change position < Text.size (Cell.text front) + cell.char.utf8Size at hstop
      obtain ⟨hsplit', hbehind⟩ := append_singleton_of_cells hsplit
      obtain ⟨gap, hgap⟩ := hfirst _ _ hsplit' (by omega)
      have hpassed : passed = front ++ [cell] := by
        obtain rfl | ⟨gap, other, rfl⟩ := List.eq_nil_or_concat gap
        · rw [hgap, List.append_nil]
        · rw [List.concat_eq_append, ← List.append_assoc] at hgap
          obtain ⟨rfl, -⟩ := List.append_inj' hgap rfl
          rw [Cell.text_append, Text.size_append] at hstart
          omega
      rw [search_inside hfinds hsplit hstart hstop, ← hbehind, hpassed]
  · have hall := size_eq_of_cells hcells
    rw [search, if_neg (by omega), search, if_neg (by omega)]

variable {keyword : Keyword}

theorem occurrences_pass (hfilled : keyword.IsFilled) (hcapital : keyword.IsCapital)
    (hcells : text.cells = passed ++ cell :: rest)
    (hnone : keyword.length? (Cell.text passed).getLast? (cell :: rest) = none) :
    occurrences text text.codeMask keyword (Text.size (Cell.text passed)) =
      occurrences text text.codeMask keyword
        (Text.size (Cell.text passed) + cell.char.utf8Size) := by
  refine pass_cell hcells fun place byte hstart hstop hinside _ _ _ => ?_
  have hplace : matchAt text text.codeMask keyword place = some none := by
    by_cases hfirst : place = Text.size (Cell.text passed)
    · rw [hfirst, matchAt_of_cells hcells hcapital, hnone, Option.map_none]
    · exact matchAt_inside hfilled.form_ne (by omega) hstop (text_eq_of_cells hcells)
  rw [occurrences, if_pos hinside, hplace]
  rfl

theorem occurrences_mark {mark : List Cell} (hcapital : keyword.IsCapital)
    (hcells : text.cells = passed ++ cell :: (mark ++ rest))
    (hfound : keyword.length? (Cell.text passed).getLast? (cell :: (mark ++ rest)) =
      some (mark.length + 1)) :
    occurrences text text.codeMask keyword (Text.size (Cell.text passed)) =
      (occurrences text text.codeMask keyword
          (Text.size (Cell.text passed) + Text.size (Cell.text (cell :: mark)))).map
        ((Text.size (Cell.text passed),
          Text.size (Cell.text passed) + Text.size (Cell.text (cell :: mark))) :: ·) := by
  have hmatch := matchAt_of_cells hcells hcapital
  have hpos : 0 < Text.size (Cell.text (cell :: mark)) :=
    Nat.add_pos_left cell.char.utf8Size_pos _
  rw [hfound, Option.map_some, take_mark] at hmatch
  rw [occurrences, if_pos (exists_byte_of_cells hcells).1, hmatch]
  exact if_pos hpos

/-- The keyword is looked for at each byte that is not inside one that was found. -/
theorem occurrences_eq (hfilled : keyword.IsFilled) (hcapital : keyword.IsCapital)
    (hcells : text.cells = passed ++ cells) :
    occurrences text text.codeMask keyword (Text.size (Cell.text passed)) =
      some ((Fragment.occurrences.go keyword 0 (Cell.text passed).getLast?
        (Text.size (Cell.text passed)) cells).map Fragment.range) := by
  induction hlength : cells.length using Nat.strong_induction_on generalizing passed cells with
  | h length ih =>
      subst hlength
      cases cells with
      | nil =>
          rw [occurrences, if_neg (by simp [size_eq_of_cells hcells, Cell.text])]
          rfl
      | cons cell rest =>
          cases hfound : keyword.length? (Cell.text passed).getLast? (cell :: rest) with
          | none =>
              obtain ⟨hbehind, hsize⟩ := append_singleton_of_cells hcells
              have hrest := ih rest.length (Nat.lt_succ_self _) hbehind rfl
              rw [occurrences_pass hfilled hcapital hcells hfound, ← hsize, hrest,
                getLast?_text_mark, hsize, Fragment.occurrences_go_cons hfound]
              rfl
          | some count =>
              obtain ⟨front, behind, hparts, rfl, -, hfits⟩ := Keyword.exists_of_length? hfound
              obtain ⟨first, mark, rfl⟩ : ∃ first mark, front = first :: mark := by
                refine List.exists_cons_of_ne_nil ?_
                rintro rfl
                exact hfilled.ne_nil_of_spells hfits.spells rfl
              rw [List.cons_append] at hparts
              obtain ⟨rfl, rfl⟩ := List.cons.inj hparts
              obtain ⟨hbehind, hsize⟩ := append_mark_of_cells hcells
              have hrest := ih behind.length (by simp) hbehind rfl
              rw [occurrences_mark hcapital hcells hfound, ← hsize, hrest, getLast?_text_mark,
                hsize, Fragment.occurrences.go, hfound]
              simp only [List.length_cons, take_mark, Fragment.occurrences_go_skip, Option.map_some,
                List.map_cons, Nat.add_assoc]
              rfl

end Search

/-! ## The marks of a fragment -/

section Marks

variable {α : Type} {keywords : List (Keyword × α)}

/-- The keywords of a fragment outside of parentheses. -/
def marks (keywords : List (Keyword × α)) (fragment : Fragment) : Option (List (Match α)) := do
  let mask ← codeMask fragment.text
  search fragment.start fragment.text mask (firstAt fragment.text mask keywords) 0 0

/-- Whether a comma is at a byte. -/
def commaAt (text : Text) (place : Nat) : Option (Option (Unit × Nat)) :=
  (text.byteAt? place).map fun byte => if byte = 0x2C then some ((), 1) else none

/-- The commas of a fragment outside of parentheses. -/
def commas (fragment : Fragment) : Option (List (Match Unit)) := do
  let mask ← codeMask fragment.text
  search fragment.start fragment.text mask (commaAt fragment.text) 0 0

/-- The keywords ahead of a cursor outside of the parentheses that are opened from there on. -/
def marksAhead (keywords : List (Keyword × α)) (cursor : Cursor) : Option (List (Match α)) := do
  let mask ← codeMask cursor.text
  search cursor.offset cursor.text mask (firstAt cursor.text mask keywords) 0 cursor.position

theorem marks_eq (hfilled : ∀ entry ∈ keywords, entry.1.IsFilled)
    (hcapital : ∀ entry ∈ keywords, entry.1.IsCapital) (fragment : Fragment) :
    marks keywords fragment = some (fragment.matchesOf (.ofKeywords keywords)) := by
  rw [marks, codeMask_eq]
  exact search_eq (finds_ofKeywords hfilled hcapital _) (List.nil_append _).symm 0 fragment.start

/-- The keywords of a statement are found in bytes as they are found in cells. -/
theorem marks_of_isPlain (hplain : ∀ entry ∈ keywords, entry.1.isPlain = true)
    (fragment : Fragment) :
    marks keywords fragment = some (fragment.matchesOf (.ofKeywords keywords)) :=
  marks_eq (fun entry hentry => Keyword.isFilled_of_isPlain (hplain entry hentry))
    (fun entry hentry => Keyword.isCapital_of_isPlain (hplain entry hentry)) fragment

theorem finds_comma (text : Text) : Finds text (commaAt text) Finder.comma where
  between passed cell rest hcells := by
    obtain ⟨-, -, byte, hmem, hbyte⟩ := exists_byte_of_cells hcells
    have hcomma : byte = 0x2C ↔ cell.char = ',' := Text.eq_ofNat_iff_of_mem hmem ',' (by decide)
    rw [commaAt, hbyte, Option.map_some, Finder.comma]
    by_cases hchar : cell.char = ','
    · have hsize : Text.size (Cell.text [cell]) = 1 := by simp [Cell.text, hchar]; rfl
      rw [if_pos (hcomma.mpr hchar), if_pos hchar, Option.map_some, List.take_succ_cons,
        List.take_zero, hsize]
    · rw [if_neg fun h => hchar (hcomma.mp h), if_neg hchar]
      rfl
  inside front c back place htext hstart hstop := by
    obtain ⟨byte, hmem, hbyte⟩ :=
      @Text.exists_byteAt?_of_mem c front back place hstart.le hstop
    have hne : byte ≠ 0x2C := by
      intro h
      obtain rfl := (Text.eq_ofNat_iff_of_mem hmem ',' (by decide)).mp h
      have hsize : ','.utf8Size = 1 := rfl
      omega
    rw [commaAt, htext, hbyte, Option.map_some, if_neg hne]
  filled before cells label count hfound := by
    cases cells with
    | nil => contradiction
    | cons cell rest =>
        rw [Finder.comma, Option.ite_none_right_eq_some] at hfound
        obtain ⟨-, hfound⟩ := hfound
        obtain ⟨-, rfl⟩ := Prod.mk.inj (Option.some.inj hfound)
        exact ⟨Nat.one_pos, Nat.le_add_left _ _⟩

theorem commas_eq (fragment : Fragment) :
    commas fragment = some (fragment.matchesOf Finder.comma) := by
  rw [commas, codeMask_eq]
  exact search_eq (finds_comma _) (List.nil_append _).symm 0 fragment.start

theorem marksAhead_eq (hfilled : ∀ entry ∈ keywords, entry.1.IsFilled)
    (hcapital : ∀ entry ∈ keywords, entry.1.IsCapital) (cursor : Cursor) :
    marksAhead keywords cursor =
      some ((cursor.segment (.ofKeywords keywords)).tail.map Segment.found) := by
  rw [marksAhead, codeMask_eq, Cursor.map_found_segment]
  exact search_ahead (finds_ofKeywords hfilled hcapital _) cursor.offset cursor.position

/-- The keywords of a statement ahead of a cursor are found in bytes as they are found in cells. -/
theorem marksAhead_of_isPlain (hplain : ∀ entry ∈ keywords, entry.1.isPlain = true)
    (cursor : Cursor) :
    marksAhead keywords cursor =
      some ((cursor.segment (.ofKeywords keywords)).tail.map Segment.found) :=
  marksAhead_eq (fun entry hentry => Keyword.isFilled_of_isPlain (hplain entry hentry))
    (fun entry hentry => Keyword.isCapital_of_isPlain (hplain entry hentry)) cursor

end Marks

end Bytewise

end SelectForm

import Mathlib
import SelectForm.Proofs.Lexis.PhrasePlaces
import SelectForm.Proofs.Statement.CursorCells
import SelectForm.Proofs.Statement.ListPlaces

/-!
# Searching for keywords

The keywords ahead of a cursor are searched for in one walk that never looks back: a keyword that
is found is passed over as a whole.  The bytes of the text say what the walk must find.  Each match
begins at a byte of code outside the parentheses that are opened from the cursor on, with the first
keyword of the list that is matched there, and no such byte is missed unless it lies inside a match.
-/

namespace SelectForm

/-! ## Nesting in bytes -/

/-- The change of nesting at a byte of code. -/
def byteNesting (byte : UInt8) : Int :=
  if byte = 0x28 then 1 else if byte = 0x29 then -1 else 0

namespace Text

/-- For every byte of a text, the change of nesting at it.  Only code nests. -/
def nestings (text : Text) : List Int :=
  List.zipWith (fun byte code => if code then byteNesting byte else 0) (bytes text) text.codeMask

/-- The change of nesting between two bytes. -/
def nestingBetween (text : Text) (first last : Nat) : Int :=
  ((text.nestings.take last).drop first).sum

/-- A byte of code that is no parenthesis and stands outside all those that are opened from
another byte on. -/
structure TopLevelAt (text : Text) (first place : Nat) : Prop where
  behind : first ≤ place
  code : text.codeMask[place]? = some true
  plain : ∀ byte ∈ text.byteAt? place, byteNesting byte = 0
  level : text.nestingBetween first place = 0

end Text

namespace Cell

/-- For every byte of some cells, the change of nesting at it. -/
def nestings (cells : List Cell) : List Int :=
  List.zipWith (fun byte code => if code then byteNesting byte else 0) (Text.bytes (text cells))
    (mask cells)

theorem length_nestings (cells : List Cell) :
    (nestings cells).length = Text.size (text cells) := by
  rw [nestings, List.length_zipWith, Text.length_bytes, length_mask, Nat.min_self]

theorem nestings_append (front back : List Cell) :
    nestings (front ++ back) = nestings front ++ nestings back := by
  rw [nestings, text_append, Text.bytes_append, mask_append, List.zipWith_append]
  · rfl
  · rw [Text.length_bytes, length_mask]

theorem nestings_singleton (cell : Cell) :
    nestings [cell] =
      (String.utf8EncodeChar cell.char).map fun byte =>
        if cell.isCode then byteNesting byte else 0 := by
  have hmask : mask [cell] = (String.utf8EncodeChar cell.char).map fun _ => cell.isCode := by
    rw [List.map_const', String.length_utf8EncodeChar, mask, List.flatMap_singleton]
  have hbytes : Text.bytes (text [cell]) = String.utf8EncodeChar cell.char :=
    List.flatMap_singleton _ _
  rw [nestings, hmask, hbytes, List.zipWith_map_right, List.zipWith_self]

/-- A character of several bytes nests at none of them. -/
theorem nestings_wide {cell : Cell} (hwide : 0x80 ≤ cell.char.toNat) :
    ∀ change ∈ nestings [cell], change = 0 := by
  rw [nestings_singleton, List.forall_mem_map]
  intro byte hbyte
  have hlarge : ¬ byte < 0x80 := by
    rw [Text.lt_iff_of_mem_utf8EncodeChar hbyte]
    omega
  have hbyteNesting : byteNesting byte = 0 := by
    rw [byteNesting, if_neg, if_neg]
    · rintro rfl
      exact hlarge (by decide)
    · rintro rfl
      exact hlarge (by decide)
  rw [hbyteNesting, ite_self]

/-- An ASCII character nests at its only byte. -/
theorem nestings_ascii {cell : Cell} (hascii : cell.char.toNat < 0x80) :
    nestings [cell] = [cell.nesting] := by
  have hall : ∀ n < 0x80, byteNesting (UInt8.ofNat n) =
      if Char.ofNat n = '(' then 1 else if Char.ofNat n = ')' then -1 else 0 := by decide
  have hbyte := hall _ hascii
  rw [Char.ofNat_toNat] at hbyte
  rw [nestings_singleton, Text.utf8EncodeChar_of_lt hascii, List.map_singleton, hbyte]
  cases hcode : cell.isCode <;> simp [nesting, isCodeChar, hcode]

theorem sum_nestings_singleton (cell : Cell) : (nestings [cell]).sum = cell.nesting := by
  by_cases hascii : cell.char.toNat < 0x80
  · rw [nestings_ascii hascii, List.sum_singleton]
  · have hne : ∀ c : Char, c.toNat < 0x80 → cell.isCodeChar c = false := by
      intro c hc
      rw [isCodeChar, Bool.and_eq_false_iff, beq_eq_false_iff_ne]
      exact .inr fun hchar => hascii (hchar ▸ hc)
    rw [List.sum_eq_zero (nestings_wide (Nat.le_of_not_lt hascii)), nesting,
      hne '(' (by decide), hne ')' (by decide)]
    rfl

/-- A character of code nests at each of its bytes as it does as a whole. -/
theorem byteNesting_eq {cell : Cell} {byte : UInt8} (hcode : cell.isCode = true)
    (hmem : byte ∈ String.utf8EncodeChar cell.char) : byteNesting byte = cell.nesting := by
  have hchange : byteNesting byte ∈ nestings [cell] := by
    rw [nestings_singleton, hcode]
    exact List.mem_map_of_mem hmem
  by_cases hascii : cell.char.toNat < 0x80
  · rw [nestings_ascii hascii] at hchange
    exact List.mem_singleton.mp hchange
  · have hwide := nestings_wide (Nat.le_of_not_lt hascii)
    rw [hwide _ hchange, ← sum_nestings_singleton, List.sum_eq_zero hwide]

theorem sum_nestings (cells : List Cell) : (nestings cells).sum = depth cells := by
  induction cells with
  | nil => rfl
  | cons cell cells ih =>
      have hcons : nestings (cell :: cells) = nestings [cell] ++ nestings cells :=
        nestings_append [cell] cells
      rw [hcons, List.sum_append, sum_nestings_singleton, ih, depth_cons]

end Cell

namespace Text

theorem nestings_eq (text : Text) : text.nestings = Cell.nestings text.cells := by
  have htext : Cell.text text.cells = text := Mode.text_cells _ _
  rw [Cell.nestings, htext]
  rfl

/-- Among the cells of a text a byte outside parentheses is the first one of a cell at which a
mark may begin. -/
theorem topLevelAt_iff {text : Text} {passed front back : List Cell} {cell : Cell} {first : Nat}
    (hcells : text.cells = passed ++ (front ++ cell :: back))
    (hfirst : first ≤ size (Cell.text passed))
    (hsum : ((Cell.nestings passed).drop first).sum = 0) :
    text.TopLevelAt first (size (Cell.text passed) + size (Cell.text front)) ↔
      Cell.depth front = 0 ∧ cell.isTopLevel 0 = true := by
  have hpos := cell.char.utf8Size_pos
  rw [← List.append_assoc] at hcells
  rw [← size_append, ← Cell.text_append]
  have hcode : text.codeMask[size (Cell.text (passed ++ front))]? = some cell.isCode := by
    have hmask : text.codeMask = Cell.mask text.cells := rfl
    rw [hmask, hcells]
    exact Cell.getElem?_mask _ _ _
  obtain ⟨byte, hmem, hbyte⟩ := @exists_byteAt?_of_mem cell.char (Cell.text (passed ++ front))
    (Cell.text back) (size (Cell.text (passed ++ front))) le_rfl (by omega)
  have htext : text = Cell.text (passed ++ front) ++ cell.char :: Cell.text back := by
    have hall : Cell.text text.cells = text := Mode.text_cells _ _
    rw [← hall, hcells, Cell.text_append]
    rfl
  rw [← htext] at hbyte
  have hlevel : text.nestingBetween first (size (Cell.text (passed ++ front))) =
      Cell.depth front := by
    rw [nestingBetween, nestings_eq, hcells, Cell.nestings_append,
      List.take_left' (Cell.length_nestings _), Cell.nestings_append,
      List.drop_append_of_le_length (by rwa [Cell.length_nestings]), List.sum_append, hsum,
      Cell.sum_nestings, zero_add]
  constructor
  · rintro ⟨-, hmask, hplain, hbetween⟩
    have hcell : cell.isCode = true := Option.some.inj (hcode.symm.trans hmask)
    have hnesting := hplain byte hbyte
    rw [Cell.byteNesting_eq hcell hmem] at hnesting
    exact ⟨hlevel ▸ hbetween, by simp [Cell.isTopLevel, hcell, hnesting]⟩
  · rintro ⟨hdepth, htop⟩
    simp only [Cell.isTopLevel, Bool.and_eq_true, beq_iff_eq] at htop
    obtain ⟨⟨-, hcell⟩, hnesting⟩ := htop
    refine ⟨?_, hcell ▸ hcode, fun other hother => ?_, hlevel.trans hdepth⟩
    · rw [Cell.text_append, size_append]
      omega
    · rw [hbyte, Option.mem_some_iff] at hother
      rw [← hother, Cell.byteNesting_eq hcell hmem, hnesting]

end Text

/-! ## What is ahead of a place -/

namespace Ahead

/-- What is ahead of a place are the cells behind some others.  They reach to the place, or to the
end of the character that it cuts, and any others that reach to the place begin with them. -/
theorem exists_passed (before : Option Char) (cells : List Cell) (count : Nat) :
    ∃ passed, cells = passed ++ (seek before cells count).cells ∧
      (seek before cells count).before = (Cell.text passed).getLast?.or before ∧
      min count (Text.size (Cell.text cells)) + (seek before cells count).cut =
        Text.size (Cell.text passed) ∧
      ((Cell.nestings passed).drop count).sum = 0 ∧
      ∀ front back, cells = front ++ back → count ≤ Text.size (Cell.text front) →
        ∃ gap, front = passed ++ gap := by
  fun_induction seek before cells count with
  | case1 before cells =>
      exact ⟨[], rfl, rfl, by simp [Cell.text], rfl, fun front _ _ _ => ⟨front, rfl⟩⟩
  | case2 before count =>
      refine ⟨[], rfl, rfl, by simp [Cell.text], by simp [Cell.nestings, Cell.mask], ?_⟩
      exact fun front _ _ _ => ⟨front, rfl⟩
  | case3 before cell rest count hinside ih =>
      obtain ⟨passed, hcells, hbefore, hsize, hsum, hfirst⟩ := ih
      have htext : ∀ cells, Cell.text (cell :: cells) = cell.char :: Cell.text cells :=
        fun _ => rfl
      refine ⟨cell :: passed, congrArg (cell :: ·) hcells, ?_, ?_, ?_, ?_⟩
      · rw [hbefore, htext, Text.getLast?_cons_or]
      · rw [htext, htext, Text.size_cons, Text.size_cons]
        omega
      · have hcons : Cell.nestings (cell :: passed) =
            Cell.nestings [cell] ++ Cell.nestings passed := Cell.nestings_append [cell] passed
        have hlength : (Cell.nestings [cell]).length = cell.char.utf8Size := by
          rw [Cell.length_nestings]
          rfl
        rw [hcons, List.drop_append, hlength, List.drop_of_length_le (by omega), List.nil_append]
        exact hsum
      · intro front back hsplit hplace
        cases front with
        | nil => simp [Cell.text] at hplace
        | cons other front =>
            obtain ⟨rfl, hrest⟩ := List.cons.inj hsplit
            rw [htext, Text.size_cons] at hplace
            obtain ⟨gap, rfl⟩ := hfirst front back hrest (by omega)
            exact ⟨gap, rfl⟩
  | case4 before cell rest count hinside =>
      have hsingle : Text.size (Cell.text [cell]) = cell.char.utf8Size := rfl
      have hcons : Text.size (Cell.text (cell :: rest)) =
          cell.char.utf8Size + Text.size (Cell.text rest) := rfl
      have hwide : 0x80 ≤ cell.char.toNat := by
        by_contra hascii
        have hlength := String.length_utf8EncodeChar cell.char
        rw [Text.utf8EncodeChar_of_lt (Nat.lt_of_not_le hascii), List.length_singleton] at hlength
        omega
      refine ⟨[cell], rfl, rfl, by rw [hsingle, hcons]; dsimp only; omega, ?_, ?_⟩
      · exact List.sum_eq_zero fun change hmem =>
          Cell.nestings_wide hwide change (List.mem_of_mem_drop hmem)
      · intro front back hsplit hplace
        cases front with
        | nil => simp [Cell.text] at hplace
        | cons other front =>
            obtain ⟨rfl, -⟩ := List.cons.inj hsplit
            exact ⟨front, rfl⟩

end Ahead

/-! ## The walk -/

/-- What is found is never empty and holds no parenthesis. -/
def Finder.KeepsLevel {α : Type} (find : Finder α) : Prop :=
  ∀ before cells label count, find before cells = some (label, count) →
    ∃ mark rest, cells = mark ++ rest ∧ mark.length = count ∧ mark ≠ [] ∧
      ∀ cell ∈ mark, cell.nesting = 0

namespace Match

variable {α : Type} {find : Finder α} {depth : Int} {before : Option Char} {offset : Nat}
  {cells : List Cell} {points : List (Match α)}

/-- A walk over some cells: it passes over a cell at which nothing is found, and over a mark as a
whole. -/
inductive Walks (find : Finder α) :
    Int → Option Char → Nat → List Cell → List (Match α) → Prop
  | nil {depth : Int} {before : Option Char} {offset : Nat} : Walks find depth before offset [] []
  | pass {depth : Int} {before : Option Char} {offset : Nat} {cell : Cell} {rest : List Cell}
      {points : List (Match α)}
      (hnone : cell.isTopLevel depth = true → find before (cell :: rest) = none)
      (hrest : Walks find (depth + cell.nesting) (some cell.char) (offset + cell.char.utf8Size)
        rest points) :
      Walks find depth before offset (cell :: rest) points
  | found {before : Option Char} {offset : Nat} {cell : Cell} {mark rest : List Cell} {label : α}
      {points : List (Match α)} (htop : cell.isTopLevel 0 = true)
      (hmark : ∀ other ∈ cell :: mark, other.nesting = 0)
      (hfound : find before (cell :: (mark ++ rest)) = some (label, mark.length + 1))
      (hrest : Walks find 0 ((Cell.text mark).getLast?.or (some cell.char))
        (offset + Text.size (Cell.text (cell :: mark))) rest points) :
      Walks find 0 before offset (cell :: (mark ++ rest))
        (⟨label, offset, offset + Text.size (Cell.text (cell :: mark))⟩ :: points)

theorem walk_skip (mark rest : List Cell) :
    walk find mark.length depth before offset (mark ++ rest) =
      walk find 0 depth ((Cell.text mark).getLast?.or before)
        (offset + Text.size (Cell.text mark)) rest := by
  induction mark generalizing before offset with
  | nil => rfl
  | cons cell mark ih =>
      have htext : Cell.text (cell :: mark) = cell.char :: Cell.text mark := rfl
      rw [List.length_cons, List.cons_append, walk, ih, htext, Text.getLast?_cons_or,
        Text.size_cons, Nat.add_assoc]

theorem walks (hkeeps : find.KeepsLevel) (depth : Int) (before : Option Char) (offset : Nat)
    (cells : List Cell) :
    Walks find depth before offset cells (walk find 0 depth before offset cells) := by
  induction hlength : cells.length using Nat.strong_induction_on
    generalizing depth before offset cells with
  | h length ih =>
      subst hlength
      cases cells with
      | nil => exact .nil
      | cons cell rest =>
          have hpass := fun depth before offset =>
            ih rest.length (Nat.lt_succ_self _) depth before offset rest rfl
          rw [walk_cons]
          cases hfound : if cell.isTopLevel depth then find before (cell :: rest) else none with
          | none => exact .pass (fun htop => by rwa [if_pos htop] at hfound) (hpass _ _ _)
          | some found =>
              obtain ⟨label, count⟩ := found
              rw [Option.ite_none_right_eq_some] at hfound
              obtain ⟨htop, hfound⟩ := hfound
              obtain ⟨⟨rfl, -⟩, -⟩ := Cell.isTopLevel_iff.mp htop
              obtain ⟨mark, behind, hcells, rfl, hne, hmark⟩ := hkeeps _ _ _ _ hfound
              obtain ⟨first, mark, rfl⟩ := List.exists_cons_of_ne_nil hne
              rw [List.cons_append] at hcells
              obtain ⟨rfl, rfl⟩ := List.cons.inj hcells
              have htake : (cell :: (mark ++ behind)).take (mark.length + 1) = cell :: mark := by
                rw [List.take_succ_cons, List.take_left]
              have hsize : Text.size (Cell.text (cell :: mark)) =
                  cell.char.utf8Size + Text.size (Cell.text mark) := rfl
              dsimp only [List.length_cons]
              rw [htake, walk_skip, Nat.add_assoc, ← hsize]
              refine .found htop hmark hfound (ih _ ?_ _ _ _ _ rfl)
              rw [List.length_cons, List.length_append]
              omega

/-- The matches of a walk are not empty, and come one behind the other. -/
theorem Walks.pairwise (hwalks : Walks find depth before offset cells points) :
    (∀ point ∈ points, offset ≤ point.start ∧ point.start < point.stop) ∧
      points.Pairwise fun one other => one.stop ≤ other.start := by
  induction hwalks with
  | nil => exact ⟨List.forall_mem_nil _, .nil⟩
  | pass _ _ ih =>
      refine ⟨fun point hpoint => ?_, ih.2⟩
      obtain ⟨hstart, hstop⟩ := ih.1 point hpoint
      exact ⟨by omega, hstop⟩
  | @found before offset cell mark rest label points _ _ _ _ ih =>
      have hpos := cell.char.utf8Size_pos
      have hsize : Text.size (Cell.text (cell :: mark)) =
          cell.char.utf8Size + Text.size (Cell.text mark) := rfl
      refine ⟨List.forall_mem_cons.mpr ⟨⟨le_rfl, by dsimp only; omega⟩, fun point hpoint => ?_⟩,
        List.pairwise_cons.mpr ⟨fun point hpoint => (ih.1 point hpoint).1, ih.2⟩⟩
      obtain ⟨hstart, hstop⟩ := ih.1 point hpoint
      exact ⟨by omega, hstop⟩

theorem depth_eq_zero {mark : List Cell} (hmark : ∀ cell ∈ mark, cell.nesting = 0) :
    Cell.depth mark = 0 :=
  List.sum_eq_zero (List.forall_mem_map.mpr hmark)

/-- At each match of a walk its label is found, outside all parentheses. -/
theorem Walks.exists_found (hwalks : Walks find depth before offset cells points)
    {point : Match α} (hpoint : point ∈ points) :
    ∃ front cell back count, cells = front ++ cell :: back ∧ depth + Cell.depth front = 0 ∧
      cell.isTopLevel 0 = true ∧
      find ((Cell.text front).getLast?.or before) (cell :: back) = some (point.label, count) ∧
      point.start = offset + Text.size (Cell.text front) ∧
      point.stop = point.start + Text.size (Cell.text ((cell :: back).take count)) := by
  induction hwalks with
  | nil => exact absurd hpoint List.not_mem_nil
  | @pass depth before offset cell rest points _ _ ih =>
      obtain ⟨front, other, back, count, rfl, hdepth, htop, hfound, hstart, hstop⟩ := ih hpoint
      have htext : Cell.text (cell :: front) = cell.char :: Cell.text front := rfl
      refine ⟨cell :: front, other, back, count, rfl, ?_, htop, ?_, ?_, hstop⟩
      · rw [Cell.depth_cons, ← Int.add_assoc, hdepth]
      · rw [htext, Text.getLast?_cons_or]
        exact hfound
      · rw [htext, Text.size_cons, ← Nat.add_assoc, hstart]
  | @found before offset cell mark rest label points htop hmark hfound _ ih =>
      rcases List.mem_cons.mp hpoint with rfl | hpoint
      · refine ⟨[], cell, mark ++ rest, mark.length + 1, rfl, rfl, htop, hfound, rfl, ?_⟩
        rw [List.take_succ_cons, List.take_left]
      · obtain ⟨front, other, back, count, rfl, hdepth, hother, hbehind, hstart, hstop⟩ :=
          ih hpoint
        have htext : Cell.text (cell :: (mark ++ front)) =
            cell.char :: (Cell.text mark ++ Cell.text front) := by
          rw [← Cell.text_append]
          rfl
        refine ⟨cell :: (mark ++ front), other, back, count, ?_, ?_, hother, ?_, ?_, hstop⟩
        · rw [List.cons_append, List.append_assoc]
        · have hparts := Cell.depth_append (cell :: mark) front
          rw [depth_eq_zero hmark] at hparts
          rw [← List.cons_append, hparts]
          simpa using hdepth
        · rw [htext, Text.getLast?_cons_or, List.getLast?_append, Option.or_assoc]
          exact hbehind
        · have hsize : Text.size (Cell.text (cell :: mark)) =
              cell.char.utf8Size + Text.size (Cell.text mark) := rfl
          rw [htext, Text.size_cons, Text.size_append, hstart, hsize]
          omega

/-- Where something is found outside all parentheses, a walk has a match or is inside one. -/
theorem Walks.exists_point (hwalks : Walks find depth before offset cells points)
    {front back : List Cell} {cell : Cell} (hcells : cells = front ++ cell :: back)
    (hdepth : depth + Cell.depth front = 0) (htop : cell.isTopLevel 0 = true)
    (hfound : (find ((Cell.text front).getLast?.or before) (cell :: back)).isSome = true) :
    ∃ point ∈ points, point.start ≤ offset + Text.size (Cell.text front) ∧
      offset + Text.size (Cell.text front) < point.stop := by
  induction hwalks generalizing front with
  | nil => simp at hcells
  | @pass depth before offset other rest points hnone _ ih =>
      cases front with
      | nil =>
          obtain ⟨rfl, rfl⟩ := List.cons.inj hcells
          obtain rfl : depth = 0 := by simpa [Cell.depth] using hdepth
          have hsome : (find before (other :: rest)).isSome = true := hfound
          rw [hnone htop] at hsome
          contradiction
      | cons first front =>
          obtain ⟨rfl, rfl⟩ := List.cons.inj hcells
          have htext : Cell.text (other :: front) = other.char :: Cell.text front := rfl
          rw [Cell.depth_cons, ← Int.add_assoc] at hdepth
          rw [htext, Text.getLast?_cons_or] at hfound
          rw [htext, Text.size_cons, ← Nat.add_assoc]
          exact ih rfl hdepth hfound
  | @found before offset other mark rest label points _ hmark _ _ ih =>
      by_cases hinside : front.length ≤ mark.length
      · -- The place is inside the mark.
        refine ⟨_, List.mem_cons_self, Nat.le_add_right _ _, ?_⟩
        have hfront : front ++ [cell] <+: other :: (mark ++ rest) :=
          ⟨back, by rw [hcells, List.append_assoc, List.singleton_append]⟩
        obtain ⟨behind, hbehind⟩ : front ++ [cell] <+: other :: mark :=
          List.prefix_of_prefix_length_le hfront ⟨rest, rfl⟩ (by simpa using hinside)
        have hpos := cell.char.utf8Size_pos
        have hsize := congrArg (fun cells => Text.size (Cell.text cells)) hbehind
        have hsingle : Text.size (Cell.text [cell]) = cell.char.utf8Size := rfl
        simp only [Cell.text_append, Text.size_append, hsingle] at hsize
        dsimp only
        omega
      · obtain ⟨gap, rfl⟩ : ∃ gap, front = other :: mark ++ gap := by
          have hmarked : other :: mark <+: other :: (mark ++ rest) := ⟨rest, rfl⟩
          obtain ⟨gap, hgap⟩ : other :: mark <+: front := by
            refine List.prefix_of_prefix_length_le hmarked ⟨cell :: back, hcells.symm⟩ ?_
            simp only [List.length_cons]
            omega
          exact ⟨gap, hgap.symm⟩
        have hrest : rest = gap ++ cell :: back := by
          rw [← List.cons_append, List.append_assoc] at hcells
          exact List.append_cancel_left hcells
        have htext : Cell.text (other :: mark) = other.char :: Cell.text mark := rfl
        rw [Cell.depth_append, depth_eq_zero hmark, zero_add (Cell.depth gap)] at hdepth
        rw [Cell.text_append, List.getLast?_append, Option.or_assoc, htext,
          Text.getLast?_cons_or] at hfound
        obtain ⟨point, hpoint, hstart, hstop⟩ := ih hrest hdepth hfound
        rw [Cell.text_append, Text.size_append, ← Nat.add_assoc]
        exact ⟨point, List.mem_cons_of_mem _ hpoint, hstart, hstop⟩

end Match

/-! ## Keywords without parentheses -/

namespace Keyword

variable {keyword : Keyword} {text : Text} {passed cells : List Cell}

/-- The characters of the words of a keyword. -/
def letters (keyword : Keyword) : Text :=
  match keyword.form with
  | .symbol symbol => symbol
  | .phrase words => words.flatten

/-- A keyword that has something to write and holds no parenthesis. -/
structure IsSearchable (keyword : Keyword) : Prop where
  filled : keyword.IsFilled
  plain : ∀ c ∈ keyword.letters, c ≠ '(' ∧ c ≠ ')'

theorem isSearchable_of_isPhrase (hphrase : keyword.isPhrase = true) : keyword.IsSearchable := by
  refine ⟨isFilled_of_isPhrase hphrase, fun c hc => ?_⟩
  obtain ⟨word, words, hform, hwords⟩ := exists_of_isPhrase hphrase
  rw [letters, hform] at hc
  obtain ⟨other, hother, hmem⟩ := List.mem_flatten.mp hc
  have hupper := (hwords other hother).2 c hmem
  constructor <;> rintro rfl <;> exact absurd hupper (by decide)

theorem mem_of_spellsWords {words : List Text} (hspells : SpellsWords words text) {c : Char}
    (hc : c ∈ text) : Text.isAsciiBlank c = true ∨ c.toUpper ∈ words.flatten := by
  induction hspells with
  | nil => exact absurd hc List.not_mem_nil
  | cons _ hgap htext _ ih =>
      rw [List.flatten_cons, List.mem_append, ← htext]
      rcases List.mem_append.mp hc with hc | hc
      · exact .inl (hgap c hc)
      · rcases List.mem_append.mp hc with hc | hc
        · exact .inr (.inl (List.mem_map_of_mem hc))
        · exact (ih hc).imp id .inr

/-- What writes a keyword are its letters, in any case if it is a phrase, and blanks. -/
theorem mem_of_spells (hspells : keyword.Spells text) {c : Char} (hc : c ∈ text) :
    Text.isAsciiBlank c = true ∨ c ∈ keyword.letters ∨ c.toUpper ∈ keyword.letters := by
  unfold Spells at hspells
  unfold letters
  split at hspells
  · rename_i symbol hform
    rw [hform]
    exact .inr (.inl (hspells ▸ hc))
  · rw [hspells] at hc
    exact absurd hc List.not_mem_nil
  · rename_i word words hform
    obtain ⟨first, rest, rfl, rfl, hrest⟩ := hspells
    rw [hform]
    simp only [List.flatten_cons, List.mem_append]
    rcases List.mem_append.mp hc with hc | hc
    · exact .inr (.inr (.inl (List.mem_map_of_mem hc)))
    · exact (mem_of_spellsWords hrest hc).imp id fun hmem => .inr (.inr hmem)

theorem IsFilled.ne_nil_of_spells (hfilled : keyword.IsFilled) (hspells : keyword.Spells text) :
    text ≠ [] := by
  rintro rfl
  unfold IsFilled at hfilled
  unfold Spells at hspells
  split at hspells
  · rename_i symbol hform
    rw [hform] at hfilled
    exact hfilled hspells.symm
  · rename_i hform
    rw [hform] at hfilled
    exact hfilled.1 rfl
  · rename_i word words hform
    obtain ⟨first, rest, hnil, rfl, -⟩ := hspells
    rw [hform] at hfilled
    obtain ⟨rfl, -⟩ := List.append_eq_nil_iff.mp hnil.symm
    exact (hfilled.2 [] List.mem_cons_self).1 rfl

theorem IsSearchable.ne_of_spells (hsearchable : keyword.IsSearchable)
    (hspells : keyword.Spells text) {c : Char} (hc : c ∈ text) : c ≠ '(' ∧ c ≠ ')' := by
  have hkept : ∀ d : Char, d = '(' ∨ d = ')' → Text.isAsciiBlank d = false ∧ d.toUpper = d := by
    rintro d (rfl | rfl) <;> decide
  have hno : ¬ (c = '(' ∨ c = ')') := by
    intro hparenthesis
    obtain ⟨hblank, hupper⟩ := hkept c hparenthesis
    have hmem : c ∈ keyword.letters := by
      rcases mem_of_spells hspells hc with hc | hc | hc
      · exact absurd (hblank.symm.trans hc) Bool.false_ne_true
      · exact hc
      · rwa [hupper] at hc
    obtain ⟨hopen, hclose⟩ := hsearchable.plain c hmem
    exact hparenthesis.elim hopen hclose
  exact not_or.mp hno

theorem matchAt?_go_passed (before : Option Char) (passed cells : List Cell) :
    matchAt?.go keyword before (passed ++ cells) (Text.size (Cell.text passed)) =
      (keyword.length? ((Cell.text passed).getLast?.or before) cells).map fun count =>
        Text.size (Cell.text (cells.take count)) := by
  induction passed generalizing before with
  | nil => cases cells <;> rfl
  | cons cell passed ih =>
      have hpos := cell.char.utf8Size_pos
      have htext : Cell.text (cell :: passed) = cell.char :: Cell.text passed := rfl
      obtain ⟨size, hsize⟩ := Nat.exists_eq_succ_of_ne_zero
        (Nat.ne_of_gt (Nat.add_pos_left hpos (Text.size (Cell.text passed))))
      rw [htext, Text.size_cons, Text.getLast?_cons_or, ← ih, hsize, List.cons_append,
        matchAt?.go, if_pos (by omega), ← Nat.succ_eq_add_one, ← hsize, Nat.add_sub_cancel_left]

/-- A keyword is matched behind some cells if it is found there. -/
theorem matchAt?_passed (hcells : text.cells = passed ++ cells) :
    keyword.matchAt? text (Text.size (Cell.text passed)) =
      (keyword.length? (Cell.text passed).getLast? cells).map fun count =>
        Text.size (Cell.text (cells.take count)) := by
  rw [matchAt?, hcells, matchAt?_go_passed, Option.or_none]

end Keyword

namespace Finder

variable {α : Type} {keywords : List (Keyword × α)} {text : Text} {passed cells : List Cell}

theorem keepsLevel_ofKeywords (hkeywords : ∀ entry ∈ keywords, entry.1.IsSearchable) :
    (ofKeywords keywords).KeepsLevel := by
  intro before cells label count hfound
  obtain ⟨keyword, mark, rest, hmem, hcells, hlength, -, hfits⟩ := exists_of_ofKeywords hfound
  have hsearchable := hkeywords _ hmem
  refine ⟨mark, rest, hcells, hlength, ?_, fun cell hcell => ?_⟩
  · rintro rfl
    exact hsearchable.filled.ne_nil_of_spells hfits.spells rfl
  · obtain ⟨hopen, hclose⟩ := hsearchable.ne_of_spells hfits.spells
      (List.mem_map_of_mem (f := Cell.char) hcell)
    simp [Cell.nesting, Cell.isCodeChar, hopen, hclose]

/-- Among keywords the first one that is matched behind some cells is found there. -/
theorem findSome?_matchAt? (hcells : text.cells = passed ++ cells) :
    keywords.findSome? (fun entry =>
        (entry.1.matchAt? text (Text.size (Cell.text passed))).map fun count =>
          (entry.2, Text.size (Cell.text passed) + count)) =
      (ofKeywords keywords (Cell.text passed).getLast? cells).map fun found =>
        (found.1, Text.size (Cell.text passed) + Text.size (Cell.text (cells.take found.2))) := by
  rw [ofKeywords, List.map_findSome?]
  refine congrArg (List.findSome? · keywords) (funext fun entry => ?_)
  rw [Keyword.matchAt?_passed hcells, Option.map_map, Function.comp_apply, Option.map_map]
  rfl

end Finder

/-! ## Searching from a cursor -/

namespace Cursor

variable {α : Type}

/-- The text ahead of a cursor, cut at marks.  Bytes left of a cut character are not part of
it. -/
def segment (find : Finder α) (cursor : Cursor) : Segmentation α :=
  .ofCells find cursor.ahead.before cursor.ahead.cells
    (cursor.absolute cursor.position + cursor.ahead.cut)

/-- The joins ahead of a cursor are found in this way. -/
theorem joins_eq (cursor : Cursor) : cursor.joins = cursor.segment JoinMark.finder := rfl

theorem map_found_segment (find : Finder α) (cursor : Cursor) :
    (cursor.segment find).tail.map Segment.found =
      Match.walk find 0 0 cursor.ahead.before
        (cursor.absolute cursor.position + cursor.ahead.cut) cursor.ahead.cells := by
  rw [Match.walk_eq]
  rfl

/-- The marks ahead of a place are found in a walk over what is behind some cells of the text.  The
places outside parentheses at which the walk looks are those of the bytes, counted from the place
on, and no other cells reach to it. -/
theorem exists_walks {find : Finder α} (hkeeps : find.KeepsLevel) (text : Text) (position : Nat) :
    ∃ passed ahead, text.cells = passed ++ ahead ∧
      Match.Walks find 0 (Cell.text passed).getLast? (Text.size (Cell.text passed)) ahead
        ((segment find { text, position }).tail.map Segment.found) ∧
      (∀ front cell back, ahead = front ++ cell :: back →
        (text.TopLevelAt position (Text.size (Cell.text passed) + Text.size (Cell.text front)) ↔
          Cell.depth front = 0 ∧ cell.isTopLevel 0 = true)) ∧
      ∀ front back, text.cells = front ++ back → position ≤ Text.size (Cell.text front) →
        ∃ gap, front = passed ++ gap := by
  obtain ⟨passed, hcells, hbefore, hsize, hsum, hfirst⟩ :=
    Ahead.exists_passed none text.cells position
  have htext : Cell.text text.cells = text := Mode.text_cells _ _
  rw [htext] at hsize
  have hpoints : (segment find { text, position }).tail.map Segment.found =
      Match.walk find 0 0 (Cell.text passed).getLast? (Text.size (Cell.text passed))
        (Ahead.seek none text.cells position).cells := by
    rw [← Option.or_none (o := (Cell.text passed).getLast?), ← hbefore, ← hsize,
      ← Nat.zero_add (min position text.size)]
    exact map_found_segment _ _
  refine ⟨passed, _, hcells, hpoints ▸ Match.walks hkeeps _ _ _ _, ?_, hfirst⟩
  intro front cell back hahead
  rw [hahead] at hcells
  refine Text.topLevelAt_iff hcells ?_ hsum
  -- There is a cell ahead, so the cursor is not behind the end.
  have hall := congrArg (fun cells => Text.size (Cell.text cells)) hcells
  have hpos := cell.char.utf8Size_pos
  have hsingle : Cell.text (cell :: back) = cell.char :: Cell.text back := rfl
  simp only [htext, Cell.text_append, Text.size_append, hsingle, Text.size_cons] at hall
  omega

/-- The keywords that are found ahead of a place are not empty and come one behind the other.
Each begins at a byte of code outside the parentheses that are opened from the place on, and is the
first of the list that is matched there.  Every such byte at which one is matched begins one that is
found, or is inside one. -/
theorem segment_exact (keywords : List (Keyword × α))
    (hkeywords : ∀ entry ∈ keywords, entry.1.IsSearchable) (text : Text) (position : Nat) :
    let points := (segment (.ofKeywords keywords) { text, position }).tail.map Segment.found
    (∀ point ∈ points, point.start < point.stop) ∧
      points.Pairwise (fun one other => one.stop ≤ other.start) ∧
      (∀ point ∈ points, text.TopLevelAt position point.start ∧
        keywords.findSome? (fun entry =>
          (entry.1.matchAt? text point.start).map fun count =>
            (entry.2, point.start + count)) = some (point.label, point.stop)) ∧
      ∀ place, text.TopLevelAt position place →
        (∃ entry ∈ keywords, (entry.1.matchAt? text place).isSome = true) →
          ∃ point ∈ points, point.start ≤ place ∧ place < point.stop := by
  intro points
  obtain ⟨passed, ahead, hcells, hwalks, htopLevel, hfirst⟩ :=
    exists_walks (Finder.keepsLevel_ofKeywords hkeywords) text position
  change Match.Walks _ _ _ _ _ points at hwalks
  obtain ⟨hbounds, hpairwise⟩ := hwalks.pairwise
  refine ⟨fun point hpoint => (hbounds point hpoint).2, hpairwise, ?_, ?_⟩
  · intro point hpoint
    obtain ⟨front, cell, back, count, rfl, hdepth, htop, hfound, hstart, hstop⟩ :=
      hwalks.exists_found hpoint
    rw [zero_add] at hdepth
    rw [hstart]
    refine ⟨(htopLevel _ _ _ rfl).mpr ⟨hdepth, htop⟩, ?_⟩
    rw [← List.append_assoc] at hcells
    have hmatch := @Finder.findSome?_matchAt? α keywords _ _ _ hcells
    rw [Cell.text_append, List.getLast?_append, hfound, Text.size_append] at hmatch
    rw [hmatch, Option.map_some, hstop, hstart]
  · rintro place htop ⟨entry, hentry, hmatch⟩
    obtain ⟨count, hcount⟩ := Option.isSome_iff_exists.mp hmatch
    have hfilled := (hkeywords entry hentry).filled
    obtain ⟨before, mark, rest, hparts, rfl, -, -, hfits⟩ :=
      hfilled.matchAt?_eq_some_iff.mp hcount
    obtain ⟨front, rfl⟩ := hfirst _ _ hparts htop.behind
    have hmark : mark ≠ [] := by
      rintro rfl
      exact hfilled.ne_nil_of_spells hfits.spells rfl
    obtain ⟨cell, mark, rfl⟩ := List.exists_cons_of_ne_nil hmark
    obtain rfl : ahead = front ++ cell :: (mark ++ rest) := by
      rw [hcells, List.append_assoc] at hparts
      exact List.append_cancel_left hparts
    rw [← List.append_assoc] at hcells
    rw [Keyword.matchAt?_passed hcells, Option.isSome_map, Cell.text_append,
      List.getLast?_append] at hmatch
    rw [Cell.text_append, Text.size_append] at htop ⊢
    obtain ⟨hdepth, hcell⟩ := (htopLevel _ _ _ rfl).mp htop
    refine hwalks.exists_point rfl (by rw [hdepth, zero_add]) hcell ?_
    rw [Finder.ofKeywords, List.findSome?_isSome_iff]
    exact ⟨entry, hentry, by rwa [Option.isSome_map]⟩

/-- From inside a character, behind a closed group: the longer of two phrases, with the word of the
shorter one inside it, and the longer of two symbols. -/
theorem segment_exact_overlaps :
    let keywords := [(Keyword.leftJoin, 0), (Keyword.join, 1), (Keyword.ofSymbol "<=", 2),
      (Keyword.ofSymbol "<", 3)]
    let text := "é(join) Left  Join<=')' < JOIN".toList
    let points := (segment (.ofKeywords keywords) { text, position := 1 }).tail.map Segment.found
    (∀ entry ∈ keywords, entry.1.IsSearchable) ∧
      points.map Match.label = [0, 2, 3, 1] ∧
      (∀ point ∈ points, point.start < point.stop) ∧
      (∀ point ∈ points, Text.TopLevelAt text 1 point.start) ∧
      ∃ point ∈ points, point.start ≤ 15 ∧ 15 < point.stop := by
  intro keywords text points
  have hkeywords : ∀ entry ∈ keywords, entry.1.IsSearchable := by
    have hsymbol : ∀ symbol, symbol = "<=" ∨ symbol = "<" →
        (Keyword.ofSymbol symbol).IsSearchable := by
      rintro symbol (rfl | rfl)
      · exact ⟨List.cons_ne_nil _ _, by simp [Keyword.letters, Keyword.ofSymbol]⟩
      · exact ⟨List.cons_ne_nil _ _, by simp [Keyword.letters, Keyword.ofSymbol]⟩
    simp only [keywords, List.forall_mem_cons]
    exact ⟨Keyword.isSearchable_of_isPhrase rfl, Keyword.isSearchable_of_isPhrase rfl,
      hsymbol "<=" (.inl rfl), hsymbol "<" (.inr rfl), List.forall_mem_nil _⟩
  obtain ⟨hbounds, -, hexact, hcomplete⟩ := segment_exact keywords hkeywords text 1
  have htop : Text.TopLevelAt text 1 15 :=
    ⟨by decide, by decide +kernel, by decide +kernel, by decide +kernel⟩
  have hmatch : (Keyword.join.matchAt? text 15).isSome = true := by decide +kernel
  refine ⟨hkeywords, by decide +kernel, hbounds, fun point hpoint => (hexact point hpoint).1, ?_⟩
  exact hcomplete 15 htop ⟨(.join, 1), by simp [keywords], hmatch⟩

end Cursor

end SelectForm

import Mathlib
import SelectForm.Proofs.Lexis.SplitScan
import SelectForm.Proofs.Statement.KeywordSearch
import SelectForm.Proofs.Statement.SettledCondition

/-!
# Groups in parentheses

A text is one group if a parenthesis of code opens it and the partner of this parenthesis ends it.
The bytes of code tell where the partner stands: it is the first byte at which as many groups are
closed as were opened.  The walk that opens a group counts the inner groups only, and stops at the
same place.
-/

namespace SelectForm

/-! ## The partner of a parenthesis -/

namespace Text

/-- The first byte behind another one at which the parentheses of code, counted from that one on,
are balanced. -/
structure BalancesAt (text : Text) (first place : Nat) : Prop where
  behind : first < place
  level : text.nestingBetween first (place + 1) = 0
  earliest : ∀ other, first < other → other < place → text.nestingBetween first (other + 1) ≠ 0

/-- The bytes from the first to the last, which is not one of them, are a group: a parenthesis
opens it and its partner ends it. -/
structure IsGroup (text : Text) (first last : Nat) : Prop where
  wide : 2 ≤ last - first
  opens : text.byteAt? first = some 0x28
  closes : text.BalancesAt first (last - 1)

end Text

namespace Cell

variable {cell : Cell} {cells cells' : List Cell}

theorem nestings_cons (cell : Cell) (cells : List Cell) :
    nestings (cell :: cells) = nestings [cell] ++ nestings cells :=
  nestings_append [cell] cells

/-- Inside a character nothing is opened or closed yet, or the character has one byte. -/
theorem sum_take_nestings_cons {count : Nat} (hcount : 0 < count) :
    ((nestings (cell :: cells)).take count).sum =
      cell.nesting + ((nestings cells).take (count - cell.char.utf8Size)).sum := by
  have hlength : (nestings [cell]).length = cell.char.utf8Size := length_nestings [cell]
  rw [nestings_cons, List.take_append, hlength, List.sum_append]
  congr 1
  by_cases hascii : cell.char.toNat < 0x80
  · rw [nestings_ascii hascii, List.take_of_length_le hcount, List.sum_singleton]
  · have hwide := nestings_wide (Nat.le_of_not_lt hascii)
    rw [List.sum_eq_zero fun change hmem => hwide change (List.mem_of_mem_take hmem),
      ← sum_nestings_singleton, List.sum_eq_zero hwide]

theorem nestings_congr (hfaces : cells.map face = cells'.map face) :
    nestings cells = nestings cells' := by
  rw [nestings, nestings, text_of_faces hfaces, mask_congr hfaces]

end Cell

namespace Fragment

/-- The count of a walk that goes on inside a group, one character on. -/
theorem returns_cons {depth behind : Nat} {cell : Cell} {cells : List Cell}
    (hbehind : (behind : Int) = depth + cell.nesting) :
    ((behind + 1 + (Cell.nestings cells).sum : Int) = 0 ∧
        ∀ count, 0 < count → count < Text.size (Cell.text cells) →
          (behind + 1 + ((Cell.nestings cells).take count).sum : Int) ≠ 0) ↔
      (depth + 1 + (Cell.nestings (cell :: cells)).sum : Int) = 0 ∧
        ∀ count, 0 < count → count < Text.size (Cell.text (cell :: cells)) →
          (depth + 1 + ((Cell.nestings (cell :: cells)).take count).sum : Int) ≠ 0 := by
  have hsize : Text.size (Cell.text (cell :: cells)) =
      cell.char.utf8Size + Text.size (Cell.text cells) := rfl
  have hpos := cell.char.utf8Size_pos
  rw [hsize, Cell.nestings_cons, List.sum_append, Cell.sum_nestings_singleton]
  constructor
  · rintro ⟨hlevel, hearlier⟩
    refine ⟨by omega, fun count hcount hless => ?_⟩
    rw [← Cell.nestings_cons, Cell.sum_take_nestings_cons hcount]
    by_cases hinside : count ≤ cell.char.utf8Size
    · rw [Nat.sub_eq_zero_of_le hinside, List.take_zero, List.sum_nil]
      omega
    · have hrest := hearlier (count - cell.char.utf8Size) (by omega) (by omega)
      omega
  · rintro ⟨hlevel, hearlier⟩
    refine ⟨by omega, fun count hcount hless => ?_⟩
    have hwhole := hearlier (count + cell.char.utf8Size) (by omega) (by omega)
    rw [← Cell.nestings_cons, Cell.sum_take_nestings_cons (by omega), Nat.add_sub_cancel] at hwhole
    omega

/-- The walk from inside a group reaches its end if the count of the bytes comes back to the level
in front of the group there, and not before. -/
theorem closesAtEnd_iff {depth : Nat} {cells : List Cell} :
    closesAtEnd depth cells = true ↔
      (depth + 1 + (Cell.nestings cells).sum : Int) = 0 ∧
        ∀ count, 0 < count → count < Text.size (Cell.text cells) →
          (depth + 1 + ((Cell.nestings cells).take count).sum : Int) ≠ 0 := by
  induction cells generalizing depth with
  | nil =>
      have hlevel : (depth + 1 + (Cell.nestings []).sum : Int) ≠ 0 := by
        have hnil : (Cell.nestings []).sum = 0 := rfl
        omega
      simp [closesAtEnd, hlevel]
  | cons cell cells ih =>
      rw [closesAtEnd_cons]
      by_cases hopen : cell.isCodeChar '(' = true
      · rw [if_pos hopen, ih]
        exact returns_cons (by rw [Cell.nesting, if_pos hopen]; rfl)
      rw [if_neg hopen]
      by_cases hclose : cell.isCodeChar ')' = true
      · have hnesting : cell.nesting = -1 := by rw [Cell.nesting, if_neg hopen, if_pos hclose]
        rw [if_pos hclose]
        cases depth with
        | succ depth =>
            rw [ih]
            exact returns_cons (by rw [hnesting]; omega)
        | zero =>
            -- The group ends here, so the text must end here too.
            have hpos := cell.char.utf8Size_pos
            cases cells with
            | nil =>
                refine iff_of_true rfl ⟨?_, fun count hcount hless => ?_⟩
                · rw [Cell.sum_nestings_singleton, hnesting]
                  rfl
                · have hascii : cell.char.utf8Size = 1 := by
                    simp only [Cell.isCodeChar, Bool.and_eq_true, beq_iff_eq] at hclose
                    rw [hclose.2]
                    rfl
                  have hsize : Text.size (Cell.text [cell]) = cell.char.utf8Size := rfl
                  omega
            | cons next cells =>
                refine iff_of_false Bool.false_ne_true fun hreturns => ?_
                have hnext := next.char.utf8Size_pos
                have hsize : Text.size (Cell.text (cell :: next :: cells)) = cell.char.utf8Size +
                    (next.char.utf8Size + Text.size (Cell.text cells)) := rfl
                apply hreturns.2 cell.char.utf8Size hpos (by omega)
                rw [Cell.sum_take_nestings_cons hpos, Nat.sub_self, hnesting]
                rfl
      · rw [if_neg hclose, ih]
        exact returns_cons (by rw [Cell.nesting, if_neg hopen, if_neg hclose]; omega)

/-- What is behind a group is no part of it. -/
theorem closesAtEnd_append_of_closes {depth : Nat} {cells back : List Cell}
    (hcloses : closesAtEnd depth cells = true) (hback : back ≠ []) :
    closesAtEnd depth (cells ++ back) = false := by
  obtain ⟨front, last, rfl, -⟩ := exists_of_closesAtEnd hcloses
  obtain ⟨next, back, rfl⟩ := List.exists_cons_of_ne_nil hback
  rw [closesAtEnd_iff] at hcloses
  rw [Bool.eq_false_iff, Ne, closesAtEnd_iff]
  rintro ⟨-, hearlier⟩
  have hlast := last.char.utf8Size_pos
  have hnext := next.char.utf8Size_pos
  have hsize : Text.size (Cell.text (front ++ [last])) =
      Text.size (Cell.text front) + last.char.utf8Size := by
    rw [Cell.text_append, Text.size_append]
    rfl
  have hwhole : Text.size (Cell.text (front ++ [last] ++ next :: back)) =
      Text.size (Cell.text (front ++ [last])) +
        (next.char.utf8Size + Text.size (Cell.text back)) := by
    rw [Cell.text_append, Text.size_append]
    rfl
  apply hearlier (Text.size (Cell.text (front ++ [last]))) (by omega) (by omega)
  rw [Cell.nestings_append, List.take_left' (Cell.length_nestings _)]
  exact hcloses.1

end Fragment

/-! ## Groups of a text -/

/-- Behind a closing parenthesis of code more code is read. -/
theorem Mode.cells_append_closing {mode : Mode} {front : Text}
    (hclose : ∃ cells cell, mode.cells (front ++ [')']) = cells ++ [cell] ∧ cell.isCode = true)
    (back : Text) :
    mode.cells (front ++ ')' :: back) = mode.cells (front ++ [')']) ++ code.cells back := by
  have hsplit : ∀ back, mode.cells (front ++ ')' :: back) =
      (mode.run (some ')') front).1 ++ (mode.run (some ')') front).2.cells (')' :: back) := by
    intro back
    have hrun := congrArg Prod.fst (run_append none mode front (')' :: back))
    rwa [run_none, List.head?_cons, Option.some_or, run_none] at hrun
  obtain ⟨cells, cell, hcells, hcode⟩ := hclose
  rw [hsplit] at hcells
  obtain ⟨-, hcell⟩ := List.append_inj' hcells rfl
  have hstep : ((mode.run (some ')') front).2.step ')' none).1.isCode = true := by
    rw [← hcode, ← (List.cons.inj hcell).1]
    rfl
  rw [hsplit, hsplit, List.append_assoc]
  congr 1
  rcases (step_code (by decide) (by decide) hstep).1 with hmode | hmode <;> rw [hmode] <;> rfl

namespace Text

variable {text : Text}

/-- The nesting of some bytes of a text among the cells of the text. -/
theorem nestingBetween_of_cells {front cells back : List Cell} {count : Nat}
    (hcells : text.cells = front ++ (cells ++ back)) (hcount : count ≤ size (Cell.text cells)) :
    text.nestingBetween (size (Cell.text front)) (size (Cell.text front) + count) =
      ((Cell.nestings cells).take count).sum := by
  rw [nestingBetween, nestings_eq, hcells, Cell.nestings_append, Cell.nestings_append,
    ← Cell.length_nestings front, List.take_length_add_append, List.drop_left,
    List.take_append_of_le_length (by rwa [Cell.length_nestings])]

theorem cells_parenthesis (rest : Text) :
    cells ('(' :: rest) = ⟨'(', .code, true⟩ :: Mode.code.cells rest := rfl

/-- The cells of a text hold those of the text without the blanks around it. -/
theorem exists_trimmed (text : Text) : ∃ blanks cells back,
    text.cells = blanks ++ (cells ++ back) ∧ Cell.text blanks = leading text ∧
      cells.map Cell.face = (trim text).cells.map Cell.face := by
  have hparts := @Mode.exists_trimmed .between [] (.inl rfl) text (by simp)
  rwa [List.append_nil] at hparts

/-- The bytes of a text without the blanks around it nest as they do in the text. -/
theorem nestingBetween_trim (text : Text) {count : Nat} (hcount : count ≤ size (trim text)) :
    text.nestingBetween (size (leading text)) (size (leading text) + count) =
      ((Cell.nestings (trim text).cells).take count).sum := by
  obtain ⟨blanks, cells, back, hcells, hblanks, hfaces⟩ := exists_trimmed text
  have htrim : Cell.text cells = trim text :=
    (Cell.text_of_faces hfaces).trans (Mode.text_cells _ _)
  rw [← hblanks, nestingBetween_of_cells hcells (htrim ▸ hcount), Cell.nestings_congr hfaces]

/-- The parenthesis that opens a text has its partner at the end of the text if the walk from
behind it reaches the end. -/
theorem balancesAt_iff {rest : Text} (htrim : trim text = '(' :: rest) :
    text.BalancesAt (size (leading text)) (size (leading text) + size rest) ↔
      Fragment.closesAtEnd 0 (Mode.code.cells rest) = true := by
  have htexts : Cell.text (Mode.code.cells rest) = rest := Mode.text_cells _ _
  have hlevel : ∀ count ≤ size rest,
      text.nestingBetween (size (leading text)) (size (leading text) + count + 1) =
        1 + ((Cell.nestings (Mode.code.cells rest)).take count).sum := by
    intro count hcount
    have hsize : size (trim text) = 1 + size rest := by
      rw [htrim]
      rfl
    rw [Nat.add_assoc, nestingBetween_trim text (by omega), htrim, cells_parenthesis,
      Cell.sum_take_nestings_cons (Nat.succ_pos count)]
    rfl
  have hall : ((Cell.nestings (Mode.code.cells rest)).take (size rest)).sum =
      (Cell.nestings (Mode.code.cells rest)).sum := by
    rw [List.take_of_length_le (by rw [Cell.length_nestings, htexts])]
  rw [Fragment.closesAtEnd_iff, htexts]
  constructor
  · rintro ⟨-, hbalance, hearlier⟩
    rw [hlevel _ le_rfl, hall] at hbalance
    refine ⟨by omega, fun count hcount hless => ?_⟩
    have hother := hearlier (size (leading text) + count) (by omega) (by omega)
    rw [hlevel count (by omega)] at hother
    omega
  · rintro ⟨hbalance, hearlier⟩
    refine ⟨?_, ?_, fun other hfirst hlast => ?_⟩
    · cases rest with
      | nil =>
          have hnil : (Cell.nestings (Mode.code.cells [])).sum = 0 := rfl
          omega
      | cons d rest =>
          have hd := d.utf8Size_pos
          rw [size_cons]
          omega
    · rw [hlevel _ le_rfl, hall]
      omega
    · obtain ⟨count, rfl⟩ := Nat.exists_eq_add_of_le (Nat.le_of_lt hfirst)
      rw [hlevel count (by omega)]
      have hother := hearlier count (by omega) (by omega)
      omega

/-- A text is a group, up to blanks around it, if the walk from behind its first parenthesis reaches
its end. -/
theorem isGroup_iff (text : Text) :
    text.IsGroup (size (leading text)) (size (leading text) + size (trim text)) ↔
      ∃ rest, trim text = '(' :: rest ∧
        Fragment.closesAtEnd 0 (Mode.code.cells rest) = true := by
  obtain ⟨trail, htext, -⟩ := Fragment.exists_trail text
  have hopens := byteAt?_size (leading text) (trim text ++ trail)
  rw [← htext] at hopens
  constructor
  · rintro ⟨hwide, hbyte, hcloses⟩
    cases htrim : trim text with
    | nil =>
        rw [htrim, size_nil] at hwide
        omega
    | cons c rest =>
        rw [htrim, hbyte, List.cons_append] at hopens
        obtain rfl : c = '(' :=
          Option.some.inj ((head?_bytes_iff (c := '(') (by decide)).mp hopens.symm)
        have hplace : size (leading text) + size (trim text) - 1 =
            size (leading text) + size rest := by
          have hsize : size ('(' :: rest) = 1 + size rest := rfl
          rw [htrim]
          omega
        rw [hplace, balancesAt_iff htrim] at hcloses
        exact ⟨rest, rfl, hcloses⟩
  · rintro ⟨rest, htrim, hcloses⟩
    rw [← balancesAt_iff htrim] at hcloses
    have hsize : size (trim text) = 1 + size rest := by
      rw [htrim]
      rfl
    have hplace : size (leading text) + size (trim text) - 1 =
        size (leading text) + size rest := by omega
    have hbehind := hcloses.behind
    refine ⟨by omega, ?_, hplace ▸ hcloses⟩
    rw [hopens, htrim, List.cons_append]
    rfl

end Text

namespace Fragment

variable {fragment inner : Fragment}

theorem inside?_of_trim {rest : Text} (htrim : Text.trim fragment.text = '(' :: rest) :
    fragment.inside? = if closesAtEnd 0 (Mode.code.cells rest) then
      some ⟨rest.dropLast, fragment.trim.start + 1⟩ else none := by
  have hcells : fragment.trim.text.cells = ⟨'(', .code, true⟩ :: Mode.code.cells rest := by
    rw [← Text.cells_parenthesis, ← htrim]
    rfl
  have hrest : Cell.text (Mode.code.cells rest) = rest := Mode.text_cells _ _
  rw [inside?, hcells]
  dsimp only
  rw [hrest]
  rfl

/-- The walk that opens a group opens what the bytes say to be one, and nothing else. -/
theorem isSome_inside?_iff (text : Text) (start : Nat) :
    (mk text start).inside?.isSome = true ↔
      text.IsGroup (Text.size (Text.leading text))
        (Text.size (Text.leading text) + Text.size (Text.trim text)) := by
  rw [Text.isGroup_iff]
  constructor
  · intro hsome
    obtain ⟨inner, hinside⟩ := Option.isSome_iff_exists.mp hsome
    have htrim := trim_of_inside? hinside
    rw [inside?_of_trim htrim, Option.ite_none_right_eq_some] at hinside
    exact ⟨_, htrim, hinside.1⟩
  · rintro ⟨rest, htrim, hcloses⟩
    rw [inside?_of_trim htrim, if_pos hcloses]
    rfl

/-- The byte behind the inside of a group is the parenthesis. -/
theorem byteAt?_of_trim {text inside : Text} (htrim : Text.trim text = '(' :: (inside ++ [')'])) :
    text.byteAt? (Text.size (Text.leading text) + 1 + Text.size inside) = some 0x29 := by
  obtain ⟨trail, htext, -⟩ := exists_trail text
  have hbyte := Text.byteAt?_size (Text.leading text ++ '(' :: inside) (')' :: trail)
  have hwhole : Text.leading text ++ '(' :: inside ++ ')' :: trail = text := by
    conv_rhs => rw [htext, htrim]
    simp
  have hplace : Text.size (Text.leading text ++ '(' :: inside) =
      Text.size (Text.leading text) + 1 + Text.size inside := by
    rw [Text.size_append, Nat.add_assoc]
    rfl
  rw [hwhole, hplace] at hbyte
  rw [hbyte]
  rfl

/-- The last cell of the walk is the partner of the parenthesis that opens a group. -/
theorem codeMask_of_trim {text inside : Text} (htrim : Text.trim text = '(' :: (inside ++ [')']))
    (hcloses : closesAtEnd 0 (Mode.code.cells (inside ++ [')'])) = true) :
    text.codeMask[Text.size (Text.leading text) + 1 + Text.size inside]? = some true := by
  obtain ⟨blanks, cells, back, hcells, hblanks, hfaces⟩ := Text.exists_trimmed text
  obtain ⟨front, cell, hwalk, hcell⟩ := exists_of_closesAtEnd hcloses
  rw [htrim, Text.cells_parenthesis, hwalk, ← List.cons_append, List.map_append] at hfaces
  obtain ⟨front', others, rfl, hfrontFaces, hothers⟩ := List.map_eq_append_iff.mp hfaces
  obtain ⟨cell', rest, rfl, hcellFace, -⟩ := List.map_eq_cons_iff.mp hothers
  have hread := congrArg Cell.text hwalk
  rw [Mode.text_cells, Cell.text_append] at hread
  have hfrontText : Cell.text front' = '(' :: inside :=
    (Cell.text_of_faces hfrontFaces).trans
      (congrArg ('(' :: ·) (List.append_inj' hread rfl).1.symm)
  have hplace : Text.size (Text.leading text) + 1 + Text.size inside =
      Text.size (Cell.text (blanks ++ front')) := by
    rw [Cell.text_append, Text.size_append, hblanks, hfrontText, Nat.add_assoc]
    rfl
  have hmask : text.codeMask = Cell.mask (blanks ++ front' ++ cell' :: (rest ++ back)) := by
    rw [List.append_assoc, ← List.cons_append, ← List.append_assoc front', ← hcells]
    rfl
  rw [hmask, hplace, Cell.getElem?_mask]
  have hkind : cell'.kind = cell.kind := (Prod.mk.inj hcellFace).2
  rw [Cell.isCodeChar, Bool.and_eq_true] at hcell
  rw [Cell.isCode, hkind]
  exact congrArg some hcell.1

/-- The inside of a group is the text between its parentheses. -/
theorem range_of_inside? {text : Text} {start : Nat}
    (hinside : (mk text start).inside? = some inner) :
    let first := Text.size (Text.leading text)
    let last := first + Text.size (Text.trim text)
    inner.range = (start + (first + 1), start + (last - 1)) ∧
      inner.text = text.slice (first + 1) (last - 1) ∧ text.codeMask[last - 1]? = some true ∧
      text.byteAt? (last - 1) = some 0x29 := by
  intro first last
  have htrim : Text.trim text = '(' :: (inner.text ++ [')']) := trim_of_inside? hinside
  rw [inside?_of_trim htrim, Option.ite_none_right_eq_some, Option.some.injEq] at hinside
  obtain ⟨hcloses, hinner⟩ := hinside
  have hstart : inner.start = start + (first + 1) := (congrArg Fragment.start hinner).symm
  have hlast : last - 1 = first + 1 + Text.size inner.text := by
    have hsize := congrArg Text.size htrim
    have hends : '('.utf8Size = 1 ∧ ')'.utf8Size = 1 := ⟨rfl, rfl⟩
    simp only [Text.size_cons, Text.size_append, Text.size_nil, hends] at hsize
    omega
  rw [hlast]
  refine ⟨?_, ?_, codeMask_of_trim htrim hcloses, byteAt?_of_trim htrim⟩
  · rw [range, stop, hstart]
    simp only [Prod.mk.injEq, true_and]
    omega
  · have hfront : first + 1 = Text.size (Text.leading text ++ ['(']) := by
      rw [Text.size_append]
      rfl
    obtain ⟨trail, htext, -⟩ := exists_trail text
    have hslice := Text.slice_append (Text.leading text ++ ['(']) inner.text (')' :: trail)
    have hwhole : Text.leading text ++ ['('] ++ (inner.text ++ ')' :: trail) = text := by
      conv_rhs => rw [htext, htrim]
      simp
    rw [hwhole] at hslice
    rw [hfront]
    exact hslice.symm

/-- A text that goes on behind a group is no group. -/
theorem inside?_append {text rest : Text} {start : Nat}
    (hgroup : (mk text start).inside?.isSome = true) (hrest : Text.trim rest ≠ []) :
    (mk (text ++ rest) start).inside? = none := by
  obtain ⟨inner, hinside⟩ := Option.isSome_iff_exists.mp hgroup
  have htrim : Text.trim text = '(' :: (inner.text ++ [')']) := trim_of_inside? hinside
  rw [inside?_of_trim htrim, Option.ite_none_right_eq_some] at hinside
  obtain ⟨hcloses, -⟩ := hinside
  obtain ⟨trail, htext, htrail⟩ := exists_trail text
  obtain ⟨behind, hbehind, hblank⟩ := exists_trail rest
  have hne : Text.trim text ≠ [] := htrim ▸ List.cons_ne_nil _ _
  have hpadded := @Text.trim_padded (Text.leading text) _ behind
    (fun c hc => List.mem_takeWhile_imp hc) hblank
    ((Text.tight_trim hne).append (trail ++ Text.leading rest) (Text.tight_trim hrest))
  have hwhole : Text.trim (text ++ rest) =
      '(' :: (inner.text ++ ')' :: (trail ++ Text.leading rest ++ Text.trim rest)) := by
    conv_lhs => rw [htext, hbehind]
    rw [htrim] at hpadded ⊢
    simpa using hpadded
  obtain ⟨front, last, hwalk, hlast⟩ := exists_of_closesAtEnd hcloses
  rw [Cell.isCodeChar, Bool.and_eq_true] at hlast
  have hcells := Mode.cells_append_closing ⟨front, last, hwalk, hlast.1⟩
    (trail ++ Text.leading rest ++ Text.trim rest)
  have hmore : Mode.code.cells (trail ++ Text.leading rest ++ Text.trim rest) ≠ [] := by
    intro hnil
    have hread := congrArg Cell.text hnil
    rw [Mode.text_cells] at hread
    exact hrest (List.append_eq_nil_iff.mp hread).2
  rw [inside?_of_trim hwhole, hcells, closesAtEnd_append_of_closes hcloses hmore]
  rfl

/-- A text is opened as a group if and only if a parenthesis of code and its partner are its ends, up to
blanks around it.  What is opened is the text between the two.  The partner is code, so a parenthesis
in a literal or a comment closes nothing, and a group with more text behind it is no group. -/
theorem inside?_iff_isGroup (text : Text) (start : Nat) :
    let first := Text.size (Text.leading text)
    let last := first + Text.size (Text.trim text)
    ((mk text start).inside?.map range = some (start + (first + 1), start + (last - 1)) ↔
        text.IsGroup first last) ∧
      ((mk text start).inside? = none ↔ ¬ text.IsGroup first last) ∧
      (∀ inner, (mk text start).inside? = some inner →
        inner.text = text.slice (first + 1) (last - 1)) ∧
      (text.IsGroup first last →
        text.codeMask[last - 1]? = some true ∧ text.byteAt? (last - 1) = some 0x29) ∧
      (text.IsGroup first last → ∀ rest, Text.trim rest ≠ [] →
        (mk (text ++ rest) start).inside? = none) := by
  intro first last
  have hiff := isSome_inside?_iff text start
  refine ⟨?_, ?_, fun inner hinside => (range_of_inside? hinside).2.1, fun hgroup => ?_,
    fun hgroup rest hrest => inside?_append (hiff.mpr hgroup) hrest⟩
  · rw [← hiff, Option.map_eq_some_iff]
    constructor
    · rintro ⟨inner, hinside, -⟩
      rw [hinside]
      rfl
    · intro hsome
      obtain ⟨inner, hinside⟩ := Option.isSome_iff_exists.mp hsome
      exact ⟨inner, hinside, (range_of_inside? hinside).1⟩
  · rw [← hiff, Bool.not_eq_true, Option.isSome_eq_false_iff, Option.isNone_iff_eq_none]
  · obtain ⟨inner, hinside⟩ := Option.isSome_iff_exists.mp (hiff.mpr hgroup)
    exact (range_of_inside? hinside).2.2

/-- The parentheses in the literal and in the comment do not count, and two groups side by side
make none. -/
theorem inside?_iff_isGroup_hidden :
    let text : Text := "\u2003(a = ')é' /*)*/ OR (b))\n".toList
    (mk text 5).inside?.map range = some (9, 31) ∧ text.IsGroup 3 27 ∧
      text.codeMask[26]? = some true ∧
      (mk (text ++ " AND (y)".toList) 5).inside? = none ∧
      (∃ inner, (mk text 5).inside? = some inner ∧ inner.text = text.slice 4 26) ∧
      ¬ Text.IsGroup "(x) AND (y)".toList 0 11 := by
  intro text
  obtain ⟨hsome, -, hslice, hcode, hbehind⟩ := inside?_iff_isGroup text 5
  have hinside : (mk text 5).inside?.map range = some (9, 31) := by decide +kernel
  have hgroup : text.IsGroup 3 27 := hsome.mp hinside
  obtain ⟨inner, hinner, -⟩ := Option.map_eq_some_iff.mp hinside
  exact ⟨hinside, hgroup, (hcode hgroup).1, hbehind hgroup _ (by decide),
    ⟨inner, hinner, hslice inner hinner⟩,
    (inside?_iff_isGroup "(x) AND (y)".toList 0).2.1.mp (by decide +kernel)⟩

end Fragment

end SelectForm

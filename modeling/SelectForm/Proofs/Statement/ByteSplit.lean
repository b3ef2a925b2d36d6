import Mathlib
import SelectForm.Proofs.Statement.ByteSearch
import SelectForm.Proofs.Statement.EnclosedGroup

/-!
# Splitting byte by byte

Chains, lists and groups can be taken apart by cutting their text at the offsets of the marks in it.
A piece is cut out first with the blanks around it and then without them.  Every cut falls between
two characters, and the pieces are the parts that the marks leave between them.
-/

namespace SelectForm

/-! ## Cutting a fragment -/

namespace Text

variable {front back front' back' : Text}

/-- Of two texts at the front of one, the shorter is at the front of the longer. -/
theorem exists_gap_of_size_le (htext : front ++ back = front' ++ back')
    (hsize : size front ≤ size front') : ∃ gap, front' = front ++ gap ∧ back = gap ++ back' := by
  obtain ⟨gap, rfl, rfl⟩ | ⟨gap, rfl, rfl⟩ := List.append_eq_append_iff.mp htext
  · exact ⟨gap, rfl, rfl⟩
  · cases gap with
    | nil => exact ⟨[], by simp, by simp⟩
    | cons c gap =>
        have hc := c.utf8Size_pos
        rw [size_append, size_cons] at hsize
        omega

end Text

namespace Fragment

variable {whole : Text} {fragment part : Fragment}

/-- The part of a fragment between two offsets of the whole statement. -/
def between? (fragment : Fragment) (first last : Nat) : Option Fragment :=
  if fragment.start ≤ first then
    (fragment.text.cut? (first - fragment.start) (last - fragment.start)).map (⟨·, first⟩)
  else
    none

theorem LiesIn.between?_eq (hfragment : fragment.LiesIn whole) (hpart : part.LiesIn whole)
    (hstart : fragment.start ≤ part.start) (hstop : part.stop ≤ fragment.stop) :
    fragment.between? part.start part.stop = some part := by
  obtain ⟨before, behind, rfl, hbefore⟩ := hfragment
  obtain ⟨before', behind', hwhole, hbefore'⟩ := hpart
  obtain ⟨gap, rfl, hrest⟩ := Text.exists_gap_of_size_le hwhole (by omega)
  rw [Text.size_append] at hbefore'
  rw [← List.append_assoc] at hrest
  rw [stop, stop] at hstop
  obtain ⟨rest, htext, -⟩ := Text.exists_gap_of_size_le hrest.symm (by
    rw [Text.size_append]
    omega)
  have hcut := Text.cut?_append gap part.text rest
  rw [← List.append_assoc, ← htext] at hcut
  have hfirst : part.start - fragment.start = Text.size gap := by omega
  have hlast : part.stop - fragment.start = Text.size gap + Text.size part.text := by
    rw [stop]
    omega
  rw [between?, if_pos hstart, hfirst, hlast, hcut]
  rfl

/-- There is a text in which a fragment lies. -/
theorem exists_liesIn (fragment : Fragment) : ∃ whole, fragment.LiesIn whole := by
  have hblanks : ∀ count, Text.size (List.replicate count ' ') = count := by
    intro count
    induction count with
    | zero => rfl
    | succ count ih =>
        have hsize : ' '.utf8Size = 1 := rfl
        rw [List.replicate_succ, Text.size_cons, ih, hsize, Nat.add_comm]
  exact ⟨List.replicate fragment.start ' ' ++ fragment.text, List.replicate fragment.start ' ', [],
    by rw [List.append_nil], (hblanks _).symm⟩

theorem between?_drop (fragment : Fragment) (count : Nat) :
    fragment.between? (fragment.start + Text.size (fragment.text.take count)) fragment.stop =
      some (fragment.drop count) := by
  obtain ⟨whole, hfragment⟩ := fragment.exists_liesIn
  have hstop : (fragment.drop count).stop = fragment.stop := by
    rw [stop, stop, drop, Nat.add_assoc, ← Text.size_append, List.take_append_drop]
  rw [← hstop]
  exact hfragment.between?_eq (hfragment.drop count) (Nat.le_add_right _ _) hstop.le

end Fragment

theorem Segment.size_textOf_cons {α : Type} (segment : Segment α) (rest : List (Segment α)) :
    Text.size (Cut.textOf ((segment :: rest).map Segment.cut)) =
      Text.size segment.mark.text +
        (Text.size segment.body.text + Text.size (Cut.textOf (rest.map Segment.cut))) := by
  simp [Cut.textOf, Segment.cut]

namespace Bytewise

/-! ## Pieces -/

/-- The part of a fragment between two offsets, without the blanks around it. -/
def trimmed (fragment : Fragment) (first last : Nat) : Option Fragment := do
  let raw ← fragment.between? first last
  let start := first + Text.size (Text.leading raw.text)
  fragment.between? start (start + Text.size (Text.trim raw.text))

/-- The part of a fragment from an offset up to the first of some marks, or else to its end. -/
def upTo {α : Type} (fragment : Fragment) (first : Nat) (found : List (Match α)) :
    Option Fragment :=
  fragment.between? first (found.head?.elim fragment.stop Match.start)

/-- The marks of a fragment, each with what is behind it up to the next one. -/
def segments {α : Type} (fragment : Fragment) : List (Match α) → Option (List (Segment α))
  | [] => some []
  | found :: others => do
    let mark ← fragment.between? found.start found.stop
    let body ← upTo fragment found.stop others
    let behind ← segments fragment others
    some (⟨found.label, mark, body⟩ :: behind)

/-- The parts of a chain from an offset on. -/
def closeParts (fragment : Fragment) (pending : Bool) (connector : Option Connector)
    (first : Nat) : List (Match ChainMark) → Option (List ChainPart)
  | [] => (trimmed fragment first fragment.stop).map fun expression => [⟨connector, expression⟩]
  | mark :: rest =>
    match mark.label with
    | .between => closeParts fragment true connector first rest
    | .connector next =>
      if next = .and ∧ pending = true then
        closeParts fragment false connector first rest
      else do
        let expression ← trimmed fragment first mark.start
        let others ← closeParts fragment false (some next) mark.stop rest
        some (⟨connector, expression⟩ :: others)

/-- The parts of a chain of conditions between the given connectors. -/
def splitChain (connectors : List Connector) (fragment : Fragment) :
    Option (List ChainPart) := do
  let found ← marks (ChainMark.entries connectors) fragment
  closeParts fragment false none fragment.start found

/-- The items of a list from an offset on. -/
def closeItems (fragment : Fragment) (first : Nat) : List (Match Unit) → Option (List Fragment)
  | [] => (trimmed fragment first fragment.stop).map ([·])
  | mark :: rest => do
    let item ← trimmed fragment first mark.start
    let others ← closeItems fragment mark.stop rest
    some (item :: others)

/-- The items of a list between its commas. -/
def splitList (fragment : Fragment) : Option (List Fragment) := do
  let found ← commas fragment
  closeItems fragment fragment.start found

/-- The first of some keywords in a fragment, with all that is before and behind it. -/
def splitFirst {α : Type} (keywords : List (Keyword × α)) (fragment : Fragment) :
    Option (Option (Fragment.Split α)) := do
  match ← marks keywords fragment with
  | [] => some none
  | found :: _ => do
    let before ← fragment.between? fragment.start found.start
    let mark ← fragment.between? found.start found.stop
    let after ← fragment.between? found.stop fragment.stop
    some (some ⟨found.label, before, mark, after⟩)

/-- Whether the group that is open at a byte is closed by the last byte in front of `stop`. -/
def closesAt (text : Text) (mask : List Bool) (stop : Nat) (depth : Int) (place : Nat) :
    Option Bool :=
  if place < stop then do
    let code ← mask[place]?
    if code then
      let byte ← text.byteAt? place
      if byte = 0x28 then
        closesAt text mask stop (depth + 1) (place + 1)
      else if byte = 0x29 then
        if depth = 1 then
          some (place + 1 == stop)
        else
          closesAt text mask stop (depth - 1) (place + 1)
      else
        closesAt text mask stop depth (place + 1)
    else
      closesAt text mask stop depth (place + 1)
  else
    some false
termination_by stop - place

/-- The inside of a fragment that is one group in parentheses, up to blanks around it. -/
def inside (fragment : Fragment) : Option (Option Fragment) := do
  let raw ← fragment.text.cut? 0 (Text.size fragment.text)
  let first := Text.size (Text.leading raw)
  let last := first + Text.size (Text.trim raw)
  if last < first + 2 then
    some none
  else do
    let opening ← fragment.text.byteAt? first
    let closing ← fragment.text.byteAt? (last - 1)
    if opening ≠ 0x28 ∨ closing ≠ 0x29 then
      some none
    else do
      let mask ← codeMask fragment.text
      let closes ← closesAt fragment.text mask last 0 first
      if closes then
        (fragment.between? (fragment.start + (first + 1)) (fragment.start + (last - 1))).map some
      else
        some none

section Pieces

variable {whole : Text} {fragment part : Fragment}

theorem trimmed_eq (hfragment : fragment.LiesIn whole) (hpart : part.LiesIn whole)
    (hstart : fragment.start ≤ part.start) (hstop : part.stop ≤ fragment.stop) :
    trimmed fragment part.start part.stop = some part.trim := by
  obtain ⟨hfirst, hlast⟩ := part.trim_bounds
  rw [trimmed, hfragment.between?_eq hpart hstart hstop]
  exact hfragment.between?_eq hpart.trim (by omega) (by omega)

section Segments

variable {α : Type} {found : List (Segment α)} {start : Nat}

theorem upTo_eq (hfragment : fragment.LiesIn whole) (hpart : part.LiesIn whole)
    (hstart : fragment.start ≤ part.start) (htile : Segment.Tile whole part.stop found)
    (hend : part.stop + Text.size (Cut.textOf (found.map Segment.cut)) = fragment.stop) :
    upTo fragment part.start (found.map Segment.found) = some part := by
  have hstop : (found.map Segment.found).head?.elim fragment.stop Match.start = part.stop := by
    cases found with
    | nil => simpa [Cut.textOf] using hend.symm
    | cons segment rest => exact htile.2.1
  rw [upTo, hstop]
  exact hfragment.between?_eq hpart hstart (by omega)

/-- The segments of a fragment are cut out at the offsets of their marks. -/
theorem segments_eq (hfragment : fragment.LiesIn whole) (hstart : fragment.start ≤ start)
    (htile : Segment.Tile whole start found)
    (hend : start + Text.size (Cut.textOf (found.map Segment.cut)) = fragment.stop) :
    segments fragment (found.map Segment.found) = some found := by
  induction found generalizing start with
  | nil => rfl
  | cons segment rest ih =>
      obtain ⟨hmark, hmarkStart, hbody, hbodyStart, hrest⟩ := htile
      rw [Segment.size_textOf_cons] at hend
      have hmarkStop : segment.mark.stop = start + Text.size segment.mark.text := by
        rw [Fragment.stop, hmarkStart]
      have hbodyStop : segment.body.stop = segment.mark.stop + Text.size segment.body.text := by
        rw [Fragment.stop, hbodyStart]
      have hcut := hfragment.between?_eq hmark (by omega) (by omega)
      have hbehind := upTo_eq hfragment hbody (by omega) hrest (by omega)
      have hothers := ih (by omega) hrest (by omega)
      rw [hbodyStart] at hbehind
      simp only [List.map_cons, segments, Segment.found, hcut, hbehind, Option.bind_eq_bind,
        Option.bind_some]
      rw [hothers]
      rfl

end Segments

theorem closeParts_eq {segments : List (Segment ChainMark)} (hfragment : fragment.LiesIn whole)
    (hpart : part.LiesIn whole) (hstart : fragment.start ≤ part.start)
    (htile : Segment.Tile whole part.stop segments)
    (hend : part.stop + Text.size (Cut.textOf (segments.map Segment.cut)) = fragment.stop)
    (pending : Bool) (connector : Option Connector) :
    closeParts fragment pending connector part.start (segments.map Segment.found) =
      some (Fragment.closeChain pending connector part segments) := by
  induction segments generalizing pending connector part with
  | nil =>
      have hstop : part.stop = fragment.stop := by simpa [Cut.textOf] using hend
      rw [List.map_nil, closeParts, ← hstop, trimmed_eq hfragment hpart hstart hstop.le]
      rfl
  | cons segment rest ih =>
      obtain ⟨hextended, hrest⟩ := Segment.Tile.extend hpart htile
      obtain ⟨hmark, hmarkStart, hbody, hbodyStart, hbodyRest⟩ := htile
      rw [Segment.size_textOf_cons] at hend
      have hmarkStop : segment.mark.stop = part.stop + Text.size segment.mark.text := by
        rw [Fragment.stop, hmarkStart]
      have hpartStop : part.start ≤ part.stop := Nat.le_add_right _ _
      -- The part is drawn out over the mark and the body, and nothing is closed.
      have hextend := ih hextended hstart hrest (by
        rw [Fragment.stop_append, Fragment.stop_append]
        omega)
      have hclose := ih hbody (by omega) hbodyRest (by
        rw [Fragment.stop, hbodyStart]
        omega) false
      have hpiece : trimmed fragment part.start segment.mark.start = some part.trim := by
        rw [hmarkStart]
        exact trimmed_eq hfragment hpart hstart (by omega)
      rw [List.map_cons, closeParts, Fragment.closeChain]
      cases hlabel : segment.label with
      | between =>
          simp only [Segment.found, hlabel]
          exact hextend true connector
      | connector next =>
          simp only [Segment.found, hlabel]
          split
          · exact hextend false connector
          · have hothers := hclose (some next)
            rw [hbodyStart] at hothers
            simp only [hpiece, Option.bind_eq_bind, Option.bind_some]
            rw [hothers]
            rfl

/-- A chain is split by cuts as it is split by its cells. -/
theorem splitChain_eq (connectors : List Connector) (fragment : Fragment) :
    splitChain connectors fragment = some (fragment.splitChain connectors) := by
  obtain ⟨whole, hfragment⟩ := fragment.exists_liesIn
  obtain ⟨hhead, htile⟩ := hfragment.segment (ChainMark.finder connectors)
  rw [splitChain, marks_of_isPlain (ChainMark.isPlain_entries connectors),
    ← Fragment.map_found_segment]
  exact closeParts_eq hfragment hhead le_rfl htile
    (Fragment.stop_segment (ChainMark.finder connectors) fragment) false none

theorem closeItems_eq {segments : List (Segment Unit)} (hfragment : fragment.LiesIn whole)
    (hpart : part.LiesIn whole) (hstart : fragment.start ≤ part.start)
    (htile : Segment.Tile whole part.stop segments)
    (hend : part.stop + Text.size (Cut.textOf (segments.map Segment.cut)) = fragment.stop) :
    closeItems fragment part.start (segments.map Segment.found) =
      some (part.trim :: segments.map fun segment => segment.body.trim) := by
  induction segments generalizing part with
  | nil =>
      have hstop : part.stop = fragment.stop := by simpa [Cut.textOf] using hend
      rw [List.map_nil, closeItems, ← hstop, trimmed_eq hfragment hpart hstart hstop.le]
      rfl
  | cons segment rest ih =>
      obtain ⟨hmark, hmarkStart, hbody, hbodyStart, hbodyRest⟩ := htile
      rw [Segment.size_textOf_cons] at hend
      have hmarkStop : segment.mark.stop = part.stop + Text.size segment.mark.text := by
        rw [Fragment.stop, hmarkStart]
      have hpartStop : part.start ≤ part.stop := Nat.le_add_right _ _
      have hothers := ih hbody (by omega) hbodyRest (by
        rw [Fragment.stop, hbodyStart]
        omega)
      have hpiece : trimmed fragment part.start segment.mark.start = some part.trim := by
        rw [hmarkStart]
        exact trimmed_eq hfragment hpart hstart (by omega)
      rw [List.map_cons, closeItems]
      change ((trimmed fragment part.start segment.mark.start).bind fun item =>
        (closeItems fragment segment.mark.stop (rest.map Segment.found)).bind fun others =>
          some (item :: others)) = _
      rw [hpiece, ← hbodyStart, hothers]
      rfl

theorem splitList_eq (fragment : Fragment) : splitList fragment = some fragment.splitList := by
  obtain ⟨whole, hfragment⟩ := fragment.exists_liesIn
  obtain ⟨hhead, htile⟩ := hfragment.segment Finder.comma
  rw [splitList, commas_eq, ← Fragment.map_found_segment]
  exact closeItems_eq hfragment hhead le_rfl htile
    (Fragment.stop_segment Finder.comma fragment)

/-- A fragment is split at its first keyword by cuts as it is split by its cells. -/
theorem splitFirst_eq {α : Type} {keywords : List (Keyword × α)}
    (hplain : ∀ entry ∈ keywords, entry.1.isPlain = true) (fragment : Fragment) :
    splitFirst keywords fragment = some (fragment.splitFirst? (.ofKeywords keywords)) := by
  obtain ⟨whole, hfragment⟩ := fragment.exists_liesIn
  obtain ⟨hhead, htile⟩ := hfragment.segment (.ofKeywords keywords)
  have hend := Fragment.stop_segment (.ofKeywords keywords) fragment
  rw [splitFirst, marks_of_isPlain hplain, ← Fragment.map_found_segment, Fragment.splitFirst?]
  cases htail : (fragment.segment (.ofKeywords keywords)).tail with
  | nil => rfl
  | cons first others =>
      rw [htail] at htile hend
      obtain ⟨hmark, hmarkStart, hbody, hbodyStart, hrest⟩ := htile
      have hstart : (fragment.segment (.ofKeywords keywords)).head.start = fragment.start := rfl
      have hle : fragment.start ≤ (fragment.segment (.ofKeywords keywords)).head.stop :=
        Nat.le_add_right _ _
      have hafter := hrest.join hbody
      have htext : Cut.textOf ((first :: others).map Segment.cut) = first.mark.text ++
          (first.body.text ++ others.flatMap fun segment =>
            segment.mark.text ++ segment.body.text) := by
        simp [Cut.textOf, Segment.cut, List.flatMap_map]
      rw [htext, Text.size_append] at hend
      have hmarkStop : first.mark.stop = first.mark.start + Text.size first.mark.text := rfl
      have hafterStop : (Fragment.mk (first.body.text ++ others.flatMap fun segment =>
          segment.mark.text ++ segment.body.text) first.body.start).stop = fragment.stop := by
        rw [Fragment.stop]
        dsimp only
        omega
      have hcutBefore := hfragment.between?_eq hhead hstart.ge (by omega)
      have hcutMark := hfragment.between?_eq hmark (by omega) (by omega)
      have hcutAfter := hfragment.between?_eq hafter (by dsimp only; omega) hafterStop.le
      rw [hstart, ← hmarkStart] at hcutBefore
      rw [hafterStop, hbodyStart] at hcutAfter
      simp only [List.map_cons, Segment.found, Option.bind_eq_bind, Option.bind_some, hcutBefore,
        hcutMark, hcutAfter, hbodyStart]

end Pieces

/-! ## Groups -/

section Groups

variable {text : Text} {passed cells back : List Cell} {cell : Cell} {fragment inner : Fragment}

theorem size_text_eq_zero_iff : Text.size (Cell.text cells) = 0 ↔ cells = [] := by
  cases cells with
  | nil => exact iff_of_true rfl rfl
  | cons cell cells =>
      have hpos := cell.char.utf8Size_pos
      have hcons : Text.size (Cell.text (cell :: cells)) =
          cell.char.utf8Size + Text.size (Cell.text cells) := rfl
      exact iff_of_false (by omega) (List.cons_ne_nil _ _)

theorem closesAt_pass {stop : Nat} (hcells : text.cells = passed ++ cell :: back)
    (hopen : cell.isCodeChar '(' = false) (hclose : cell.isCodeChar ')' = false)
    (hstop : Text.size (Cell.text passed) + cell.char.utf8Size ≤ stop) (depth : Int) :
    closesAt text text.codeMask stop depth (Text.size (Cell.text passed)) =
      closesAt text text.codeMask stop depth
        (Text.size (Cell.text passed) + cell.char.utf8Size) := by
  refine pass_cell hcells fun place byte _ hlast _ hmask hat hmem => ?_
  rw [closesAt, if_pos (by omega), hmask, hat]
  cases hcode : cell.isCode with
  | false => rfl
  | true =>
      have hopenByte : byte ≠ 0x28 := byte_ne_of_isCodeChar hopen (by decide) hcode hmem
      have hcloseByte : byte ≠ 0x29 := byte_ne_of_isCodeChar hclose (by decide) hcode hmem
      simp only [Option.bind_eq_bind, Option.bind_some, if_true, if_neg hopenByte,
        if_neg hcloseByte]

theorem closesAt_open {stop : Nat} (hcells : text.cells = passed ++ cell :: back)
    (hopen : cell.isCodeChar '(' = true) (hstop : Text.size (Cell.text passed) < stop)
    (depth : Int) :
    closesAt text text.codeMask stop depth (Text.size (Cell.text passed)) =
      closesAt text text.codeMask stop (depth + 1)
        (Text.size (Cell.text passed) + cell.char.utf8Size) := by
  obtain ⟨hwidth, -, hmask, hbyte⟩ := byte_of_isCodeChar hcells hopen (by decide)
  rw [closesAt, if_pos hstop, hmask, hbyte, hwidth]
  rfl

theorem closesAt_close {stop : Nat} (hcells : text.cells = passed ++ cell :: back)
    (hclose : cell.isCodeChar ')' = true) (hstop : Text.size (Cell.text passed) < stop)
    (depth : Int) :
    closesAt text text.codeMask stop depth (Text.size (Cell.text passed)) =
      if depth = 1 then
        some (Text.size (Cell.text passed) + cell.char.utf8Size == stop)
      else
        closesAt text text.codeMask stop (depth - 1)
          (Text.size (Cell.text passed) + cell.char.utf8Size) := by
  obtain ⟨hwidth, -, hmask, hbyte⟩ := byte_of_isCodeChar hcells hclose (by decide)
  rw [closesAt, if_pos hstop, hmask, hbyte, hwidth]
  rfl

/-- The walk over the bytes of a group closes it where the walk over its cells does. -/
theorem closesAt_eq {depth : Nat} (hcells : text.cells = passed ++ (cells ++ back)) :
    closesAt text text.codeMask (Text.size (Cell.text passed) + Text.size (Cell.text cells))
        (depth + 1) (Text.size (Cell.text passed)) =
      some (Fragment.closesAtEnd depth cells) := by
  induction cells generalizing depth passed with
  | nil =>
      rw [closesAt, if_neg (by simp [Cell.text])]
      rfl
  | cons cell cells ih =>
      have hcons : Text.size (Cell.text (cell :: cells)) =
          cell.char.utf8Size + Text.size (Cell.text cells) := rfl
      have hpos := cell.char.utf8Size_pos
      obtain ⟨hbehind, hsize⟩ := append_singleton_of_cells hcells
      have hrest := fun depth => @ih (passed ++ [cell]) depth hbehind
      rw [hsize, Nat.add_assoc, ← hcons] at hrest
      rw [Fragment.closesAtEnd_cons]
      cases hopen : cell.isCodeChar '(' with
      | true =>
          rw [closesAt_open hcells hopen (by omega), if_pos rfl]
          exact hrest (depth + 1)
      | false =>
          rw [if_neg Bool.false_ne_true]
          cases hclose : cell.isCodeChar ')' with
          | false =>
              rw [closesAt_pass hcells hopen hclose (by omega), if_neg Bool.false_ne_true]
              exact hrest depth
          | true =>
              rw [closesAt_close hcells hclose (by omega), if_pos rfl]
              cases depth with
              | zero =>
                  rw [if_pos (by omega), Option.some_inj, Bool.eq_iff_iff, beq_iff_eq,
                    List.isEmpty_iff, ← size_text_eq_zero_iff]
                  omega
              | succ depth =>
                  have hless : ((depth + 1 : Nat) : Int) + 1 - 1 = depth + 1 := by omega
                  rw [if_neg (by omega), hless]
                  exact hrest depth

theorem closesAtEnd_congr {depth : Nat} {cells' : List Cell}
    (hfaces : cells.map Cell.face = cells'.map Cell.face) :
    Fragment.closesAtEnd depth cells = Fragment.closesAtEnd depth cells' := by
  rw [Bool.eq_iff_iff, Fragment.closesAtEnd_iff, Fragment.closesAtEnd_iff,
    Cell.nestings_congr hfaces, Cell.text_of_faces hfaces]

/-- From the parenthesis that opens a text on. -/
theorem closesAt_trim {rest : Text} (htrim : Text.trim text = '(' :: rest) :
    closesAt text text.codeMask (Text.size (Text.leading text) + Text.size (Text.trim text)) 0
        (Text.size (Text.leading text)) =
      some (Fragment.closesAtEnd 0 (Mode.code.cells rest)) := by
  obtain ⟨blanks, cells, back, hcells, hblanks, hfaces⟩ := Text.exists_trimmed text
  have htexts : Cell.text cells = Text.trim text :=
    (Cell.text_of_faces hfaces).trans (Mode.text_cells _ _)
  rw [htrim, Text.cells_parenthesis, List.map_cons] at hfaces
  obtain ⟨cell, cells, rfl, hcell, hrest⟩ := List.map_eq_cons_iff.mp hfaces
  obtain ⟨hchar, hkind⟩ := Prod.mk.inj hcell
  have hopen : cell.isCodeChar '(' = true := by
    rw [Cell.isCodeChar, Cell.isCode, hkind, hchar]
    rfl
  rw [List.cons_append] at hcells
  have hpos := cell.char.utf8Size_pos
  obtain ⟨hbehind, hsize⟩ := append_singleton_of_cells hcells
  have hcons : Text.size (Cell.text (cell :: cells)) =
      cell.char.utf8Size + Text.size (Cell.text cells) := rfl
  have hgo := @closesAt_eq text _ cells back 0 hbehind
  rw [closesAtEnd_congr hrest, hsize, Nat.add_assoc, ← hcons] at hgo
  rw [← htexts, ← hblanks, closesAt_open hcells hopen (by omega)]
  exact hgo

theorem exists_byteAt? {place : Nat} (hplace : place < Text.size text) :
    ∃ byte, text.byteAt? place = some byte := by
  rw [← Text.length_bytes] at hplace
  exact ⟨_, List.getElem?_eq_getElem hplace⟩

/-- A text whose first byte behind the blanks is a parenthesis. -/
theorem exists_of_opening
    (hopening : text.byteAt? (Text.size (Text.leading text)) = some 0x28)
    (hwide : 0 < Text.size (Text.trim text)) : ∃ rest, Text.trim text = '(' :: rest := by
  obtain ⟨trail, htext, -⟩ := Fragment.exists_trail text
  have hhead : (Text.trim text ++ trail).head? = some '(' := by
    rw [← @Text.byteAt?_eq_iff _ (Text.leading text) _ (by decide), ← htext]
    exact hopening
  cases htrim : Text.trim text with
  | nil =>
      rw [htrim, Text.size_nil] at hwide
      contradiction
  | cons c rest =>
      rw [htrim] at hhead
      obtain rfl := Option.some.inj hhead
      exact ⟨rest, rfl⟩

theorem inside_of_none {start : Nat} (hinside : (Fragment.mk text start).inside? = none) :
    inside ⟨text, start⟩ = some none := by
  obtain ⟨trail, htext, -⟩ := Fragment.exists_trail text
  have hsize := congrArg Text.size htext
  rw [Text.size_append, Text.size_append] at hsize
  rw [inside, Text.cut?_whole]
  simp only [Option.bind_eq_bind, Option.bind_some]
  split
  · rfl
  · obtain ⟨opening, hopening⟩ := @exists_byteAt? text (Text.size (Text.leading text)) (by omega)
    obtain ⟨closing, hclosing⟩ := @exists_byteAt? text
      (Text.size (Text.leading text) + Text.size (Text.trim text) - 1) (by omega)
    simp only [hopening, hclosing, Option.bind_some, codeMask_eq]
    split
    · rfl
    · rename_i hends
      rw [not_or, not_not, not_not] at hends
      obtain ⟨rfl, -⟩ := hends
      obtain ⟨rest, htrim⟩ := exists_of_opening hopening (by omega)
      have hopen : Fragment.closesAtEnd 0 (Mode.code.cells rest) = false := by
        rw [Fragment.inside?_of_trim htrim] at hinside
        simpa using hinside
      rw [closesAt_trim htrim, hopen]
      rfl

theorem inside_of_some {start : Nat} (hinside : (Fragment.mk text start).inside? = some inner) :
    inside ⟨text, start⟩ = some (some inner) := by
  obtain ⟨whole, hfragment⟩ := (Fragment.mk text start).exists_liesIn
  obtain ⟨trail, htext, -⟩ := Fragment.exists_trail text
  have hsize := congrArg Text.size htext
  rw [Text.size_append, Text.size_append] at hsize
  have hgroup : text.IsGroup (Text.size (Text.leading text))
      (Text.size (Text.leading text) + Text.size (Text.trim text)) := by
    rw [← Fragment.isSome_inside?_iff text start, hinside]
    rfl
  have hwide := hgroup.wide
  have htrim : Text.trim text = '(' :: (inner.text ++ [')']) := Fragment.trim_of_inside? hinside
  have hcloses : Fragment.closesAtEnd 0 (Mode.code.cells (inner.text ++ [')'])) = true := by
    have hopened := hinside
    rw [Fragment.inside?_of_trim htrim, Option.ite_none_right_eq_some] at hopened
    exact hopened.1
  obtain ⟨hrange, -, -, hclosing⟩ := Fragment.range_of_inside? hinside
  obtain ⟨hstart, hstop⟩ := Prod.mk.inj hrange
  have hstopWhole : (Fragment.mk text start).stop = start + Text.size text := rfl
  have hcut := hfragment.between?_eq (hfragment.inside? hinside)
    (by rw [hstart]; exact Nat.le_add_right _ _) (by rw [hstop, hstopWhole]; omega)
  rw [hstart, hstop] at hcut
  rw [inside, Text.cut?_whole]
  simp only [Option.bind_eq_bind, Option.bind_some]
  rw [if_neg (by omega)]
  simp only [hgroup.opens, hclosing, Option.bind_some, codeMask_eq, closesAt_trim htrim,
    hcloses, if_true, hcut]
  rfl

/-- A group is opened by cuts as it is opened by its cells. -/
theorem inside_eq (fragment : Fragment) : inside fragment = some fragment.inside? := by
  cases hinside : fragment.inside? with
  | none => exact inside_of_none hinside
  | some inner => exact inside_of_some hinside

end Groups

end Bytewise

end SelectForm

import Mathlib
import SelectForm.Proofs.Statement.CursorPlace
import SelectForm.Proofs.Statement.PlacedFragment

/-!
# Where a chain of conditions is split

A chain is split by closing its segments one after the other.  Here the same places are
found by walking over the characters: the matches of `BETWEEN` and of the connectors are
collected with their offsets, and those that close a `BETWEEN` are dropped.  What is left
are the split points, and the parts of the chain are what stands in the gaps between them.
-/

namespace SelectForm

/-- A mark of a text with the offsets at which it begins and ends. -/
structure Match (α : Type) where
  label : α
  start : Nat
  stop : Nat
deriving DecidableEq, Repr

namespace Match

variable {α : Type}

/-- The matches of a finder outside all parentheses, in a walk from the left to the right.
`skip` counts the characters of a match that are still to be passed over. -/
def walk (find : Finder α) (skip : Nat) (depth : Int) (before : Option Char) (offset : Nat) :
    List Cell → List (Match α)
  | [] => []
  | cell :: rest =>
    let next := offset + cell.char.utf8Size
    match skip with
    | count + 1 => walk find count depth (some cell.char) next rest
    | 0 =>
      if cell.isCodeChar '(' then
        walk find 0 (depth + 1) (some cell.char) next rest
      else if cell.isCodeChar ')' then
        walk find 0 (depth - 1) (some cell.char) next rest
      else
        match if depth = 0 ∧ cell.isCode = true then find before (cell :: rest) else none with
        | some (label, count + 1) =>
          ⟨label, offset, offset + Text.size (Cell.text ((cell :: rest).take (count + 1)))⟩ ::
            walk find count depth (some cell.char) next rest
        | _ => walk find 0 depth (some cell.char) next rest

/-- The ranges between some matches, and those before the first and behind the last. -/
def gaps (first last : Nat) : List (Match α) → List (Nat × Nat)
  | [] => [(first, last)]
  | found :: rest => (first, found.start) :: gaps found.stop last rest

/-- Every offset stands in a gap or in a match. -/
theorem exists_gap_or_match {first last place : Nat} (hfirst : first ≤ place)
    (hlast : place < last) (points : List (Match α)) :
    (∃ gap ∈ gaps first last points, gap.1 ≤ place ∧ place < gap.2) ∨
      ∃ found ∈ points, found.start ≤ place ∧ place < found.stop := by
  induction points generalizing first with
  | nil => exact .inl ⟨_, List.mem_singleton_self _, hfirst, hlast⟩
  | cons found rest ih =>
      by_cases hbefore : place < found.start
      · exact .inl ⟨_, List.mem_cons_self, hfirst, hbefore⟩
      · by_cases hinside : place < found.stop
        · exact .inr ⟨found, List.mem_cons_self, by omega, hinside⟩
        · rcases @ih found.stop (by omega) with ⟨gap, hmem, hgap⟩ | ⟨other, hmem, hother⟩
          · exact .inl ⟨gap, List.mem_cons_of_mem _ hmem, hgap⟩
          · exact .inr ⟨other, List.mem_cons_of_mem _ hmem, hother⟩

end Match

/-! ## Segments and matches -/

namespace Segment

variable {α : Type}

/-- The match of the mark of a segment. -/
def found (segment : Segment α) : Match α :=
  ⟨segment.label, segment.mark.start, segment.mark.stop⟩

end Segment

namespace Cell

theorem isTopLevel_iff {depth : Int} {cell : Cell} :
    cell.isTopLevel depth = true ↔
      (depth = 0 ∧ cell.isCode = true) ∧ cell.isCodeChar '(' = false ∧
        cell.isCodeChar ')' = false := by
  have hne : ¬ (cell.isCodeChar '(' = true ∧ cell.isCodeChar ')' = true) := by
    unfold isCodeChar
    grind
  unfold isTopLevel nesting
  cases hopen : cell.isCodeChar '(' <;> cases hclose : cell.isCodeChar ')'
  · simp
  · simp
  · simp
  · exact absurd ⟨hopen, hclose⟩ hne

end Cell

namespace Match

variable {α : Type} {find : Finder α}

theorem walk_cons (depth : Int) (before : Option Char) (offset : Nat) (cell : Cell)
    (rest : List Cell) :
    walk find 0 depth before offset (cell :: rest) =
      match if cell.isTopLevel depth then find before (cell :: rest) else none with
      | some (label, count + 1) =>
        ⟨label, offset, offset + Text.size (Cell.text ((cell :: rest).take (count + 1)))⟩ ::
          walk find count depth (some cell.char) (offset + cell.char.utf8Size) rest
      | _ =>
        walk find 0 (depth + cell.nesting) (some cell.char) (offset + cell.char.utf8Size)
          rest := by
  rw [walk]
  simp only [Cell.isTopLevel_iff, Cell.nesting]
  cases hopen : cell.isCodeChar '(' <;> cases hclose : cell.isCodeChar ')'
  · simp
  · simp [Int.sub_eq_add_neg]
  · simp
  · simp

/-- The walk finds the marks at which cells are cut. -/
theorem walk_eq (skip : Nat) (depth : Int) (before : Option Char) (offset : Nat)
    (cells : List Cell) :
    walk find skip depth before offset cells =
      (Segmentation.place
        (offset + Text.size (Cell.text (cells.take skip)) +
          Text.size (cutCells find skip depth before cells).1)
        (cutCells find skip depth before cells).2).map Segment.found := by
  induction cells generalizing skip depth before offset with
  | nil => simp [walk, cutCells, Segmentation.place]
  | cons cell rest ih =>
      have hsize : ∀ count, Text.size (Cell.text ((cell :: rest).take (count + 1))) =
          cell.char.utf8Size + Text.size (Cell.text (rest.take count)) := fun count => rfl
      cases skip with
      | succ count =>
          rw [walk, ih, cutCells, hsize, Nat.add_assoc offset]
      | zero =>
          rw [walk_cons, cutCells]
          rcases if cell.isTopLevel depth then find before (cell :: rest) else none with
            _ | ⟨label, _ | count⟩
          · simp [ih, Cell.text, Nat.add_assoc]
          · simp [ih, Cell.text, Nat.add_assoc]
          · simp only [ih, hsize]
            simp [Segmentation.place, Segment.found, Fragment.stop, Cell.text, Nat.add_assoc]

end Match

namespace Fragment

variable {α : Type}

/-- The matches of a finder in a fragment, outside all parentheses. -/
def matchesOf (find : Finder α) (fragment : Fragment) : List (Match α) :=
  Match.walk find 0 0 none fragment.start fragment.text.cells

theorem map_found_segment (find : Finder α) (fragment : Fragment) :
    (fragment.segment find).tail.map Segment.found = fragment.matchesOf find := by
  rw [matchesOf, Match.walk_eq]
  rfl

end Fragment

/-! ## Split points -/

namespace ChainMark

/-- The connectors between the conditions of a chain.  An `AND` that a `BETWEEN` waits for
is none of them. -/
def splitPoints (pending : Bool) : List (Match ChainMark) → List (Match Connector)
  | [] => []
  | found :: rest =>
    match found.label with
    | .between => splitPoints true rest
    | .connector next =>
      if next = .and ∧ pending = true then
        splitPoints false rest
      else
        ⟨next, found.start, found.stop⟩ :: splitPoints false rest

end ChainMark

namespace Fragment

open ChainMark

variable {whole : Text} {fragment part : Fragment} {segments : List (Segment ChainMark)}

theorem LiesIn.slice_eq (hlies : fragment.LiesIn whole) :
    whole.slice fragment.start fragment.stop = fragment.text := by
  obtain ⟨before, behind, hwhole, hstart⟩ := hlies
  rw [stop, hstart, hwhole]
  exact Text.slice_append before fragment.text behind

/-- The range of a fragment. -/
def range (fragment : Fragment) : Nat × Nat := (fragment.start, fragment.stop)

/-- Each part of a chain stands in the gap between two split points, and keeps the connector
in front of the gap. -/
theorem closeChain_eq (pending : Bool) (connector : Option Connector)
    (hlies : part.LiesIn whole) (htile : Segment.Tile whole part.stop segments)
    (hend : part.stop + Text.size (Cut.textOf (segments.map Segment.cut)) = Text.size whole) :
    ∃ pieces : List Fragment,
      (∀ piece ∈ pieces, piece.LiesIn whole) ∧
        pieces.map range =
          Match.gaps part.start (Text.size whole)
            (splitPoints pending (segments.map Segment.found)) ∧
        (closeChain pending connector part segments).map ChainPart.expression =
          pieces.map trim ∧
        (closeChain pending connector part segments).map ChainPart.connector =
          connector :: (splitPoints pending (segments.map Segment.found)).map
            fun point => some point.label := by
  induction segments generalizing pending connector part with
  | nil =>
      have hstop : part.stop = Text.size whole := by simpa [Cut.textOf] using hend
      exact ⟨[part], by simpa using hlies, by simp [range, splitPoints, Match.gaps, hstop],
        rfl, rfl⟩
  | cons segment rest ih =>
      obtain ⟨hextended, hrest⟩ := Segment.Tile.extend hlies htile
      obtain ⟨hmark, hstart, hbody, hbodyStart, hbodyRest⟩ := htile
      have htext : Cut.textOf ((segment :: rest).map Segment.cut) =
          segment.mark.text ++ (segment.body.text ++ Cut.textOf (rest.map Segment.cut)) := by
        simp [Cut.textOf, Segment.cut]
      rw [htext, Text.size_append, Text.size_append] at hend
      -- The part is drawn out over the mark and the body, and nothing is closed.
      have hextend := fun pending => ih pending connector hextended hrest (by
        rw [stop_append, stop_append]
        omega)
      have hclose := fun connector => ih false connector hbody hbodyRest (by
        rw [stop, hbodyStart, stop, hstart]
        omega)
      rw [closeChain, List.map_cons, splitPoints]
      cases hlabel : segment.label with
      | between =>
          simp only [Segment.found, hlabel]
          exact hextend true
      | connector next =>
          simp only [Segment.found, hlabel]
          split
          · exact hextend false
          · obtain ⟨pieces, hpieces, hranges, hparts, hconnectors⟩ := hclose (some next)
            refine ⟨part :: pieces, List.forall_mem_cons.mpr ⟨hlies, hpieces⟩, ?_, ?_, ?_⟩
            · rw [List.map_cons, hranges, hbodyStart, range, ← hstart]
              rfl
            · rw [List.map_cons, List.map_cons, hparts]
            · rw [List.map_cons, List.map_cons, hconnectors]

/-- The part before the first mark and the segments behind it are as long as the fragment. -/
theorem stop_segment (find : Finder α) (fragment : Fragment) :
    (fragment.segment find).head.stop +
        Text.size (Cut.textOf ((fragment.segment find).tail.map Segment.cut)) =
      fragment.stop := by
  have htext := congrArg Text.size (text_segment find fragment)
  have hcuts : Cut.textOf ((fragment.segment find).tail.map Segment.cut) =
      (fragment.segment find).tail.flatMap
        fun segment => segment.mark.text ++ segment.body.text := by
    rw [Cut.textOf, List.flatMap_map]
    rfl
  rw [hcuts, stop, stop, ← htext, Text.size_append, ← Nat.add_assoc]
  rfl

theorem stop_whole (text : Text) : (mk text 0).stop = Text.size text := Nat.zero_add _

/-- The pieces of a text that are trimmed to the parts of a chain. -/
theorem exists_pieces (text : Text) (connectors : List Connector) :
    ∃ pieces : List Fragment,
      (∀ piece ∈ pieces, piece.LiesIn text) ∧
        pieces.map range =
          Match.gaps 0 (Text.size text)
            (splitPoints false ((mk text 0).matchesOf (finder connectors))) ∧
        ((mk text 0).splitChain connectors).map ChainPart.expression = pieces.map trim ∧
        ((mk text 0).splitChain connectors).map ChainPart.connector =
          none :: (splitPoints false ((mk text 0).matchesOf (finder connectors))).map
            fun point => some point.label := by
  obtain ⟨hhead, htile⟩ := (liesIn_whole text).segment (finder connectors)
  have hclose := closeChain_eq false none hhead htile
    ((stop_segment (finder connectors) (mk text 0)).trans (stop_whole text))
  rw [map_found_segment] at hclose
  exact hclose

/-! ## Inside a piece -/

/-- A character that stands at an offset inside a part of a text is one of the part. -/
theorem LiesIn.mem {front back : Text} {c : Char} (hlies : fragment.LiesIn (front ++ c :: back))
    (hstart : fragment.start ≤ Text.size front) (hstop : Text.size front < fragment.stop) :
    c ∈ fragment.text := by
  obtain ⟨before, behind, htext, hbefore⟩ := hlies
  rw [stop] at hstop
  obtain ⟨gap, rfl, hback⟩ | ⟨gap, rfl, hfront⟩ := List.append_eq_append_iff.mp htext
  · cases gap with
    | nil =>
        cases hpart : fragment.text with
        | nil =>
            rw [hpart, hbefore] at hstop
            simp at hstop
        | cons d rest =>
            rw [hpart] at hback
            exact (List.cons.inj hback).1 ▸ List.mem_cons_self
    | cons d gap =>
        have hd := d.utf8Size_pos
        rw [hbefore, Text.size_append, Text.size_cons] at hstart
        omega
  · obtain ⟨inner, rfl, hinner⟩ | ⟨inner, hgap, hinner⟩ := List.append_eq_append_iff.mp hfront
    · rw [hbefore, Text.size_append, Text.size_append] at hstop
      omega
    · cases inner with
      | nil =>
          rw [hgap, List.append_nil, hbefore, Text.size_append] at hstop
          omega
      | cons d inner =>
          rw [hgap, (List.cons.inj hinner).1]
          simp

/-- A text is its trimmed form between blanks. -/
theorem exists_trail (text : Text) :
    ∃ trail, text = Text.leading text ++ (Text.trim text ++ trail) ∧
      ∀ c ∈ trail, Text.isBlank c = true := by
  obtain ⟨trail, htrim, htrail⟩ := Text.exists_trimEnd (Text.trimStart text)
  refine ⟨trail, ?_, htrail⟩
  unfold Text.trim
  rw [← htrim, Text.leading_append_trimStart]

theorem trim_bounds (fragment : Fragment) :
    fragment.start ≤ fragment.trim.start ∧ fragment.trim.stop ≤ fragment.stop := by
  obtain ⟨trail, htext, -⟩ := exists_trail fragment.text
  have hsize := congrArg Text.size htext
  rw [Text.size_append, Text.size_append] at hsize
  unfold stop trim
  simp only
  omega

/-- Only blanks of a piece are outside its trimmed form. -/
theorem LiesIn.trim_covers {front back : Text} {c : Char}
    (hlies : fragment.LiesIn (front ++ c :: back)) (hblank : Text.isBlank c = false)
    (hstart : fragment.start ≤ Text.size front) (hstop : Text.size front < fragment.stop) :
    fragment.trim.start ≤ Text.size front ∧ Text.size front < fragment.trim.stop := by
  obtain ⟨text, start⟩ := fragment
  obtain ⟨trail, htext, htrail⟩ := exists_trail text
  have hsize := congrArg Text.size htext
  rw [Text.size_append, Text.size_append] at hsize
  rw [htext] at hlies
  have hleading : (mk (Text.leading text) start).LiesIn (front ++ c :: back) := hlies.part_front
  rw [← List.append_assoc, ← List.append_nil trail] at hlies
  have hbehind := hlies.part
  rw [Text.size_append] at hbehind
  unfold stop at hstop ⊢
  unfold Fragment.trim
  simp only at hstart hstop ⊢
  constructor
  · by_contra hbefore
    have hmem := hleading.mem hstart (by unfold stop; simp only; omega)
    rw [List.mem_takeWhile_imp hmem] at hblank
    contradiction
  · by_contra hafter
    have hmem := hbehind.mem (by simp only; omega) (by unfold stop; simp only; omega)
    rw [htrail c hmem] at hblank
    contradiction

/-- A character that is not blank belongs to a trimmed piece or to the match between two
pieces. -/
theorem exists_trim_or_match {front back : Text} {c : Char} {pieces : List Fragment}
    {points : List (Match α)} (hpieces : ∀ piece ∈ pieces, piece.LiesIn (front ++ c :: back))
    (hranges : pieces.map range = Match.gaps 0 (Text.size (front ++ c :: back)) points)
    (hblank : Text.isBlank c = false) :
    (∃ piece ∈ pieces,
        piece.trim.start ≤ Text.size front ∧ Text.size front < piece.trim.stop) ∨
      ∃ point ∈ points, point.start ≤ Text.size front ∧ Text.size front < point.stop := by
  have hinside : Text.size front < Text.size (front ++ c :: back) := by
    have hc := c.utf8Size_pos
    rw [Text.size_append, Text.size_cons]
    omega
  rcases Match.exists_gap_or_match (Nat.zero_le _) hinside points with ⟨gap, hgap, hplace⟩ | hpoint
  · rw [← hranges, List.mem_map] at hgap
    obtain ⟨piece, hpiece, rfl⟩ := hgap
    exact .inl ⟨piece, hpiece, (hpieces piece hpiece).trim_covers hblank hplace.1 hplace.2⟩
  · exact .inr hpoint

/-! ## The chain as a whole -/

/-- A character that is not blank belongs to a part of the chain or to a split point. -/
theorem covers_splitChain {front back : Text} {c : Char} (connectors : List Connector)
    (hblank : Text.isBlank c = false) :
    (∃ part ∈ (mk (front ++ c :: back) 0).splitChain connectors,
        part.expression.start ≤ Text.size front ∧ Text.size front < part.expression.stop) ∨
      ∃ point ∈ splitPoints false
          ((mk (front ++ c :: back) 0).matchesOf (finder connectors)),
        point.start ≤ Text.size front ∧ Text.size front < point.stop := by
  obtain ⟨pieces, hpieces, hranges, hparts, -⟩ := exists_pieces (front ++ c :: back) connectors
  rcases exists_trim_or_match hpieces hranges hblank with ⟨piece, hpiece, hplace⟩ | hpoint
  · have htrim := List.mem_map_of_mem (f := trim) hpiece
    rw [← hparts, List.mem_map] at htrim
    obtain ⟨part, hpart, hexpression⟩ := htrim
    exact .inl ⟨part, hpart, hexpression ▸ hplace⟩
  · exact .inr hpoint

/-- Splitting a chain loses nothing: there is one part more than there are split points,
each part is the trimmed text of the gap between two of them and keeps the connector in
front of the gap, and every other character is blank or belongs to a split point. -/
theorem splitChain_tiles (text : Text) (connectors : List Connector) :
    let points := splitPoints false ((mk text 0).matchesOf (finder connectors))
    let ranges := Match.gaps 0 (Text.size text) points
    let parts := (mk text 0).splitChain connectors
    parts.length = points.length + 1 ∧
      parts.map ChainPart.connector = none :: points.map (fun point => some point.label) ∧
      parts.map ChainPart.expression =
        ranges.map (fun range => (mk (text.slice range.1 range.2) range.1).trim) ∧
      (∀ (j : Nat) (part : ChainPart) (range : Nat × Nat),
        parts[j]? = some part → ranges[j]? = some range →
          range.1 ≤ part.expression.start ∧ part.expression.stop ≤ range.2) ∧
      (∀ part ∈ parts,
        text.slice part.expression.start part.expression.stop = part.expression.text) ∧
      ∀ (front : Text) (c : Char) (back : Text), text = front ++ c :: back →
        Text.isBlank c = false →
          (∃ part ∈ parts, part.expression.start ≤ Text.size front ∧
            Text.size front < part.expression.stop) ∨
          ∃ point ∈ points, point.start ≤ Text.size front ∧ Text.size front < point.stop := by
  intro points ranges parts
  obtain ⟨pieces, hpieces, hranges, hparts, hconnectors⟩ := exists_pieces text connectors
  change pieces.map range = ranges at hranges
  change parts.map ChainPart.expression = pieces.map trim at hparts
  have hmem := (liesIn_whole text).splitChain connectors
  refine ⟨?_, hconnectors, ?_, ?_, fun part hpart => (hmem part hpart).slice_eq, ?_⟩
  · have hlabels := congrArg List.length hconnectors
    rwa [List.length_map, List.length_cons, List.length_map] at hlabels
  · rw [hparts, ← hranges, List.map_map]
    apply List.map_congr_left
    intro piece hpiece
    exact congrArg (fun text => (mk text piece.start).trim) (hpieces piece hpiece).slice_eq.symm
  · intro j part range hpart hrange
    have hexpression := congrArg (·[j]?) hparts
    have hrange' := congrArg (·[j]?) hranges
    simp only [List.getElem?_map, hpart, hrange] at hexpression hrange'
    cases hpiece : pieces[j]? with
    | none => simp [hpiece] at hrange'
    | some piece =>
        simp only [hpiece, Option.map_some, Option.some.injEq] at hexpression hrange'
        rw [hexpression, ← hrange']
        exact trim_bounds piece
  · intro front c back htext hblank
    subst htext
    exact covers_splitChain connectors hblank

/-- The second part of a chain holds both bounds of its `BETWEEN`. -/
theorem splitChain_tiles_bounds :
    let text := "a = 1 AND b BETWEEN 2 AND 3 or (c = 4 OR d = 5) ".toList
    let points := splitPoints false ((mk text 0).matchesOf (finder [.and, .or]))
    let parts := (mk text 0).splitChain [.and, .or]
    points = [⟨.and, 6, 9⟩, ⟨.or, 28, 30⟩] ∧ parts.length = 3 ∧
      (∀ part, parts[1]? = some part → 9 ≤ part.expression.start ∧ part.expression.stop ≤ 28) ∧
      ∃ part ∈ parts, part.expression.start ≤ 26 ∧ 26 < part.expression.stop := by
  intro text points parts
  have hpoints : points = [⟨.and, 6, 9⟩, ⟨.or, 28, 30⟩] := by decide +kernel
  obtain ⟨hlength, -, -, hbounds, -, hcovers⟩ := splitChain_tiles text [.and, .or]
  refine ⟨hpoints, by rw [hlength]; exact congrArg (·.length + 1) hpoints, ?_, ?_⟩
  · intro part hpart
    exact hbounds 1 part (9, 28) hpart (by decide +kernel)
  · have hplace : Text.size "a = 1 AND b BETWEEN 2 AND ".toList = 26 := rfl
    rcases hcovers "a = 1 AND b BETWEEN 2 AND ".toList '3' " or (c = 4 OR d = 5) ".toList rfl
      (by decide) with hpart | ⟨point, hpoint, hstart, hstop⟩
    · exact hplace ▸ hpart
    · change point ∈ points at hpoint
      rw [hpoints] at hpoint
      simp only [List.mem_cons, List.not_mem_nil, or_false] at hpoint
      rcases hpoint with rfl | rfl
      · rw [hplace] at hstop
        contradiction
      · rw [hplace] at hstart
        contradiction

end Fragment

end SelectForm

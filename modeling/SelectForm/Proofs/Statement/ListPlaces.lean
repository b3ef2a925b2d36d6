import Mathlib
import SelectForm.Proofs.Lexis.Recut
import SelectForm.Proofs.Statement.ChainPlaces

/-!
# Where a list is split

A list is split at its separators: the commas of code outside all parentheses.  An item is
what stands between two of them, without the blanks around it.  By itself an item is read as
it is in the list: in front of it is a comma or blanks, which open nothing, and behind it is a
comma or a blank, which nothing in front of them is read together with.  So an item has no
separators of its own.
-/

namespace SelectForm

/-- The change of nesting over some cells. -/
def Cell.depth (cells : List Cell) : Int := (cells.map nesting).sum

/-- A comma of code outside all parentheses, at a byte offset of a text. -/
def Text.SeparatorAt (text : Text) (place : Nat) : Prop :=
  ∃ front cell back, text.cells = front ++ cell :: back ∧ cell.isCodeChar ',' = true ∧
    Cell.depth front = 0 ∧ size (Cell.text front) = place

namespace Cell

theorem depth_cons (cell : Cell) (cells : List Cell) :
    depth (cell :: cells) = cell.nesting + depth cells :=
  List.sum_cons

theorem depth_append (front back : List Cell) :
    depth (front ++ back) = depth front + depth back := by
  rw [depth, List.map_append, List.sum_append, depth, depth]

theorem nesting_of_comma {cell : Cell} (hcomma : cell.isCodeChar ',' = true) :
    cell.nesting = 0 := by
  simp only [isCodeChar, Bool.and_eq_true, beq_iff_eq] at hcomma
  simp [nesting, isCodeChar, hcomma.2]

/-- A comma is a mark of a list if it stands outside all parentheses. -/
theorem isTopLevel_comma {depth : Int} {cell : Cell} :
    (cell.isTopLevel depth = true ∧ cell.char = ',') ↔
      depth = 0 ∧ cell.isCodeChar ',' = true := by
  constructor
  · rintro ⟨htop, hchar⟩
    obtain ⟨⟨hdepth, hcode⟩, -⟩ := isTopLevel_iff.mp htop
    exact ⟨hdepth, by simp [isCodeChar, hcode, hchar]⟩
  · rintro ⟨hdepth, hcomma⟩
    have hnesting := nesting_of_comma hcomma
    simp only [isCodeChar, Bool.and_eq_true, beq_iff_eq] at hcomma
    exact ⟨by simp [isTopLevel, hdepth, hcomma.1, hnesting], hcomma.2⟩

end Cell

/-! ## Separators -/

namespace Match

variable {depth : Int} {before : Option Char} {offset : Nat} {cell : Cell} {cells : List Cell}
  {found : Match Unit}

/-- The walk over the cells of a list. -/
theorem walk_comma_cons (depth : Int) (before : Option Char) (offset : Nat) (cell : Cell)
    (rest : List Cell) :
    walk Finder.comma 0 depth before offset (cell :: rest) =
      if depth = 0 ∧ cell.isCodeChar ',' = true then
        ⟨(), offset, offset + 1⟩ ::
          walk Finder.comma 0 0 (some cell.char) (offset + cell.char.utf8Size) rest
      else
        walk Finder.comma 0 (depth + cell.nesting) (some cell.char)
          (offset + cell.char.utf8Size) rest := by
  rw [walk_cons]
  by_cases hcomma : depth = 0 ∧ cell.isCodeChar ',' = true
  · obtain ⟨htop, hchar⟩ := Cell.isTopLevel_comma.mpr hcomma
    have hsize : Text.size [','] = 1 := by decide
    rw [if_pos hcomma, if_pos htop]
    simp [Finder.comma, hchar, Cell.text, hcomma.1, hsize]
  · have hnone : (if cell.isTopLevel depth then Finder.comma before (cell :: rest) else none) =
        none := by
      split
      next htop =>
        have hchar : cell.char ≠ ',' := fun hchar =>
          hcomma (Cell.isTopLevel_comma.mp ⟨htop, hchar⟩)
        exact if_neg hchar
      next => rfl
    rw [if_neg hcomma, hnone]

/-- The walk finds the commas of code outside all parentheses. -/
theorem mem_walk_comma :
    found ∈ walk Finder.comma 0 depth before offset cells ↔
      ∃ front cell back, cells = front ++ cell :: back ∧ cell.isCodeChar ',' = true ∧
        depth + Cell.depth front = 0 ∧
        found = ⟨(), offset + Text.size (Cell.text front),
          offset + Text.size (Cell.text front) + 1⟩ := by
  induction cells generalizing depth before offset with
  | nil => simp [walk]
  | cons cell rest ih =>
      have htail : found ∈ walk Finder.comma 0 (depth + cell.nesting) (some cell.char)
            (offset + cell.char.utf8Size) rest ↔
          ∃ front other back, rest = front ++ other :: back ∧ other.isCodeChar ',' = true ∧
            depth + Cell.depth (cell :: front) = 0 ∧
            found = ⟨(), offset + Text.size (Cell.text (cell :: front)),
              offset + Text.size (Cell.text (cell :: front)) + 1⟩ := by
        rw [ih]
        simp only [Cell.depth_cons, Cell.text, List.map_cons, Text.size_cons, Nat.add_assoc,
          Int.add_assoc]
      rw [walk_comma_cons]
      constructor
      · intro hfound
        split at hfound
        next hcomma =>
          rcases List.mem_cons.mp hfound with rfl | hfound
          · exact ⟨[], cell, rest, rfl, hcomma.2, by rw [hcomma.1]; rfl, rfl⟩
          · rw [← Cell.nesting_of_comma hcomma.2, ← zero_add cell.nesting, ← hcomma.1] at hfound
            obtain ⟨front, other, back, rfl, hother, hdepth, rfl⟩ := htail.mp hfound
            exact ⟨cell :: front, other, back, rfl, hother, hdepth, rfl⟩
        next =>
          obtain ⟨front, other, back, rfl, hother, hdepth, rfl⟩ := htail.mp hfound
          exact ⟨cell :: front, other, back, rfl, hother, hdepth, rfl⟩
      · rintro ⟨front, other, back, hcells, hother, hdepth, rfl⟩
        cases front with
        | nil =>
            obtain ⟨rfl, rfl⟩ := List.cons.inj hcells
            have hcomma : depth = 0 ∧ cell.isCodeChar ',' = true :=
              ⟨by simpa [Cell.depth] using hdepth, hother⟩
            rw [if_pos hcomma]
            exact List.mem_cons_self
        | cons first front =>
            obtain ⟨rfl, rfl⟩ := List.cons.inj hcells
            have hmem := htail.mpr ⟨front, other, back, rfl, hother, hdepth, rfl⟩
            split
            next hcomma =>
              rw [Cell.nesting_of_comma hcomma.2, hcomma.1, zero_add] at hmem
              exact List.mem_cons_of_mem _ hmem
            next => exact hmem

theorem pairwise_walk_comma (depth : Int) (before : Option Char) (offset : Nat)
    (cells : List Cell) :
    (walk Finder.comma 0 depth before offset cells).Pairwise
      fun one other => one.stop ≤ other.start := by
  induction cells generalizing depth before offset with
  | nil => exact List.Pairwise.nil
  | cons cell rest ih =>
      rw [walk_comma_cons]
      split
      · refine List.pairwise_cons.mpr ⟨fun other hother => ?_, ih _ _ _⟩
        obtain ⟨front, -, -, -, -, -, rfl⟩ := mem_walk_comma.mp hother
        have hsize := cell.char.utf8Size_pos
        show offset + 1 ≤ offset + cell.char.utf8Size + _
        omega
      · exact ih _ _ _

/-! ## Gaps -/

variable {α : Type} {first last : Nat} {points : List (Match α)} {gap : Nat × Nat}

theorem exists_of_mem_gaps (hgap : gap ∈ gaps first last points) :
    (gap.1 = first ∨ ∃ point ∈ points, gap.1 = point.stop) ∧
      (gap.2 = last ∨ ∃ point ∈ points, gap.2 = point.start) := by
  induction points generalizing first with
  | nil =>
      obtain rfl := List.mem_singleton.mp hgap
      exact ⟨.inl rfl, .inl rfl⟩
  | cons found rest ih =>
      rcases List.mem_cons.mp hgap with rfl | hgap
      · exact ⟨.inl rfl, .inr ⟨found, List.mem_cons_self, rfl⟩⟩
      · have hrest : ∀ {P : Match α → Prop}, (∃ point ∈ rest, P point) →
            ∃ point ∈ found :: rest, P point := fun ⟨point, hpoint, hP⟩ =>
          ⟨point, List.mem_cons_of_mem _ hpoint, hP⟩
        obtain ⟨hstart, hstop⟩ := ih hgap
        refine ⟨?_, hstop.imp id hrest⟩
        rcases hstart with hstart | hstart
        · exact .inr ⟨found, List.mem_cons_self, hstart⟩
        · exact .inr (hrest hstart)

/-- The gaps between matches that stand one behind the other come in order, with a match
between two of them, and hold no match. -/
theorem pairwise_gaps (hpoints : points.Pairwise fun one other => one.stop ≤ other.start)
    (hlength : ∀ point ∈ points, point.start < point.stop) :
    (gaps first last points).Pairwise (fun one other => one.2 < other.1) ∧
      ∀ gap ∈ gaps first last points, ∀ point ∈ points,
        point.stop ≤ gap.1 ∨ gap.2 ≤ point.start := by
  induction points generalizing first with
  | nil =>
      refine ⟨List.pairwise_singleton _ _, fun _ _ => List.forall_mem_nil _⟩
  | cons found rest ih =>
      obtain ⟨hfound, hrest⟩ := List.pairwise_cons.mp hpoints
      obtain ⟨hfoundLength, hrestLength⟩ := List.forall_mem_cons.mp hlength
      obtain ⟨hpairwise, happart⟩ := @ih found.stop hrest hrestLength
      -- Behind the first match all gaps begin.
      have hbehind : ∀ gap ∈ gaps found.stop last rest, found.stop ≤ gap.1 := by
        intro gap hgap
        rcases (exists_of_mem_gaps hgap).1 with hstart | ⟨point, hpoint, hstart⟩
        · exact hstart.ge
        · have hpointStart := hfound point hpoint
          have hpointLength := hrestLength point hpoint
          omega
      rw [gaps]
      refine ⟨List.pairwise_cons.mpr ⟨fun gap hgap => ?_, hpairwise⟩, ?_⟩
      · exact hfoundLength.trans_le (hbehind gap hgap)
      · refine List.forall_mem_cons.mpr ⟨?_, fun gap hgap => ?_⟩
        · refine List.forall_mem_cons.mpr ⟨.inr le_rfl, fun point hpoint => .inr ?_⟩
          exact hfoundLength.le.trans (hfound point hpoint)
        · exact List.forall_mem_cons.mpr ⟨.inl (hbehind gap hgap), happart gap hgap⟩

end Match

/-! ## Items -/

namespace Fragment

variable {whole : Text} {part item : Fragment}

/-- Segments and the part in front of them stand in the gaps between their marks. -/
theorem map_range_segments {α : Type} {segments : List (Segment α)} {last : Nat}
    (hlies : part.LiesIn whole) (htile : Segment.Tile whole part.stop segments)
    (hend : part.stop + Text.size (Cut.textOf (segments.map Segment.cut)) = last) :
    (part :: segments.map Segment.body).map range =
      Match.gaps part.start last (segments.map Segment.found) := by
  induction segments generalizing part with
  | nil =>
      have hstop : part.stop = last := by simpa [Cut.textOf] using hend
      simp [range, Match.gaps, hstop]
  | cons segment rest ih =>
      obtain ⟨hmark, hstart, hbody, hbodyStart, hrest⟩ := htile
      have hsize : Text.size (Cut.textOf ((segment :: rest).map Segment.cut)) =
          Text.size segment.mark.text + (Text.size segment.body.text +
            Text.size (Cut.textOf (rest.map Segment.cut))) := by
        simp [Cut.textOf, Segment.cut]
      have hbehind := ih hbody hrest (by
        rw [hsize] at hend
        rw [stop, hbodyStart, stop, hstart]
        omega)
      have hparts : (part :: (segment :: rest).map Segment.body).map range =
          range part :: (segment.body :: rest.map Segment.body).map range := rfl
      rw [hparts, hbehind, hbodyStart, range, ← hstart]
      rfl

/-- The pieces of a list that are trimmed to its items. -/
theorem LiesIn.exists_pieces {fragment : Fragment} (hlies : fragment.LiesIn whole) :
    ∃ pieces : List Fragment,
      (∀ piece ∈ pieces, piece.LiesIn whole) ∧
        pieces.map range =
          Match.gaps fragment.start fragment.stop (fragment.matchesOf Finder.comma) ∧
        fragment.splitList = pieces.map Fragment.trim := by
  obtain ⟨hhead, htile⟩ := hlies.segment Finder.comma
  have hranges := map_range_segments hhead htile (stop_segment Finder.comma fragment)
  rw [map_found_segment] at hranges
  refine ⟨_, List.forall_mem_cons.mpr ⟨hhead, ?_⟩, hranges, ?_⟩
  · exact List.forall_mem_map.mpr fun segment hmem => (htile.liesIn segment hmem).2
  · rw [Fragment.splitList, List.map_cons, List.map_map]
    rfl

theorem exists_pieces_splitList (text : Text) :
    ∃ pieces : List Fragment,
      (∀ piece ∈ pieces, piece.LiesIn text) ∧
        pieces.map range =
          Match.gaps 0 (Text.size text) ((mk text 0).matchesOf Finder.comma) ∧
        (mk text 0).splitList = pieces.map trim :=
  stop_whole text ▸ (liesIn_whole text).exists_pieces

/-- The matches of a list are its separators. -/
theorem mem_matchesOf_comma (text : Text) (point : Match Unit) :
    point ∈ (mk text 0).matchesOf Finder.comma ↔
      text.SeparatorAt point.start ∧ point.stop = point.start + 1 := by
  rw [matchesOf, Match.mem_walk_comma]
  simp only [zero_add]
  constructor
  · rintro ⟨front, cell, back, hcells, hcomma, hdepth, rfl⟩
    exact ⟨⟨front, cell, back, hcells, hcomma, hdepth, rfl⟩, rfl⟩
  · rintro ⟨⟨front, cell, back, hcells, hcomma, hdepth, hplace⟩, hstop⟩
    refine ⟨front, cell, back, hcells, hcomma, hdepth, ?_⟩
    rw [hplace, ← hstop]

theorem pairwise_matchesOf_comma (text : Text) :
    ((mk text 0).matchesOf Finder.comma).Pairwise fun one other => one.stop ≤ other.start :=
  Match.pairwise_walk_comma _ _ _ _

/-- A trimmed text without separators is the single item of its list. -/
theorem splitList_of_no_separator {text : Text} (htrim : Text.trim text = text)
    (hleading : Text.leading text = []) (hnone : ∀ place, ¬ text.SeparatorAt place) :
    (mk text 0).splitList = [⟨text, 0⟩] := by
  have hpoints : (mk text 0).matchesOf Finder.comma = [] := by
    refine List.eq_nil_iff_forall_not_mem.mpr fun point hpoint => ?_
    exact hnone _ ((mem_matchesOf_comma text point).mp hpoint).1
  obtain ⟨pieces, hlies, hranges, hitems⟩ := exists_pieces_splitList text
  rw [hpoints, Match.gaps, List.map_eq_singleton_iff] at hranges
  obtain ⟨piece, rfl, hrange⟩ := hranges
  obtain ⟨hstart, hstop⟩ := Prod.mk.inj hrange
  have htext := (hlies piece List.mem_cons_self).slice_eq
  have hwhole := (liesIn_whole text).slice_eq
  rw [hstart, hstop] at htext
  have hsize : (mk text 0).stop = Text.size text := Nat.zero_add _
  rw [hsize, htext] at hwhole
  rw [hitems, List.map_singleton, trim, hwhole]
  simp [hstart, htrim, hleading]

/-! ## An item by itself -/

variable {text : Text}

/-- In front of a piece of a list code is read, outside all parentheses. -/
theorem exists_front {start : Nat}
    (hstart : start = 0 ∨ ∃ point ∈ (mk text 0).matchesOf Finder.comma, start = point.stop) :
    ∃ front mode rest, (mode = .between ∨ mode = .code) ∧
      text.cells = front ++ Mode.cells mode rest ∧ Cell.depth front = 0 ∧
      Text.size (Cell.text front) = start := by
  rcases hstart with rfl | ⟨point, hpoint, rfl⟩
  · exact ⟨[], .between, text, .inl rfl, rfl, rfl, rfl⟩
  · obtain ⟨⟨front, cell, back, hcells, hcomma, hdepth, hplace⟩, hstop⟩ :=
      (mem_matchesOf_comma text point).mp hpoint
    obtain ⟨behind, -, -, hbehind⟩ := Mode.exists_of_cells hcells
    have hstep : cell = (behind.step cell.char (Cell.text back).head?).1 ∧
        back = (behind.step cell.char (Cell.text back).head?).2.cells (Cell.text back) :=
      List.cons.inj hbehind
    have hchar : cell.isCode = true ∧ cell.char = ',' := by
      simpa [Cell.isCodeChar] using hcomma
    have hcode := @Mode.step_code behind cell.char (Cell.text back).head?
      (by rw [hchar.2]; decide) (by rw [hchar.2]; decide) (hstep.1 ▸ hchar.1)
    rw [hcode.2] at hstep
    refine ⟨front ++ [cell], .code, Cell.text back, .inr rfl, ?_, ?_, ?_⟩
    · rw [hcells, ← hstep.2, List.append_assoc, List.singleton_append]
    · rw [Cell.depth_append, hdepth, Cell.depth_cons, Cell.nesting_of_comma hcomma]
      rfl
    · have hsize : Text.size (Cell.text [cell]) = 1 := by
        rw [Cell.text, List.map_singleton, hchar.2]
        decide
      rw [Cell.text_append, Text.size_append, hplace, hsize, hstop]

/-- Behind a piece of a list is its end or a comma. -/
theorem isInert_behind {before piece behind : Text} (htext : text = before ++ (piece ++ behind))
    (hstop : Text.size (before ++ piece) = Text.size text ∨
      ∃ point ∈ (mk text 0).matchesOf Finder.comma, Text.size (before ++ piece) = point.start) :
    ∀ c ∈ behind.head?, Text.isInert c = true := by
  rw [← List.append_assoc] at htext
  rcases hstop with hstop | ⟨point, hpoint, hstop⟩
  · have hnil : before ++ piece = text ∧ behind = [] :=
      LiesIn.eq_of_size_eq (by rw [← htext, List.append_nil]) hstop
    simp [hnil.2]
  · obtain ⟨⟨front, cell, back, hcells, hcomma, -, hplace⟩, -⟩ :=
      (mem_matchesOf_comma text point).mp hpoint
    have hwhole := congrArg Cell.text hcells
    rw [Text.cells, Mode.text_cells, Cell.text_append] at hwhole
    have hbehind := (LiesIn.eq_of_size_eq (htext.symm.trans hwhole) (hstop.trans hplace.symm)).2
    simp only [Cell.isCodeChar, Bool.and_eq_true, beq_iff_eq] at hcomma
    intro c hc
    rw [hbehind, Cell.text, List.map_cons, List.head?_cons, Option.mem_some_iff, hcomma.2] at hc
    rw [← hc]
    decide

end Fragment

namespace Cell

theorem depth_of_isBlank {cells : List Cell}
    (hblank : ∀ c ∈ text cells, Text.isBlank c = true) : depth cells = 0 := by
  induction cells with
  | nil => rfl
  | cons cell cells ih =>
      obtain ⟨hcell, hcells⟩ := List.forall_mem_cons.mp hblank
      have hopen : cell.char ≠ '(' := fun heq => absurd (heq ▸ hcell) (by decide)
      have hclose : cell.char ≠ ')' := fun heq => absurd (heq ▸ hcell) (by decide)
      rw [depth_cons, ih hcells]
      simp [nesting, isCodeChar, hopen, hclose]

theorem depth_of_faces {cells cells' : List Cell} (hfaces : cells.map face = cells'.map face) :
    depth cells = depth cells' := by
  have hdepth : ∀ cells : List Cell,
      depth cells = ((cells.map face).map fun pair => nesting ⟨pair.1, pair.2, false⟩).sum := by
    intro cells
    rw [depth, List.map_map]
    rfl
  rw [hdepth, hfaces, ← hdepth]

end Cell

/-- Where code is read, the cells of a text that is trimmed are among the cells that are read, and
only its leading blanks are in front of them. -/
theorem Mode.exists_trimmed {mode : Mode} {behind : Text} (hmode : mode = .between ∨ mode = .code)
    (piece : Text) (hinert : ∀ c ∈ behind.head?, Text.isInert c = true) :
    ∃ blanks cells back, mode.cells (piece ++ behind) = blanks ++ (cells ++ back) ∧
      Cell.text blanks = Text.leading piece ∧
      cells.map Cell.face = (Text.trim piece).cells.map Cell.face := by
  obtain ⟨trail, hpiece, htrail⟩ := Fragment.exists_trail piece
  have hread := Mode.text_cells mode (piece ++ behind)
  rw [hpiece, List.append_assoc, List.append_assoc] at hread
  obtain ⟨blanks, others, hparts, hblanks, hothers⟩ := List.map_eq_append_iff.mp hread
  obtain ⟨cells, back, rfl, htrim, hback⟩ := List.map_eq_append_iff.mp hothers
  obtain ⟨inner, -, hinner, hcells⟩ := Mode.exists_of_cells hparts
  have hplain : ∀ c ∈ Cell.text blanks,
      Quote.ofChar? c = none ∧ c ≠ '-' ∧ c ≠ '/' := by
    intro c hc
    rw [Cell.text, hblanks] at hc
    exact Text.plain_of_isBlank (List.mem_takeWhile_imp hc)
  have hnext : ∀ c ∈ (Cell.text back).head?, Text.isInert c = true := by
    rw [Cell.text, hback]
    cases trail with
    | nil => exact hinert
    | cons d trail =>
        intro c hc
        obtain rfl := Option.mem_some_iff.mp hc
        exact Text.isInert_of_isBlank (htrail d List.mem_cons_self)
  refine ⟨blanks, cells, back, ?_, hblanks, ?_⟩
  · rw [← hparts]
    conv_lhs => rw [hpiece, List.append_assoc, List.append_assoc]
  · rw [Mode.faces_front (hinner ▸ Mode.behind_plain hmode hplain) hcells.symm hnext]
    exact congrArg (fun text : Text => text.cells.map Cell.face) htrim

namespace Fragment

variable {text : Text} {item : Fragment}

/-- An item stands outside all parentheses, and among the cells of the text are the cells that it
has by itself. -/
theorem exists_cells_of_mem_splitList (hitem : item ∈ (mk text 0).splitList) :
    ∃ front cells back, text.cells = front ++ (cells ++ back) ∧ Cell.depth front = 0 ∧
      Text.size (Cell.text front) = item.start ∧
      cells.map Cell.face = item.text.cells.map Cell.face := by
  obtain ⟨pieces, hlies, hranges, hitems⟩ := exists_pieces_splitList text
  rw [hitems, List.mem_map] at hitem
  obtain ⟨piece, hpiece, rfl⟩ := hitem
  have hgap := List.mem_map_of_mem (f := range) hpiece
  rw [hranges] at hgap
  obtain ⟨hstart, hstop⟩ := Match.exists_of_mem_gaps hgap
  obtain ⟨front, mode, rest, hmode, hcells, hdepth, hsize⟩ := exists_front hstart
  obtain ⟨before, behind, htext, hbefore⟩ := hlies piece hpiece
  have hinert := isInert_behind htext (by
    rw [Text.size_append, ← hbefore]
    exact hstop)
  -- The cells behind the front are read as the piece and what is behind it.
  have hrest : rest = piece.text ++ behind := by
    have hwhole := congrArg Cell.text hcells
    rw [Text.cells, Mode.text_cells, Cell.text_append, Mode.text_cells, htext] at hwhole
    exact (LiesIn.eq_of_size_eq hwhole (hbefore.symm.trans hsize.symm)).2.symm
  subst hrest
  obtain ⟨blanks, cells, back, hparts, hblanks, hfaces⟩ := Mode.exists_trimmed hmode piece.text hinert
  have hblank : ∀ c ∈ Cell.text blanks, Text.isBlank c = true := by
    rw [hblanks]
    exact fun c hc => List.mem_takeWhile_imp hc
  refine ⟨front ++ blanks, cells, back, ?_, ?_, ?_, hfaces⟩
  · rw [hcells, hparts, List.append_assoc]
  · rw [Cell.depth_append, hdepth, Cell.depth_of_isBlank hblank]
    rfl
  · rw [Cell.text_append, Text.size_append, hsize, hblanks]
    rfl

/-- A separator of an item would be a separator of the list. -/
theorem separatorAt_of_item {place : Nat} (hitem : item ∈ (mk text 0).splitList)
    (hplace : item.text.SeparatorAt place) :
    text.SeparatorAt (item.start + place) ∧ item.start + place < item.stop := by
  obtain ⟨front, cells, back, hcells, hdepth, hstart, hfaces⟩ :=
    exists_cells_of_mem_splitList hitem
  obtain ⟨first, cell, others, hitemCells, hcomma, hfirst, rfl⟩ := hplace
  rw [hitemCells, List.map_append, List.map_cons] at hfaces
  obtain ⟨first', others', rfl, hfirstFaces, hothers⟩ := List.map_eq_append_iff.mp hfaces
  obtain ⟨cell', others', rfl, hcell, -⟩ := List.map_eq_cons_iff.mp hothers
  have hcomma' : cell'.isCodeChar ',' = true := by
    obtain ⟨hchar, hkind⟩ := Prod.mk.inj hcell
    rwa [Cell.isCodeChar, Cell.isCode, hchar, hkind]
  constructor
  · refine ⟨front ++ first', cell', others' ++ back, ?_, hcomma', ?_, ?_⟩
    · rw [hcells]
      simp
    · rw [Cell.depth_append, hdepth, Cell.depth_of_faces hfirstFaces, hfirst]
      rfl
    · rw [Cell.text_append, Text.size_append, hstart, Cell.text_of_faces hfirstFaces]
  · have htext := congrArg Cell.text hitemCells
    rw [Text.cells, Mode.text_cells, Cell.text_append] at htext
    have hsize := congrArg Text.size htext
    have hcellSize := cell.char.utf8Size_pos
    rw [Text.size_append] at hsize
    have hcons : Text.size (Cell.text (cell :: others)) =
        cell.char.utf8Size + Text.size (Cell.text others) := rfl
    rw [stop]
    omega

/-- An item by itself is the single item of its text. -/
theorem splitList_item (hitem : item ∈ (mk text 0).splitList) :
    (mk item.text 0).splitList = [⟨item.text, 0⟩] := by
  obtain ⟨pieces, -, hranges, hitems⟩ := exists_pieces_splitList text
  have hleading := leading_of_mem_splitList hitem
  have hmem := hitem
  rw [hitems, List.mem_map] at hmem
  obtain ⟨piece, hpiece, rfl⟩ := hmem
  have hgap := List.mem_map_of_mem (f := range) hpiece
  rw [hranges] at hgap
  refine splitList_of_no_separator (congrArg Fragment.text (trim_trim piece)) hleading fun place hplace => ?_
  obtain ⟨hseparator, hinside⟩ := separatorAt_of_item hitem hplace
  have hpoint := (mem_matchesOf_comma text
    ⟨(), piece.trim.start + place, piece.trim.start + place + 1⟩).mpr ⟨hseparator, rfl⟩
  have happart := (Match.pairwise_gaps (pairwise_matchesOf_comma text) fun point hpoint => by
    have hstop := ((mem_matchesOf_comma text point).mp hpoint).2
    omega).2 _ hgap _ hpoint
  -- The item lies in a gap, and the separator would stand inside the item.
  obtain ⟨hstart, hstop⟩ := trim_bounds piece
  simp only [range] at happart
  omega

/-! ## The list as a whole -/

/-- Splitting a list loses nothing and leaves items that are split no further: the separators
are the commas of code outside all parentheses, each item is the trimmed text of the gap
between two of them, the items come in order, every other character is blank or a separator,
and an item that is split again is its own single item. -/
theorem splitList_tiles (text : Text) :
    let points := (mk text 0).matchesOf Finder.comma
    let ranges := Match.gaps 0 (Text.size text) points
    let items := (mk text 0).splitList
    (∀ point, point ∈ points ↔
        text.SeparatorAt point.start ∧ point.stop = point.start + 1) ∧
      points.Pairwise (fun one other => one.stop ≤ other.start) ∧
      items = ranges.map (fun range => (mk (text.slice range.1 range.2) range.1).trim) ∧
      (∀ item ∈ items, text.slice item.start item.stop = item.text) ∧
      items.Pairwise (fun one other => one.stop < other.start) ∧
      (∀ (front : Text) (c : Char) (back : Text), text = front ++ c :: back →
        Text.isBlank c = false →
          (∃ item ∈ items, item.start ≤ Text.size front ∧ Text.size front < item.stop) ∨
          ∃ point ∈ points, point.start ≤ Text.size front ∧ Text.size front < point.stop) ∧
      ∀ item ∈ items, (mk item.text 0).splitList = [⟨item.text, 0⟩] := by
  intro points ranges items
  obtain ⟨pieces, hpieces, hranges, hitems⟩ := exists_pieces_splitList text
  change pieces.map range = ranges at hranges
  change items = pieces.map trim at hitems
  have hpoints := pairwise_matchesOf_comma text
  have hlength : ∀ point ∈ points, point.start < point.stop := by
    intro point hpoint
    have hstop := ((mem_matchesOf_comma text point).mp hpoint).2
    omega
  refine ⟨mem_matchesOf_comma text, hpoints, ?_, ?_, ?_, ?_, fun item => splitList_item⟩
  · rw [hitems, ← hranges, List.map_map]
    apply List.map_congr_left
    intro piece hpiece
    exact congrArg (fun text => (mk text piece.start).trim) (hpieces piece hpiece).slice_eq.symm
  · intro item hitem
    exact ((liesIn_whole text).splitList item hitem).slice_eq
  · have hgaps : ranges.Pairwise fun one other => one.2 < other.1 :=
      (Match.pairwise_gaps hpoints hlength).1
    rw [← hranges, List.pairwise_map] at hgaps
    rw [hitems, List.pairwise_map]
    refine hgaps.imp fun {one other} hbetween => ?_
    have hone := (trim_bounds one).2
    have hother := (trim_bounds other).1
    simp only [range] at hbetween
    omega
  · rintro front c back rfl hblank
    rcases exists_trim_or_match hpieces hranges hblank with ⟨piece, hpiece, hplace⟩ | hpoint
    · exact .inl ⟨piece.trim, hitems ▸ List.mem_map_of_mem hpiece, hplace⟩
    · exact .inr hpoint

/-- Commas in parentheses, in a literal and in a comment do not split, and a literal that is left
open stays in its item. -/
theorem splitList_tiles_hidden :
    let text := "f(a, b) , 'é,' -- ,\n,, \"x,".toList
    let items := (mk text 0).splitList
    items.map Fragment.toString = ["f(a, b)", "'é,' -- ,", "", "\"x,"] ∧
      (∃ item ∈ items, item.start ≤ 11 ∧ 11 < item.stop) ∧
      ∀ item ∈ items, (mk item.text 0).splitList = [⟨item.text, 0⟩] := by
  intro text items
  obtain ⟨-, -, -, -, -, hcovers, hatomic⟩ := splitList_tiles text
  have houtside : ∀ point ∈ (mk text 0).matchesOf Finder.comma,
      ¬ (point.start ≤ 11 ∧ 11 < point.stop) := by decide +kernel
  have hplace : Text.size "f(a, b) , '".toList = 11 := rfl
  refine ⟨by decide +kernel, ?_, hatomic⟩
  rcases hcovers "f(a, b) , '".toList 'é' ",' -- ,\n,, \"x,".toList rfl (by decide) with
    hitem | ⟨point, hpoint, hcovered⟩
  · exact hplace ▸ hitem
  · rw [hplace] at hcovered
    exact absurd hcovered (houtside point hpoint)

end Fragment

end SelectForm

import Mathlib
import SelectForm.Proofs.Statement.JoinChain
import SelectForm.Proofs.Statement.ReadLocated

/-!
# Tables and joins of one clause

FROM is read by two readers, one behind the other.  The first stops in front of the first keyword of
a join; the second searches the same text again, from there on.  Both see the same keywords, so no
text is left between them: every table and every join is read once.
-/

namespace SelectForm

/-! ## The text in front of the first mark -/

/-- The cells of a text: blanks, what is in front of the first mark, and the marks with all that is
behind them.  The marks are the same from each of the three places on. -/
structure Text.Fronts {α : Type} (find : Finder α) (text : Text) (blanks front behind : List Cell)
    (cuts : List (Cut α)) : Prop where
  cells : text.cells = blanks ++ (front ++ behind)
  blank : ∀ c ∈ Cell.text blanks, isAsciiBlank c = true
  filled : ∀ c ∈ (Cell.text (front ++ behind)).head?, isAsciiBlank c = false
  faces : front.map Cell.face = (Cell.text front).cells.map Cell.face
  letter : ∀ c ∈ (Cell.text behind).head?, c.isAlpha = true
  whole : cutCells find 0 0 none text.cells = (Cell.text (blanks ++ front), cuts)
  unblanked : cutCells find 0 0 (Cell.text blanks).getLast? (front ++ behind) =
    (Cell.text front, cuts)
  marked : cutCells find 0 0 (Cell.text (blanks ++ front)).getLast? behind = ([], cuts)

theorem Text.exists_fronts {α : Type} {keywords : List (Keyword × α)}
    (hphrases : Finder.ArePhrases keywords) (text : Text) :
    ∃ blanks front behind cuts, text.Fronts (.ofKeywords keywords) blanks front behind cuts := by
  obtain ⟨blanks, mode, hcells, hblanks, hmode⟩ := Mode.exists_blanks text
  have hblank : ∀ c ∈ Cell.text blanks, isAsciiBlank c = true := by
    rw [hblanks]
    exact fun c hc => List.mem_takeWhile_imp hc
  have hwhole := @cutCells_blanks _ keywords none blanks
    (mode.cells (text.dropWhile isAsciiBlank)) 0 hphrases hblank
  have htext := text_cutCells (.ofKeywords keywords) 0 0 (Cell.text blanks).getLast?
    (mode.cells (text.dropWhile isAsciiBlank))
  rw [← hcells, Option.or_none] at hwhole
  rw [List.drop_zero, Mode.text_cells] at htext
  have hfilled : ∀ c ∈ (text.dropWhile isAsciiBlank).head?, isAsciiBlank c = false := by
    intro c hc
    have hfirst := List.head?_dropWhile_not isAsciiBlank text
    rw [Option.mem_def.mp hc] at hfirst
    simpa using hfirst
  rw [← Mode.text_cells mode (text.dropWhile isAsciiBlank)] at hfilled
  cases hcuts : cutCells (.ofKeywords keywords) 0 0 (Cell.text blanks).getLast?
      (mode.cells (text.dropWhile isAsciiBlank)) with
  | mk head cuts =>
      rw [hcuts] at hwhole htext
      cases cuts with
      | nil =>
          obtain rfl : head = text.dropWhile isAsciiBlank := by simpa [Cut.textOf] using htext
          have hfront := Mode.text_cells mode (text.dropWhile isAsciiBlank)
          refine ⟨blanks, mode.cells (text.dropWhile isAsciiBlank), [], [], ?_⟩
          exact {
            cells := by rwa [List.append_nil]
            blank := hblank
            filled := by rwa [List.append_nil]
            faces := hfront.symm ▸ Mode.faces_eq hmode _
            letter := by simp [Cell.text]
            whole := by
              rw [hwhole, Cell.text_append, hfront]
              rfl
            unblanked := by rw [List.append_nil, hcuts, hfront]
            marked := rfl }
      | cons cut cuts =>
          obtain ⟨keyword, front, mark, back, hmem, hparts, hfront, hmark, -, hfits, hmarked, -⟩ :=
            exists_of_firstCut hphrases hcuts
          obtain ⟨⟨c, hc, hletter⟩, -⟩ := Keyword.ends_of_spells (hphrases _ hmem) hfits.spells
          have hhead : ∀ d ∈ (Cell.text (mark ++ back)).head?, d.isAlpha = true := by
            intro d hd
            rw [Cell.text_append, hmark, List.head?_append, hc] at hd
            exact Option.mem_some_iff.mp hd ▸ hletter
          refine ⟨blanks, front, mark ++ back, cut :: cuts, ?_⟩
          exact {
            cells := hparts ▸ hcells
            blank := hblank
            filled := hparts ▸ hfilled
            faces := Mode.faces_front hmode hparts fun d hd => isInert_of_isAlpha (hhead d hd)
            letter := hhead
            whole := by
              rw [hwhole, Cell.text_append, hfront]
              rfl
            unblanked := by rw [← hparts, hcuts, hfront]
            marked := by rwa [Cell.text_append, List.getLast?_append, hfront] }

namespace Text.Fronts

variable {α : Type} {find : Finder α} {text : Text} {blanks front behind : List Cell}
  {cuts : List (Cut α)}

theorem text_eq (hfronts : text.Fronts find blanks front behind cuts) :
    text = Cell.text (blanks ++ front) ++ Cell.text behind := by
  have htext := congrArg Cell.text hfronts.cells
  rwa [Text.cells, Mode.text_cells, ← List.append_assoc, Cell.text_append] at htext

theorem segment_whole (hfronts : text.Fronts find blanks front behind cuts) :
    (Fragment.mk text 0).segment find =
      ⟨⟨Cell.text (blanks ++ front), 0⟩,
        Segmentation.place (size (Cell.text (blanks ++ front))) cuts⟩ := by
  rw [Fragment.segment, Segmentation.ofCells, hfronts.whole]
  simp only [Nat.zero_add]

/-- The first mark stands where the text in front of it ends, or there is none up to the end. -/
theorem first_eq (hfronts : text.Fronts find blanks front behind cuts) :
    ((((Fragment.mk text 0).segment find).tail.head?.map fun segment =>
        segment.mark.start).getD (size text)) =
      size (Cell.text (blanks ++ front)) := by
  rw [hfronts.segment_whole]
  cases cuts with
  | cons cut cuts => rfl
  | nil =>
      have hbehind := text_cutCells find 0 0 (Cell.text (blanks ++ front)).getLast? behind
      rw [hfronts.marked, List.drop_zero] at hbehind
      have htext := hfronts.text_eq
      rw [← hbehind] at htext
      have hnil : text = Cell.text (blanks ++ front) := by simpa [Cut.textOf] using htext
      exact congrArg size hnil

theorem liesIn (hfronts : text.Fronts find blanks front behind cuts) :
    (Fragment.mk (Cell.text front) (size (Cell.text blanks))).LiesIn text := by
  refine ⟨Cell.text blanks, Cell.text behind, ?_, rfl⟩
  rw [← List.append_assoc, ← Cell.text_append]
  exact hfronts.text_eq

end Text.Fronts

/-! ## The cursor at the first mark -/

namespace Cursor

variable {α : Type} {find : Finder α} {cursor : Cursor} {text : Text}
  {passed cells blanks front behind : List Cell} {cuts : List (Cut α)}

theorem Faces.segment_eq (hfaces : cursor.Faces passed cells) (find : Finder α) :
    cursor.segment find =
      .ofCells find (Cell.text passed).getLast? cells
        (cursor.offset + Text.size (Cell.text passed)) := by
  have hlength := hfaces.length_eq
  rw [segment, hfaces.ahead_eq, absolute, hfaces.position, min_eq_left (by omega)]
  rfl

theorem offset_skipBlanks (cursor : Cursor) : cursor.skipBlanks.offset = cursor.offset := by
  unfold skipBlanks
  split <;> rfl

/-- From the front a cursor that skips blanks stands behind them. -/
theorem faces_skipBlanks (hfronts : text.Fronts find blanks front behind cuts) :
    (skipBlanks { text }).Faces blanks (front ++ behind) := by
  have hfaces : Faces { text } [] text.cells := faces_start rfl
  rw [hfronts.cells] at hfaces
  exact hfaces.skipBlanks hfronts.blank hfronts.filled

theorem segment_skipBlanks (hfronts : text.Fronts find blanks front behind cuts) :
    (skipBlanks { text }).segment find =
      ⟨⟨Cell.text front, Text.size (Cell.text blanks)⟩,
        Segmentation.place (Text.size (Cell.text (blanks ++ front))) cuts⟩ := by
  rw [(faces_skipBlanks hfronts).segment_eq find, Segmentation.ofCells, hfronts.unblanked,
    offset_skipBlanks, Cell.text_append, Text.size_append]
  simp only [Nat.zero_add]

/-- At the first mark a cursor skips nothing, and finds the marks of the whole text. -/
theorem segment_marked (hfronts : text.Fronts find blanks front behind cuts)
    (hoffset : cursor.offset = 0) (hfaces : cursor.Faces (blanks ++ front) behind) :
    cursor.skipBlanks.ahead.cut = 0 ∧
      cursor.skipBlanks.segment find =
        ⟨⟨[], Text.size (Cell.text (blanks ++ front))⟩,
          ((Fragment.mk text 0).segment find).tail⟩ := by
  have hskip : cursor.skipBlanks.Faces (blanks ++ front ++ []) behind := by
    refine hfaces.skipBlanks (by simp [Cell.text]) fun c hc => ?_
    exact Text.not_isAsciiBlank_of_isAlpha (hfronts.letter c hc)
  rw [List.append_nil] at hskip
  rw [hskip.segment_eq find, hskip.ahead_eq, Segmentation.ofCells, hfronts.marked,
    offset_skipBlanks, hoffset, hfronts.segment_whole]
  simp

end Cursor

/-! ## The two readers -/

section

variable {text : Text} {blanks front behind : List Cell} {cuts : List (Cut JoinMark)}
  {cursor : Cursor}

/-- The tables are read from the items in front of the first join, and the cursor stands there. -/
theorem TableItem.exists_of_readList {tables : List TableItem}
    (hfronts : text.Fronts JoinMark.finder blanks front behind cuts)
    (hread : readList { text } = (.ok tables, cursor)) :
    (cursor.text = text ∧ cursor.offset = 0 ∧ cursor.Faces (blanks ++ front) behind) ∧
      List.Forall₂ (fun item table => read .from_ item = .ok table)
        (Fragment.mk (Cell.text front) (Text.size (Cell.text blanks))).splitList tables := by
  have hstart := Cursor.faces_skipBlanks hfronts
  have hsegment := Cursor.segment_skipBlanks hfronts
  have hskip := (@Cursor.skipBlanks_start { text } rfl).1
  have htext : (Cursor.skipBlanks { text }).text = text := by rw [hskip]
  have hoffset : (Cursor.skipBlanks { text }).offset = 0 := by rw [hskip]
  rw [← Cursor.joins_eq] at hsegment
  have hlength := hstart.length_eq
  have hplace : (Cursor.skipBlanks { text }).absolute (Cursor.skipBlanks { text }).position =
      Text.size (Cell.text blanks) := by
    rw [Cursor.absolute, hoffset, hstart.position, Nat.zero_add, min_eq_left (by omega)]
  have hbefore : (Cursor.skipBlanks { text }).beforeJoins = Cell.text front := by
    rw [Cursor.beforeJoins, hstart.ahead_eq, hsegment]
    rfl
  unfold readList at hread
  dsimp only at hread
  rw [hbefore, hplace, hsegment, hstart.ahead_eq] at hread
  split at hread
  · rename_i tables' hitems
    obtain ⟨htables, rfl⟩ := Prod.mk.inj hread
    obtain rfl := Except.ok.inj htables
    have hjump := hstart.jump
    rw [← Nat.zero_add (Text.size (Cell.text front))] at hjump
    exact ⟨⟨htext, hoffset, hjump.cells, hjump.position⟩,
      (forall₂_of_mapM hitems).imp fun _ _ => read_of_ite⟩
  · exact absurd (Prod.mk.inj hread).1 (by simp)

/-- From there on each join is read from the segment of its keyword. -/
theorem Join.readList_marked (hfronts : text.Fronts JoinMark.finder blanks front behind cuts)
    (hoffset : cursor.offset = 0) (hfaces : cursor.Faces (blanks ++ front) behind) :
    (readList cursor).1 = ((Fragment.mk text 0).segment JoinMark.finder).tail.mapM readSegment := by
  obtain ⟨hcut, hsegment⟩ := Cursor.segment_marked hfronts hoffset hfaces
  rw [← Cursor.joins_eq] at hsegment
  have hbefore : cursor.skipBlanks.beforeJoins = [] := by
    rw [Cursor.beforeJoins, hcut, hsegment]
    rfl
  unfold readList
  dsimp only
  rw [hbefore, hsegment]
  simp only [List.isEmpty_nil, Bool.not_true, Bool.and_false, Bool.false_eq_true, if_false]
  split
  · rename_i hjoins
    rw [hjoins]
  · rename_i hjoins
    rw [hjoins]

end

/-! ## Errors of a join -/

namespace ParseError.Cause

/-- The causes of errors in a join: its keyword, its table or its conditions. -/
def isOfJoin : Cause → Bool
  | crossJoin | naturalJoin | joinUsing | joinWithoutOn | derivedTable | invalidTable
  | invalidTableName _ | invalidAlias _ | orInJoin | missingJoinCondition
  | unsupportedJoinCondition | unqualifiedJoinColumn => true
  | _ => false

theorem message_ne_of_isOfJoin {cause : Cause} (hcause : cause.isOfJoin = true) :
    cause.message ≠ "Unexpected text before JOIN" := by
  have hquoted : ∀ front name : String, front.toList.head? = some 'I' →
      front ++ name ++ "'" ≠ "Unexpected text before JOIN" := by
    intro front name hfront hmessage
    have hfirst : (front ++ name ++ "'").toList.head? = some 'I' := by
      rw [String.toList_append, String.toList_append, List.append_assoc, List.head?_append, hfront]
      rfl
    rw [hmessage] at hfirst
    exact absurd hfirst (by decide)
  cases cause with
  | invalidTableName name => exact hquoted "Invalid table name '" name rfl
  | invalidAlias name => exact hquoted "Invalid alias '" name rfl
  | _ => first | exact absurd hcause Bool.false_ne_true | decide

end ParseError.Cause

theorem exists_of_mapM_error {α β ε : Type} {read : α → Except ε β} {sources : List α}
    {error : ε} (hread : sources.mapM read = .error error) :
    ∃ source ∈ sources, read source = .error error := by
  induction sources with
  | nil => exact absurd hread (by simp [pure, Except.pure])
  | cons source sources ih =>
      rw [List.mapM_cons] at hread
      cases hfirst : read source with
      | error failed =>
          rw [hfirst] at hread
          obtain rfl : failed = error := Except.error.inj hread
          exact ⟨source, List.mem_cons_self, hfirst⟩
      | ok value =>
          rw [hfirst] at hread
          cases hrest : sources.mapM read with
          | ok values =>
              rw [hrest] at hread
              exact absurd hread (by simp [bind, Except.bind, pure, Except.pure])
          | error failed =>
              rw [hrest] at hread
              obtain rfl : failed = error := Except.error.inj hread
              obtain ⟨other, hmem, hother⟩ := ih hrest
              exact ⟨other, List.mem_cons_of_mem _ hmem, hother⟩

section

variable {fragment : Fragment} {error : ParseError}

theorem TableItem.isOfJoin_of_read {clause : Clause}
    (hread : read clause fragment = .error error) : error.cause.isOfJoin = true := by
  unfold read at hread
  dsimp only at hread
  split at hread
  · obtain rfl := Except.error.inj hread
    rfl
  · split at hread
    · obtain rfl := Except.error.inj hread
      rfl
    · split at hread
      · obtain rfl := Except.error.inj hread
        rfl
      · split at hread
        · exact absurd hread (by simp)
        · split at hread
          · exact absurd hread (by simp)
          · obtain rfl := Except.error.inj hread
            rfl

theorem JoinCondition.isOfJoin_of_read (hread : read fragment = .error error) :
    error.cause.isOfJoin = true := by
  unfold read at hread
  dsimp only at hread
  split at hread
  · obtain rfl := Except.error.inj hread
    rfl
  · exact absurd hread (by simp)
  · obtain rfl := Except.error.inj hread
    rfl

theorem JoinCondition.isOfJoin_of_readChain (hread : readChain fragment = .error error) :
    error.cause.isOfJoin = true := by
  unfold readChain at hread
  split at hread
  · obtain rfl := Except.error.inj hread
    rfl
  · obtain ⟨part, -, hpart⟩ := exists_of_mapM_error hread
    split at hpart
    · obtain rfl := Except.error.inj hpart
      rfl
    · exact isOfJoin_of_read hpart

theorem Join.isOfJoin_of_readBody {kind : JoinKind}
    (hread : readBody kind fragment = .error error) : error.cause.isOfJoin = true := by
  unfold readBody at hread
  split at hread
  · obtain rfl := Except.error.inj hread
    rfl
  · split at hread
    · obtain rfl := Except.error.inj hread
      rfl
    · rename_i split _
      cases htable : TableItem.read .join split.before with
      | error failed =>
          rw [htable] at hread
          obtain rfl : failed = error := Except.error.inj hread
          exact TableItem.isOfJoin_of_read htable
      | ok table =>
          rw [htable] at hread
          cases hconditions : JoinCondition.readChain split.after with
          | error failed =>
              rw [hconditions] at hread
              obtain rfl : failed = error := Except.error.inj hread
              exact JoinCondition.isOfJoin_of_readChain hconditions
          | ok conditions =>
              rw [hconditions] at hread
              exact absurd hread (by simp [bind, Except.bind])

theorem Join.isOfJoin_of_readSegment {segment : Segment JoinMark}
    (hread : readSegment segment = .error error) : error.cause.isOfJoin = true := by
  unfold readSegment at hread
  split at hread
  · exact isOfJoin_of_readBody hread
  · obtain rfl := Except.error.inj hread
    rfl
  · obtain rfl := Except.error.inj hread
    rfl

end

/-! ## What a join is read from -/

/-- A join has the kind of its keyword and the table in front of the first `ON`; behind that, each
piece between `AND`s is a condition. -/
structure Join.IsReadFrom (segment : Segment JoinMark) (join : Join) : Prop where
  kind : segment.label = .join join.kind
  parts : ∃ split, segment.body.splitFirst? (.ofKeyword .on) = some split ∧
    TableItem.read .join split.before = .ok join.table ∧
    List.Forall₂ (fun piece condition => JoinCondition.read piece = .ok condition)
      (split.after.pieces (.ofKeyword .and_)) join.conditions

theorem Join.isReadFrom_of_readSegment {segment : Segment JoinMark} {join : Join}
    (hread : readSegment segment = .ok join) : join.IsReadFrom segment := by
  unfold readSegment at hread
  split at hread
  · rename_i kind hlabel
    unfold readBody at hread
    split at hread
    · exact absurd hread (by simp)
    · split at hread
      · exact absurd hread (by simp)
      · rename_i split hsplit
        simp only [bind_eq_ok] at hread
        obtain ⟨table, htable, conditions, hconditions, hjoin⟩ := hread
        obtain rfl := Except.ok.inj hjoin
        exact ⟨hlabel, split, hsplit, htable, JoinCondition.forall₂_of_readChain hconditions⟩
  · exact absurd hread (by simp)
  · exact absurd hread (by simp)

/-! ## Commas in front of the first join -/

namespace Match

variable {depth : Int} {before : Option Char} {offset : Nat} {cells cells' front : List Cell}

/-- Commas are found by the faces of the cells alone. -/
theorem walk_comma_congr (before before' : Option Char)
    (hcells : cells.map Cell.face = cells'.map Cell.face) :
    walk Finder.comma 0 depth before offset cells =
      walk Finder.comma 0 depth before' offset cells' := by
  induction cells generalizing depth before before' offset cells' with
  | nil =>
      obtain rfl := List.map_eq_nil_iff.mp hcells.symm
      rfl
  | cons cell rest ih =>
      obtain ⟨cell', rest', rfl, hcell, hrest⟩ := List.map_eq_cons_iff.mp hcells.symm
      obtain ⟨hchar, hkind⟩ := Prod.mk.inj hcell
      have hcode : ∀ c, cell'.isCodeChar c = cell.isCodeChar c := by
        intro c
        rw [Cell.isCodeChar, Cell.isCodeChar, Cell.isCode, Cell.isCode, hkind, hchar]
      have hnesting : cell'.nesting = cell.nesting := by
        rw [Cell.nesting, Cell.nesting, hcode, hcode]
      rw [walk_comma_cons, walk_comma_cons, hcode, hnesting, hchar]
      split
      · rw [ih _ _ hrest.symm]
      · exact ih _ _ hrest.symm

theorem walk_comma_append (back : List Cell) :
    walk Finder.comma 0 depth before offset (front ++ back) =
      walk Finder.comma 0 depth before offset front ++
        walk Finder.comma 0 (depth + Cell.depth front) none
          (offset + Text.size (Cell.text front)) back := by
  induction front generalizing depth before offset with
  | nil =>
      have hdepth : depth + Cell.depth [] = depth := Int.add_zero depth
      rw [hdepth]
      exact walk_comma_congr _ _ rfl
  | cons cell front ih =>
      have htext : Cell.text (cell :: front) = cell.char :: Cell.text front := rfl
      rw [List.cons_append, walk_comma_cons, walk_comma_cons, Cell.depth_cons, htext,
        Text.size_cons, ← Int.add_assoc, ← Nat.add_assoc]
      split
      next hcomma =>
        rw [hcomma.1, Cell.nesting_of_comma hcomma.2, Int.add_zero, List.cons_append, ih]
      next => exact ih

/-- Where the first gap begins, the others do not depend on. -/
theorem gaps_of_first {α : Type} {first last : Nat} {points : List (Match α)} {gap : Nat × Nat}
    {rest : List (Nat × Nat)} (hgaps : gaps first last points = gap :: rest) (other : Nat) :
    gap.1 = first ∧ gaps other last points = (other, gap.2) :: rest := by
  cases points <;> obtain ⟨rfl, rfl⟩ := List.cons.inj hgaps <;> exact ⟨rfl, rfl⟩

end Match

theorem Fragment.trim_blanks {blanks : Text} (hblanks : ∀ c ∈ blanks, Text.isBlank c = true)
    (text : Text) (start : Nat) :
    (mk (blanks ++ text) start).trim = (mk text (start + Text.size blanks)).trim := by
  have hleading : Text.leading (blanks ++ text) = blanks ++ Text.leading text :=
    List.takeWhile_append_of_pos hblanks
  rw [trim, trim, hleading, Text.size_append, ← Nat.add_assoc, Text.trim,
    Text.trimStart_append hblanks]
  rfl

namespace Text.Fronts

variable {α : Type} {find : Finder α} {text : Text} {blanks front behind : List Cell}
  {cuts : List (Cut α)}

/-- The commas of a text in front of its first mark are those of what stands there by itself. -/
theorem filter_commas (hfronts : text.Fronts find blanks front behind cuts) :
    (((Fragment.mk text 0).matchesOf Finder.comma).filter fun comma =>
        comma.start < size (Cell.text (blanks ++ front))) =
      (Fragment.mk (Cell.text front) (size (Cell.text blanks))).matchesOf Finder.comma := by
  have hblank : ∀ c ∈ Cell.text blanks, isBlank c = true := fun c hc =>
    isBlank_of_isAsciiBlank (hfronts.blank c hc)
  have hnone : Match.walk Finder.comma 0 0 none 0 blanks = [] := by
    refine List.eq_nil_iff_forall_not_mem.mpr fun found hfound => ?_
    obtain ⟨first, cell, rest, rfl, hcomma, -, -⟩ := Match.mem_walk_comma.mp hfound
    have hchar : cell.isCode = true ∧ cell.char = ',' := by
      simpa [Cell.isCodeChar] using hcomma
    have hspace := hblank ',' (by simp [Cell.text, hchar.2])
    exact absurd hspace (by decide)
  have hwalk : (Fragment.mk text 0).matchesOf Finder.comma =
      (Fragment.mk (Cell.text front) (size (Cell.text blanks))).matchesOf Finder.comma ++
        Match.walk Finder.comma 0 (Cell.depth front) none
          (size (Cell.text (blanks ++ front))) behind := by
    rw [Fragment.matchesOf, hfronts.cells, Match.walk_comma_append, hnone, List.nil_append,
      Match.walk_comma_append, Cell.depth_of_isBlank hblank,
      Match.walk_comma_congr none none hfronts.faces, Cell.text_append, size_append]
    simp only [Int.zero_add, Nat.zero_add]
    rfl
  rw [hwalk, List.filter_append, List.filter_eq_self.mpr, List.filter_eq_nil_iff.mpr,
    List.append_nil]
  · intro comma hcomma
    obtain ⟨first, -, -, -, -, -, rfl⟩ := Match.mem_walk_comma.mp hcomma
    simp
  · intro comma hcomma
    rw [Fragment.matchesOf, ← Match.walk_comma_congr none none hfronts.faces] at hcomma
    obtain ⟨first, cell, rest, rfl, -, -, rfl⟩ := Match.mem_walk_comma.mp hcomma
    have hpos := cell.char.utf8Size_pos
    have hrest : Cell.text (cell :: rest) = cell.char :: Cell.text rest := rfl
    simp only [Cell.text_append, hrest, size_append, size_cons, decide_eq_true_eq]
    omega

/-- The pieces between these commas are trimmed to the items that are read. -/
theorem exists_pieces (hfronts : text.Fronts find blanks front behind cuts) :
    ∃ pieces : List Fragment,
      (∀ piece ∈ pieces, piece.LiesIn text) ∧
        pieces.map Fragment.range =
          Match.gaps 0 (size (Cell.text (blanks ++ front)))
            (((Fragment.mk text 0).matchesOf Finder.comma).filter fun comma =>
              comma.start < size (Cell.text (blanks ++ front))) ∧
        (Fragment.mk (Cell.text front) (size (Cell.text blanks))).splitList =
          pieces.map Fragment.trim := by
  obtain ⟨pieces, hlies, hranges, hitems⟩ := hfronts.liesIn.exists_pieces
  have hstop : (Fragment.mk (Cell.text front) (size (Cell.text blanks))).stop =
      size (Cell.text (blanks ++ front)) := by
    rw [Fragment.stop, Cell.text_append, size_append]
  rw [hstop, ← hfronts.filter_commas] at hranges
  generalize ((Fragment.mk text 0).matchesOf Finder.comma).filter _ = commas at hranges ⊢
  cases pieces with
  | nil => cases commas <;> exact absurd hranges (by simp [Match.gaps])
  | cons piece others =>
      -- The first piece is read without the blanks in front of it.
      obtain ⟨before, after, htext, hstart⟩ := hlies piece List.mem_cons_self
      obtain ⟨hplace, hgaps⟩ := Match.gaps_of_first hranges.symm 0
      have hblanks : before = Cell.text blanks := by
        have hcells := hfronts.text_eq
        rw [Cell.text_append, List.append_assoc] at hcells
        exact (Fragment.LiesIn.eq_of_size_eq (htext.symm.trans hcells)
          (hstart.symm.trans hplace)).1
      subst hblanks
      refine ⟨⟨Cell.text blanks ++ piece.text, 0⟩ :: others, ?_, ?_, ?_⟩
      · refine List.forall_mem_cons.mpr ⟨⟨[], after, ?_, rfl⟩, (List.forall_mem_cons.mp hlies).2⟩
        rw [List.nil_append, List.append_assoc]
        exact htext
      · rw [hgaps, List.map_cons, Fragment.range, Fragment.stop, size_append, Nat.zero_add,
          ← hstart]
        rfl
      · rw [hitems, List.map_cons, List.map_cons, Fragment.trim_blanks fun c hc =>
          isBlank_of_isAsciiBlank (hfronts.blank c hc), Nat.zero_add, ← hstart]

end Text.Fronts

/-! ## The clause as a whole -/

theorem JoinMark.arePhrases_entries : Finder.ArePhrases entries := by
  unfold Finder.ArePhrases
  decide

theorem TableItem.read_trim (clause : Clause) (fragment : Fragment) :
    read clause fragment.trim = read clause fragment := by
  rw [read, read, Fragment.trim_trim]

/-- The tables of FROM are read from the text in front of the first keyword of a join outside all
parentheses, one from what stands between two commas there, and the cursor stops at that keyword, or
at the end if there is none.  From there the joins are read: no text is in front of the first, and
there is one for every such keyword, in order. -/
theorem Join.readList_of_tables {text : Text} {tables : List TableItem} {cursor : Cursor}
    (hread : TableItem.readList { text } = (.ok tables, cursor)) :
    let marks := ((Fragment.mk text 0).segment JoinMark.finder).tail
    let first := (marks.head?.map fun segment => segment.mark.start).getD (Text.size text)
    let commas := ((Fragment.mk text 0).matchesOf Finder.comma).filter fun comma =>
      comma.start < first
    (cursor.text = text ∧ cursor.position = first) ∧
      List.Forall₂
        (fun gap table => TableItem.read .from_ ⟨text.slice gap.1 gap.2, gap.1⟩ = .ok table)
        (Match.gaps 0 first commas) tables ∧
      (∀ error, (readList cursor).1 = .error error →
        error.cause.message ≠ "Unexpected text before JOIN") ∧
      ∀ joins, (readList cursor).1 = .ok joins →
        List.Forall₂ IsReadFrom marks joins := by
  intro marks first commas
  obtain ⟨blanks, front, behind, cuts, hfronts⟩ :=
    Text.exists_fronts JoinMark.arePhrases_entries text
  obtain ⟨⟨htext, hoffset, hfaces⟩, hitems⟩ := TableItem.exists_of_readList hfronts hread
  have hjoins := readList_marked hfronts hoffset hfaces
  have hfirst : first = Text.size (Cell.text (blanks ++ front)) := hfronts.first_eq
  refine ⟨⟨htext, hfaces.position.trans hfirst.symm⟩, ?_, ?_, ?_⟩
  · obtain ⟨pieces, hlies, hranges, hsplit⟩ := hfronts.exists_pieces
    rw [← hfirst] at hranges
    have hpieces : pieces = (Match.gaps 0 first commas).map fun gap =>
        Fragment.mk (text.slice gap.1 gap.2) gap.1 := by
      calc pieces
          = pieces.map id := (List.map_id pieces).symm
        _ = pieces.map fun piece =>
              Fragment.mk (text.slice piece.start piece.stop) piece.start :=
            List.map_congr_left fun piece hpiece => by rw [(hlies piece hpiece).slice_eq]; rfl
        _ = (Match.gaps 0 first commas).map fun gap =>
              Fragment.mk (text.slice gap.1 gap.2) gap.1 := by
            rw [← hranges, List.map_map]
            rfl
    rw [hsplit, List.forall₂_map_left_iff] at hitems
    rw [hpieces, List.forall₂_map_left_iff] at hitems
    exact hitems.imp fun gap table htable => by rwa [TableItem.read_trim] at htable
  · intro error herror
    rw [hjoins] at herror
    obtain ⟨segment, -, hsegment⟩ := exists_of_mapM_error herror
    exact ParseError.Cause.message_ne_of_isOfJoin (isOfJoin_of_readSegment hsegment)
  · intro joins hok
    rw [hjoins] at hok
    exact (forall₂_of_mapM hok).imp fun _ _ => isReadFrom_of_readSegment

/-- Three tables, and two joins whose keywords hold `JOIN` or are `JOIN`. -/
theorem Join.readList_of_tables_overlaps :
    let text :=
      "\n a A, b\t,s.c AS x LEFT  outer JOIN d ON (a.id=d.id) AND a.k<>d.k join e on e.x=d.x".toList
    ∃ cursor joins,
      TableItem.readList { text } =
        (.ok [{ tableName := "a", aliasName := some "A" }, { tableName := "b" },
          { tableName := "s.c", aliasName := some "x" }], cursor) ∧
      cursor.position = 19 ∧ (readList cursor).1 = .ok joins ∧
      joins.map (fun join => (join.kind, join.conditions.length)) = [(.left, 2), (.inner, 1)] ∧
      List.Forall₂ IsReadFrom ((Fragment.mk text 0).segment JoinMark.finder).tail joins := by
  intro text
  -- A literal is the string of its letters: the kernel need not decode it.
  have htext : text = _ := String.toList_ofList
  have hread : TableItem.readList { text } =
      (.ok [{ tableName := "a", aliasName := some "A" }, { tableName := "b" },
        { tableName := "s.c", aliasName := some "x" }],
        { text, position := 19, clause := some .join }) := by
    rw [htext]
    decide +kernel
  obtain ⟨-, -, -, hjoins⟩ := readList_of_tables hread
  have hok : (readList { text, position := 19, clause := some .join }).1 = .ok
      [{ kind := .left, table := { tableName := "d" },
         conditions :=
          [{ leftTable := "a", leftColumn := "id", operator := .equal, rightTable := "d",
             rightColumn := "id" },
           { leftTable := "a", leftColumn := "k", operator := .notEqual, rightTable := "d",
             rightColumn := "k" }] },
       { kind := .inner, table := { tableName := "e" },
         conditions :=
          [{ leftTable := "e", leftColumn := "x", operator := .equal, rightTable := "d",
             rightColumn := "x" }] }] := by
    rw [htext]
    decide +kernel
  exact ⟨_, _, hread, rfl, hok, rfl, hjoins _ hok⟩

end SelectForm

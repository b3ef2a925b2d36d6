import Mathlib
import SelectForm.Proofs.Statement.ChainPlaces
import SelectForm.Proofs.Statement.PlacedStatement
import SelectForm.Proofs.Statement.ReadLocated

/-!
# Clauses tile their statement

The clauses of a statement follow each other without a gap from its first keyword to its end.
Each begins with its keyword and goes on to the next one, so that all keywords outside
parentheses are those of the clauses, and no other is left in a body.
-/

namespace SelectForm

namespace Match

/-- A match with another label. -/
def map {α β : Type} (f : α → β) (found : Match α) : Match β :=
  ⟨f found.label, found.start, found.stop⟩

end Match

/-! ## Segments in a text -/

namespace Segment.Tile

variable {α : Type} {whole : Text} {start : Nat} {segments : List (Segment α)}

/-- Segments that follow each other are placed by their texts alone. -/
theorem place_eq (htile : Tile whole start segments) :
    Segmentation.place start (segments.map cut) = segments := by
  induction segments generalizing start with
  | nil => rfl
  | cons segment rest ih =>
      obtain ⟨-, hmark, -, hbody, hrest⟩ := htile
      obtain ⟨label, ⟨mark, markStart⟩, ⟨body, bodyStart⟩⟩ := segment
      simp only [Fragment.stop] at hmark hbody hrest
      subst hmark hbody
      simp only [List.map_cons, cut, Segmentation.place]
      exact congrArg _ (ih hrest)

theorem body_start (htile : Tile whole start segments) :
    ∀ segment ∈ segments, segment.body.start = segment.mark.stop := by
  induction segments generalizing start with
  | nil => exact List.forall_mem_nil _
  | cons segment rest ih =>
      obtain ⟨-, -, -, hbody, hrest⟩ := htile
      exact List.forall_mem_cons.mpr ⟨hbody, ih hrest⟩

theorem suffix {front back : List (Segment α)} (htile : Tile whole start (front ++ back)) :
    ∃ start, Tile whole start back := by
  induction front generalizing start with
  | nil => exact ⟨start, htile⟩
  | cons segment front ih =>
      obtain ⟨-, -, -, -, hrest⟩ := htile
      exact ih hrest

end Segment.Tile

namespace LocatedClause

/-! ## What is to be shown -/

/-- Clauses that follow each other from one offset to another, each from its keyword on. -/
inductive Tiles (last : Nat) : Nat → List LocatedClause → Prop
  | nil : Tiles last last []
  | cons {located : LocatedClause} {rest : List LocatedClause}
      (hrest : Tiles last located.body.stop rest) :
      Tiles last located.keyword.start (located :: rest)

/-- The keywords of clauses that belong to a clause: its own, or all in LIMIT and OFFSET. -/
def keywords (located : LocatedClause) : List (Match Clause) :=
  if located.clause = .paging then
    (located.body.matchesOf finder).map (Match.map Prod.snd)
  else
    [⟨located.clause, located.keyword.start, located.keyword.stop⟩]

/-- A clause of a text: its keyword, and right behind it a body that is not blank and in which
no clause begins.  The body of LIMIT and OFFSET begins with its keyword and holds each at most
once. -/
structure IsTile (text : Text) (located : LocatedClause) : Prop where
  keyword_eq : text.slice located.keyword.start located.keyword.stop = located.keyword.text
  body_eq : text.slice located.body.start located.body.stop = located.body.text
  spells : ∃ entry ∈ entries, entry.2.2 = located.clause ∧ entry.1.Spells located.keyword.text
  start_eq : located.body.start =
    if located.clause = .paging then located.keyword.start else located.keyword.stop
  filled : located.clause ≠ .paging →
    located.body.isBlank = false ∧ located.body.matchesOf finder = []
  once : located.clause = .paging →
    ((located.body.matchesOf finder).map Match.label).Nodup ∧
      ∀ found ∈ located.body.matchesOf finder,
        found.label = ("LIMIT", .paging) ∨ found.label = ("OFFSET", .paging)

/-! ## The keywords of a statement -/

variable {text : Text} {clauses : List LocatedClause}

/-- The keywords of a text are those of the text without the blanks in front of it. -/
theorem tail_skipAsciiBlanks (text : Text) :
    ((Fragment.mk text 0).segment finder).tail =
      ((Fragment.mk text 0).skipAsciiBlanks.segment finder).tail := by
  obtain ⟨front, mode, hcells, hfront, hmode⟩ := Mode.exists_blanks text
  have hblanks : ∀ c ∈ Cell.text front, Text.isAsciiBlank c = true := by
    rw [hfront]
    exact fun c hc => List.mem_takeWhile_imp hc
  have hcuts := @cutCells_blanks _ entries none front
    (mode.cells (text.dropWhile Text.isAsciiBlank)) 0 arePhrases_entries hblanks
  rw [← hcells, hfront, Option.or_none, cutCells_edge arePhrases_entries (Mode.faces_eq hmode _)
    (.inl (not_isWordChar_blanks text))] at hcuts
  rw [Fragment.skipAsciiBlanks_eq, Fragment.segment, Fragment.segment]
  unfold Segmentation.ofCells
  rw [finder_eq, hcuts, Cut.inFront]
  simp only [Text.size_append, Nat.zero_add]

section

variable {fragment : Fragment} {whole : Text} {start : Nat}
  {main paging : List (Segment (String × Clause))}

theorem exists_entry_of_mem : ∀ segment ∈ (fragment.segment finder).tail,
    ∃ entry ∈ entries, entry.2 = segment.label ∧ entry.1.Spells segment.mark.text := by
  have hfind : ∀ before cells label count, finder before cells = some (label, count) →
      ∃ entry ∈ entries, entry.2 = label ∧ entry.1.Spells (Cell.text (cells.take count)) := by
    intro before cells label count hfound
    rw [finder_eq] at hfound
    obtain ⟨keyword, front, rest, hmem, rfl, rfl, -, hfits⟩ := Finder.exists_of_ofKeywords hfound
    rw [List.take_left]
    exact ⟨_, hmem, rfl, hfits.spells⟩
  have hmarks := @Cut.forall_marks _ finder
    (fun label mark => ∃ entry ∈ entries, entry.2 = label ∧ entry.1.Spells mark) hfind 0 0 none
    fragment.text.cells
  rw [← Segmentation.map_cut_tail_ofCells none fragment.text.cells fragment.start,
    List.forall_mem_map] at hmarks
  exact hmarks

theorem parts_of_segment (fragment : Fragment) :
    (∀ segment ∈ (fragment.segment finder).tail, segment.body.text.IsUncut finder) ∧
      ∀ suffix, suffix <:+ (fragment.segment finder).tail →
        cutCells finder 0 0 none (Cut.textOf (suffix.map Segment.cut)).cells =
          ([], suffix.map Segment.cut) := by
  obtain ⟨-, hbodies, hsuffixes⟩ := @cutCells_parts _ entries none fragment.text _ .between _
    arePhrases_entries (.inl rfl) (.inl rfl) rfl
  have hcuts := @Segmentation.map_cut_tail_ofCells _ finder none fragment.text.cells fragment.start
  constructor
  · intro segment hmem
    refine hbodies segment.cut ?_
    rw [← finder_eq, ← Text.cells, ← hcuts]
    exact List.mem_map_of_mem hmem
  · intro suffix hsuffix
    refine hsuffixes _ ?_
    rw [← finder_eq, ← Text.cells, ← hcuts]
    exact hsuffix.map _

theorem matchesOf_body : ∀ segment ∈ (fragment.segment finder).tail,
    segment.body.matchesOf finder = [] := by
  intro segment hmem
  have huncut := (parts_of_segment fragment).1 segment hmem
  rw [← Fragment.map_found_segment, List.map_eq_nil_iff, Fragment.segment, Segmentation.ofCells]
  dsimp only
  rw [huncut]
  rfl

/-- A part that begins with a keyword holds the keywords that the whole shows there. -/
theorem matchesOf_suffix {body : Fragment} (htail : (fragment.segment finder).tail = main ++ paging)
    (htile : Segment.Tile whole body.start paging)
    (htext : body.text = Cut.textOf (paging.map Segment.cut)) :
    body.matchesOf finder = paging.map Segment.found := by
  have hcuts := (parts_of_segment fragment).2 paging ⟨main, htail.symm⟩
  rw [← Fragment.map_found_segment, Fragment.segment, Segmentation.ofCells, htext, hcuts]
  dsimp only
  rw [Text.size_nil, Nat.add_zero, htile.place_eq]

theorem exists_pagingOf (first : Segment (String × Clause))
    (others : List (Segment (String × Clause))) :
    ∃ located, pagingOf (first :: others) = some located ∧ located.keyword = first.mark :=
  ⟨_, rfl, rfl⟩

/-- The clauses of segments that follow each other follow each other. -/
theorem tiles_of_tile (htile : Segment.Tile whole start (main ++ paging))
    (hmain : ∀ segment ∈ main, segment.label.2 ≠ .paging)
    (hpaging : ∀ segment ∈ paging, segment.label.2 = .paging)
    (hend : start + Text.size (Cut.textOf ((main ++ paging).map Segment.cut)) = Text.size whole) :
    Tiles (Text.size whole) start (main.map ofSegment ++ (pagingOf paging).toList) := by
  induction main generalizing start with
  | nil =>
      cases paging with
      | nil =>
          obtain rfl : start = Text.size whole := by simpa [Cut.textOf] using hend
          exact .nil
      | cons first others =>
          obtain ⟨located, hlocated, hkeyword⟩ := exists_pagingOf first others
          obtain ⟨-, hbodyStart, hbody⟩ := body_of_pagingOf hpaging located hlocated
          obtain ⟨-, rfl, -⟩ := htile
          have hstop : located.body.stop = Text.size whole := by
            rw [List.nil_append, Cut.textOf, List.flatMap_map] at hend
            rw [Fragment.stop, ← hbodyStart, hkeyword, hbody, ← hend]
            rfl
          rw [List.map_nil, List.nil_append, hlocated, Option.toList_some, ← hkeyword]
          exact .cons (hstop ▸ .nil)
  | cons segment main ih =>
      obtain ⟨hsegment, hmain⟩ := List.forall_mem_cons.mp hmain
      obtain ⟨-, rfl, -, hbodyStart, hrest⟩ := htile
      have hbody : (ofSegment segment).body = segment.body := by rw [ofSegment, if_neg hsegment]
      have htext : Cut.textOf ((segment :: main ++ paging).map Segment.cut) = segment.mark.text ++
          (segment.body.text ++ Cut.textOf ((main ++ paging).map Segment.cut)) := by
        simp [Cut.textOf, Segment.cut]
      rw [htext, Text.size_append, Text.size_append] at hend
      have htiles := ih hrest hmain (by
        rw [Fragment.stop, hbodyStart, Fragment.stop]
        omega)
      rw [← hbody] at htiles
      exact .cons htiles

/-- The keywords in LIMIT and OFFSET are those of its segments. -/
theorem matchesOf_pagingOf (htail : (fragment.segment finder).tail = main ++ paging)
    (htile : Segment.Tile whole start paging)
    (hpaging : ∀ segment ∈ paging, segment.label.2 = .paging) :
    ∀ located ∈ pagingOf paging, located.clause = .paging ∧
      located.body.matchesOf finder = paging.map Segment.found := by
  intro located hlocated
  obtain ⟨hclause, hbodyStart, hbody⟩ := body_of_pagingOf hpaging located hlocated
  refine ⟨hclause, ?_⟩
  cases paging with
  | nil => contradiction
  | cons first others =>
      obtain ⟨other, hother, hkeyword⟩ := exists_pagingOf first others
      obtain rfl : other = located := Option.some.inj (hother.symm.trans hlocated)
      have hstart : other.body.start = start := by rw [← hbodyStart, hkeyword, htile.2.1]
      apply matchesOf_suffix htail (hstart ▸ htile)
      rw [hbody, Cut.textOf, List.flatMap_map]
      rfl

/-- The keywords of the clauses are those of the segments. -/
theorem flatMap_keywords (htail : (fragment.segment finder).tail = main ++ paging)
    (htile : Segment.Tile whole start paging)
    (hmain : ∀ segment ∈ main, segment.label.2 ≠ .paging)
    (hpaging : ∀ segment ∈ paging, segment.label.2 = .paging) :
    (main.map ofSegment ++ (pagingOf paging).toList).flatMap keywords =
      ((main ++ paging).map Segment.found).map (Match.map Prod.snd) := by
  rw [List.flatMap_append, List.map_append, List.map_append]
  congr 1
  · rw [List.flatMap_map, List.map_map, List.map_eq_flatMap]
    refine List.flatMap_congr fun segment hmem => ?_
    rw [keywords, ofSegment, if_neg (hmain segment hmem)]
    rfl
  · cases paging with
    | nil => rfl
    | cons first others =>
        obtain ⟨located, hlocated, hkeyword⟩ := exists_pagingOf first others
        obtain ⟨hclause, hmatches⟩ := matchesOf_pagingOf htail htile hpaging located hlocated
        rw [hlocated, Option.toList_some, List.flatMap_singleton, keywords, if_pos hclause, hmatches]

end

/-! ## The clauses of a statement -/

theorem label_of_paging {label : String × Clause} (hlabel : ∃ entry ∈ entries, entry.2 = label)
    (hpaging : label.2 = .paging) : label = ("LIMIT", .paging) ∨ label = ("OFFSET", .paging) := by
  obtain ⟨entry, hmem, rfl⟩ := hlabel
  have hall : ∀ entry ∈ entries, entry.2.2 = .paging →
      entry.2 = ("LIMIT", .paging) ∨ entry.2 = ("OFFSET", .paging) := by decide
  exact hall entry hmem hpaging

/-- Each clause that is located stands in the text with its keyword. -/
theorem isTile_of_locate (hlocate : locate text = .ok clauses) :
    ∀ located ∈ clauses, located.IsTile text := by
  obtain ⟨-, hcollect, -⟩ := collect_of_locate hlocate
  have hbodies := (placesErrors_locate text).2 clauses hlocate
  have htile := ((Fragment.liesIn_whole text).skipAsciiBlanks.segment finder).2
  have hfilled := isBlank_of_collect hcollect
  have hnodup := (nodup_of_collect hcollect).1
  have hentries := @exists_entry_of_mem (Fragment.mk text 0).skipAsciiBlanks
  have hempty := @matchesOf_body (Fragment.mk text 0).skipAsciiBlanks
  obtain ⟨main, paging, htail, hmain, hpaging, rfl, -⟩ := exists_of_collect hcollect
  rw [htail] at htile hfilled hnodup hentries hempty
  have hlies := htile.liesIn
  intro located hlocated
  have hbody := (hbodies located hlocated).slice_eq
  rcases List.mem_append.mp hlocated with hmem | hmem
  · obtain ⟨segment, hsegment, rfl⟩ := List.mem_map.mp hmem
    have hclause := hmain segment hsegment
    have hmem := List.mem_append_left paging hsegment
    obtain ⟨entry, hentry, hlabel, hspells⟩ := hentries segment hmem
    have hof : ofSegment segment = ⟨segment.label.2, segment.mark, segment.body⟩ := by
      rw [ofSegment, if_neg hclause]
    rw [hof] at hbody ⊢
    refine ⟨(hlies segment hmem).1.slice_eq, hbody,
      ⟨entry, hentry, congrArg Prod.snd hlabel, hspells⟩, ?_,
      fun _ => ⟨hfilled segment hmem hclause, hempty segment hmem⟩,
      fun heq => absurd heq hclause⟩
    rw [if_neg hclause]
    exact htile.body_start segment hmem
  · rw [Option.mem_toList] at hmem
    obtain ⟨start, hpagingTile⟩ := htile.suffix
    obtain ⟨hclause, hmatches⟩ := matchesOf_pagingOf htail hpagingTile hpaging located hmem
    obtain ⟨-, hstart, -⟩ := body_of_pagingOf hpaging located hmem
    cases paging with
    | nil => contradiction
    | cons first others =>
        obtain ⟨other, hother, hkeyword⟩ := exists_pagingOf first others
        obtain rfl : other = located := Option.some.inj (hother.symm.trans hmem)
        have hfirst : first ∈ main ++ first :: others := by simp
        obtain ⟨entry, hentry, hlabel, hspells⟩ := hentries first hfirst
        refine ⟨?_, hbody, ⟨entry, hentry, ?_, hkeyword ▸ hspells⟩, ?_, fun hne => absurd hclause hne,
          fun _ => ⟨?_, ?_⟩⟩
        · rw [hkeyword]
          exact (hlies first hfirst).1.slice_eq
        · rw [hlabel, hclause, hpaging first List.mem_cons_self]
        · rw [if_pos hclause, hstart]
        · rw [List.map_append] at hnodup
          rw [hmatches, List.map_map]
          refine List.Nodup.of_map Prod.fst ?_
          rw [List.map_map]
          exact hnodup.of_append_right
        · rw [hmatches, List.forall_mem_map]
          intro segment hsegment
          obtain ⟨entry, hentry, hlabel, -⟩ := hentries segment (List.mem_append_right main hsegment)
          exact label_of_paging ⟨entry, hentry, hlabel⟩ (hpaging segment hsegment)

/-- The clauses that are located tile the text from its first character on. -/
theorem tiles_of_locate (hlocate : locate text = .ok clauses) :
    Tiles (Text.size text) (Text.size (text.takeWhile Text.isAsciiBlank)) clauses ∧
      clauses.flatMap keywords =
        ((Fragment.mk text 0).matchesOf finder).map (Match.map Prod.snd) := by
  obtain ⟨⟨count, hselect⟩, hcollect, -⟩ := collect_of_locate hlocate
  have htile := ((Fragment.liesIn_whole text).skipAsciiBlanks.segment finder).2
  obtain ⟨hhead, -⟩ := exists_select hselect
  obtain ⟨main, paging, htail, hmain, hpaging, rfl, -⟩ := exists_of_collect hcollect
  have hstart : ((Fragment.mk text 0).skipAsciiBlanks.segment finder).head.stop =
      Text.size (text.takeWhile Text.isAsciiBlank) := by
    rw [Fragment.stop, hhead, Text.size_nil, Nat.add_zero, Fragment.skipAsciiBlanks_eq]
    rfl
  rw [htail, hstart] at htile
  constructor
  · refine tiles_of_tile htile hmain hpaging ?_
    have htext := congrArg Text.size
      (Fragment.text_segment finder (Fragment.mk text 0).skipAsciiBlanks)
    have hblanks := congrArg Text.size (@List.takeWhile_append_dropWhile _ Text.isAsciiBlank text)
    rw [hhead, List.nil_append, htail, Fragment.skipAsciiBlanks_eq] at htext
    rw [Text.size_append] at hblanks
    rw [Cut.textOf, List.flatMap_map, ← hblanks, ← htext]
    rfl
  · obtain ⟨start, hpagingTile⟩ := htile.suffix
    rw [flatMap_keywords htail hpagingTile hmain hpaging, ← htail, ← tail_skipAsciiBlanks,
      Fragment.map_found_segment]

/-- From the front of a text a cursor locates clauses that tile the text, and moves to its end:
they come in their order, SELECT first and FROM among them, each from its keyword to the next
one, and there is no keyword of a clause outside parentheses but theirs. -/
theorem read_tiles (hread : (read { text }).1 = .ok clauses) :
    (read { text }).2.atEnd = true ∧
      (clauses.Pairwise fun first second => first.clause.rank < second.clause.rank) ∧
      (∃ first others, clauses = first :: others ∧ first.clause = .select) ∧
      (∃ located ∈ clauses, located.clause = .from_) ∧
      Tiles (Text.size text) (Text.size (text.takeWhile Text.isAsciiBlank)) clauses ∧
      (∀ located ∈ clauses, located.IsTile text) ∧
      clauses.flatMap keywords =
        ((Fragment.mk text 0).matchesOf finder).map (Match.map Prod.snd) := by
  obtain ⟨hlocated, hend⟩ := @read_start { text } rfl
  have hlocate : locate text = .ok clauses := by
    rw [hlocated] at hread
    cases hlocate : locate text with
    | error failed => simp [hlocate, Except.mapError] at hread
    | ok found =>
        rw [hlocate] at hread
        exact congrArg Except.ok (Except.ok.inj hread)
  obtain ⟨-, hcollect, hfrom⟩ := collect_of_locate hlocate
  obtain ⟨htiles, hkeywords⟩ := tiles_of_locate hlocate
  exact ⟨hend clauses hlocate, pairwise_of_collect hcollect, head_of_locate hlocate, hfrom, htiles,
    isTile_of_locate hlocate, hkeywords⟩

/-- The `from` in the literal is no keyword, and `OFFSET` may come first. -/
theorem read_tiles_hidden :
    ∃ clauses,
      (read { text := "\n SELECT 'from' FROM t OFFSET 5 limit 10".toList }).1 = .ok clauses ∧
        clauses.map (fun located => (located.clause, located.keyword.start, located.body.range)) =
          [(.select, 2, 8, 16), (.from_, 16, 20, 23), (.paging, 23, 23, 40)] ∧
        Tiles 40 2 clauses ∧
        clauses.flatMap keywords =
          [⟨.select, 2, 8⟩, ⟨.from_, 16, 20⟩, ⟨.paging, 23, 29⟩, ⟨.paging, 32, 37⟩] := by
  have hread : (read { text := "\n SELECT 'from' FROM t OFFSET 5 limit 10".toList }).1 =
      .ok [⟨.select, ⟨"SELECT".toList, 2⟩, ⟨" 'from' ".toList, 8⟩⟩,
        ⟨.from_, ⟨"FROM".toList, 16⟩, ⟨" t ".toList, 20⟩⟩,
        ⟨.paging, ⟨"OFFSET".toList, 23⟩, ⟨"OFFSET 5 limit 10".toList, 23⟩⟩] := by decide +kernel
  obtain ⟨-, -, -, -, htiles, -, hkeywords⟩ := read_tiles hread
  refine ⟨_, hread, by decide +kernel, htiles, hkeywords.trans ?_⟩
  decide +kernel

end LocatedClause

end SelectForm

import Mathlib
import SelectForm.Proofs.Statement.AlikeStatement
import SelectForm.Proofs.Statement.ReadWritten
import SelectForm.Proofs.Statement.HeldClause
import SelectForm.Proofs.Statement.HeldPaging

/-!
# What a statement holds

A statement that is read as a query holds the tokens of the query, in order, and nothing
else.  Behind them stand at most LIMIT and OFFSET, a semicolon and blanks.
-/

namespace SelectForm

open Lexeme

variable {row : List Lexeme} {query : Query} {text statement : Text}

/-! ## The end of a statement -/

/-- Nothing, or a semicolon with blanks behind it. -/
def Text.IsEnd (text : Text) : Prop :=
  text = [] ∨ ∃ gap, text = ';' :: gap ∧ ∀ c ∈ gap, isBlank c = true

theorem Text.IsEnd.isClosing (hend : IsEnd text) : ∀ c ∈ text, isClosing c = true := by
  rcases hend with rfl | ⟨gap, rfl, hgap⟩
  · exact List.forall_mem_nil _
  · exact List.forall_mem_cons.mpr ⟨rfl, fun c hc => isClosing_of_isBlank (hgap c hc)⟩

theorem Text.IsEnd.isTokenChar (hend : IsEnd text) : text.head?.any isTokenChar = false := by
  rcases hend with rfl | ⟨gap, rfl, -⟩
  · rfl
  · rfl

/-- A single statement ends with the text, or before a semicolon with blanks behind it. -/
theorem Statement.exists_of_single (hsound : Sound row)
    (hsingle : single (textOf row) = .ok statement) :
    ∃ front back, row = front ++ marks back ∧ statement = textOf front ∧ Text.IsEnd back := by
  rw [single_textOf hsound] at hsingle
  split at hsingle
  · rename_i hblank
    rw [List.all_eq_true] at hblank
    have hsplit := @List.takeWhile_append_dropWhile _ isInner row
    have hfirst := List.head?_dropWhile_not isInner row
    have hrest := hsound.atomic.dropWhile isInner
    obtain rfl := Except.ok.inj hsingle
    generalize row.takeWhile isInner = front at hsplit ⊢
    generalize row.dropWhile isInner = rest at hsplit hfirst hrest hblank
    cases rest with
    | nil => exact ⟨front, [], hsplit.symm, rfl, .inl rfl⟩
    | cons lexeme rest =>
        rw [List.drop_succ_cons, List.drop_zero] at hblank
        have hmarks := eq_marks_of_quoteless (atomic_cons.mp hrest).2
          fun c hc => ofChar?_of_isSeparator (Text.isSeparator_of_isBlank (hblank c hc))
        cases lexeme with
        | mark c =>
            obtain rfl : c = ';' := by simpa [isInner, isMark] using hfirst
            refine ⟨front, ';' :: textOf rest, ?_, rfl, .inr ⟨textOf rest, rfl, hblank⟩⟩
            rw [← hsplit]
            exact congrArg (fun rest => front ++ mark ';' :: rest) hmarks
        | literal _ _ => simp [isInner, isMark] at hfirst
        | word _ | lineComment _ | blockComment _ => exact (atomic_cons.mp hrest).1.elim
  · exact absurd hsingle (by simp)

namespace LocatedClause

/-! ## Clauses -/

theorem entries_passes : (RowFinder.ofKeywords entries).Passes :=
  Lexeme.Holds.ofKeywords_passes (by decide) (by decide)

/-- A keyword in front of a row begins with a letter. -/
theorem isTopLevel_of_rest? {keyword : Keyword} {words : List Text} {word : Text} {c : Char}
    {before : Option Char} {back : List Lexeme} (hform : keyword.form = .phrase ((c :: word) :: words))
    (hc : c.isUpper = true) (hrest : keyword.rest? before row = some back) :
    ∃ lexeme others, row = lexeme :: others ∧ lexeme.isTopLevel 0 = true := by
  obtain ⟨text, rfl, hspells⟩ := Keyword.exists_of_rest? hrest
  rw [Keyword.Spells, hform] at hspells
  obtain ⟨first, rest, rfl, hfirst, -⟩ := hspells
  cases first with
  | nil => simp at hfirst
  | cons d first =>
      obtain ⟨rfl, -⟩ := List.cons.inj hfirst
      refine ⟨mark d, marks (first ++ rest) ++ back, rfl, ?_⟩
      have hne : ∀ e : Char, e.toUpper.isUpper = false → d ≠ e := by
        rintro e he rfl
        rw [hc] at he
        exact absurd he (by decide)
      simp [isTopLevel, isCode, kind, nesting, hne '(' (by decide), hne ')' (by decide)]

/-- A row in front of which a mark stands has no part before its first mark. -/
theorem head_eq_nil {α : Type} {seek : RowFinder α} {before : Option Char} {lexeme : Lexeme}
    {rest head : List Lexeme} {cuts : List (RowCut α)} {found : α × List Lexeme}
    (htop : lexeme.isTopLevel 0 = true) (hseek : seek before (lexeme :: rest) = some found)
    (hcuts : Cuts seek 0 before (lexeme :: rest) head cuts) : head = [] := by
  cases hcuts with
  | pass hnone _ =>
      rw [hnone htop] at hseek
      exact absurd hseek (by simp)
  | mark _ _ _ _ => rfl

/-- The marks of a row are found again behind the first of them. -/
theorem cuts_behind {α : Type} {seek : RowFinder α} {depth : Int} {before : Option Char}
    {head : List Lexeme} {first second : List (RowCut α)}
    (hcuts : Cuts seek depth before row head (first ++ second)) :
    Cuts seek 0 (lastOf before (head ++ first.flatMap RowCut.row)) (second.flatMap RowCut.row) []
      second := by
  induction first generalizing depth before row head with
  | nil => simpa using hcuts.rest
  | cons cut first ih =>
      have hrest := hcuts.rest
      generalize (cut :: first ++ second).flatMap RowCut.row = row at hrest
      cases hrest with
      | mark _ _ _ hback =>
          have hbehind := ih hback
          rw [← lastOf_append, ← lastOf_append] at hbehind
          simpa [RowCut.row] using hbehind

/-- A keyword in front of a row stands apart from what is before it. -/
theorem apart_of_cuts {before : Option Char} {cut : RowCut (String × Clause)}
    {cuts : List (RowCut (String × Clause))}
    (hcuts : Cuts (RowFinder.ofKeywords entries) 0 before row [] (cut :: cuts)) :
    before.any Text.isTokenChar = false := by
  cases hcuts with
  | mark _ _ hseek _ =>
      obtain ⟨entry, hmem, hfound⟩ := List.exists_of_findSome?_eq_some hseek
      obtain ⟨found, hrest, -⟩ := Option.map_eq_some_iff.mp hfound
      have hphrase : ∀ entry ∈ entries, ∃ words, entry.1.form = .phrase words := by
        intro entry hmem
        fin_cases hmem <;> exact ⟨_, rfl⟩
      obtain ⟨words, hform⟩ := hphrase entry hmem
      exact Lexeme.Holds.any_isTokenChar (Keyword.bounded_of_rest? hform hrest).1

/-- The text of LIMIT and OFFSET goes on over all their keywords. -/
theorem text_pagingOf {segments : List (Segment (String × Clause))}
    {cuts : List (RowCut (String × Clause))} (hcuts : segments.map Segment.cut = cuts.map RowCut.cut)
    (hpaging : ∀ segment ∈ segments, segment.label.2 = .paging) :
    ∀ located ∈ pagingOf segments, located.clause = .paging ∧
      located.body.text = textOf (cuts.flatMap RowCut.row) := by
  have hflat := congrArg (List.flatMap fun cut => cut.mark ++ cut.body) hcuts
  rw [List.flatMap_map, List.flatMap_map] at hflat
  have htext : textOf (cuts.flatMap RowCut.row) =
      segments.flatMap fun segment => segment.mark.text ++ segment.body.text := by
    rw [textOf, List.flatMap_assoc]
    refine Eq.trans ?_ hflat.symm
    simp [RowCut.cut, RowCut.row, textOf]
  intro located hlocated
  obtain ⟨hclause, -, hbody⟩ := body_of_pagingOf hpaging located hlocated
  exact ⟨hclause, hbody.trans htext.symm⟩

theorem exists_seek_of_cuts {α : Type} {seek : RowFinder α} {depth : Int} {before : Option Char}
    {head : List Lexeme} {cuts : List (RowCut α)} (hcuts : Cuts seek depth before row head cuts) :
    ∀ cut ∈ cuts, ∃ before row back, seek before row = some (cut.label, back) := by
  induction hcuts with
  | nil => exact List.forall_mem_nil _
  | pass _ _ ih => exact ih
  | mark _ _ hseek _ ih => exact List.forall_mem_cons.mpr ⟨⟨_, _, _, hseek⟩, ih⟩

theorem label_ne_join {depth : Int} {before : Option Char} {head : List Lexeme}
    {cuts : List (RowCut (String × Clause))}
    (hcuts : Cuts (RowFinder.ofKeywords entries) depth before row head cuts) :
    ∀ cut ∈ cuts, cut.label.2 ≠ .join := by
  intro cut hmem
  obtain ⟨before, row, back, hseek⟩ := exists_seek_of_cuts hcuts cut hmem
  obtain ⟨entry, hentry, hfound⟩ := List.exists_of_findSome?_eq_some hseek
  obtain ⟨found, -, hpair⟩ := Option.map_eq_some_iff.mp hfound
  rw [← (Prod.mk.inj hpair).1]
  have hentries : ∀ entry ∈ entries, entry.2.2 ≠ .join := by decide
  exact hentries entry hentry

/-- A statement has SELECT in front, so its cuts are all of it behind the first blanks. -/
theorem exists_cuts_of_select {clauses : List LocatedClause} (hsound : Sound row)
    (hlocate : locate (textOf row) = .ok clauses) :
    ∃ cuts, Cuts (RowFinder.ofKeywords entries) 0 none (row.dropWhile isGap) [] cuts ∧
      ((Fragment.mk (textOf row) 0).skipAsciiBlanks.segment finder).tail.map Segment.cut =
        cuts.map RowCut.cut := by
  have hfirm : ∀ entry ∈ entries, entry.1.isFirm = true := by decide
  have hback := hsound.part (List.dropWhile_suffix isGap).isInfix
  have htext : (Fragment.mk (textOf row) 0).skipAsciiBlanks.text = textOf (row.dropWhile isGap) :=
    Fragment.text_skipAsciiBlanks hsound rfl
  obtain ⟨head, cuts, hcuts⟩ := Cuts.exists_cuts (Finder.ofKeywords_follows hfirm) 0 none hback.atomic
  have hfollows := hback.follows (Finder.ofKeywords_follows hfirm) htext hcuts
  obtain ⟨⟨count, hselect⟩, -, -⟩ := collect_of_locate hlocate
  rw [htext, hback.cells_textOf, Keyword.length?_cellsOf_row true rfl hback.atomic,
    Option.map_eq_some_iff] at hselect
  obtain ⟨rest, hrest, -⟩ := hselect
  obtain ⟨lexeme, others, hrow, htop⟩ := isTopLevel_of_rest? (by rfl) (by rfl) hrest
  have hseek : RowFinder.ofKeywords entries none (row.dropWhile isGap) =
      some ((Keyword.select.name, .select), rest) := by
    rw [RowFinder.ofKeywords, entries, List.map_cons, List.findSome?_cons]
    dsimp only
    rw [hrest]
    rfl
  obtain rfl : head = [] := by
    rw [hrow] at hseek hcuts
    exact head_eq_nil htop hseek hcuts
  exact ⟨cuts, hcuts, hfollows.tail_eq⟩

theorem map_clause_eq {segments : List (Segment (String × Clause))}
    {cuts : List (RowCut (String × Clause))}
    (hcuts : segments.map Segment.cut = cuts.map RowCut.cut) :
    (cuts.map fun cut => cut.label.2) = segments.map fun segment => segment.label.2 := by
  have hlabel := congrArg (List.map fun cut => cut.label.2) hcuts.symm
  rwa [List.map_map, List.map_map] at hlabel

/-- In front of LIMIT and OFFSET the body of a clause is what stands behind its keyword. -/
theorem forall₂_body {segments : List (Segment (String × Clause))}
    {cuts : List (RowCut (String × Clause))}
    (hcuts : segments.map Segment.cut = cuts.map RowCut.cut)
    (hmain : ∀ cut ∈ cuts, cut.label.2 ≠ .paging) :
    List.Forall₂ (fun cut located => located.clause = cut.label.2 ∧
      located.body.text = textOf cut.body) cuts (segments.map ofSegment) := by
  have hsame : List.Forall₂ Eq (cuts.map RowCut.cut) (segments.map Segment.cut) := by
    rw [hcuts]
    exact List.forall₂_refl _
  rw [List.forall₂_map_left_iff, List.forall₂_map_right_iff] at hsame
  rw [List.forall₂_map_right_iff]
  refine List.Forall₂.imp ?_ ((List.forall₂_and_left cuts segments).mpr ⟨hmain, hsame⟩)
  rintro cut segment ⟨hne, heq⟩
  obtain ⟨hlabel, -, hbody⟩ := Cut.mk.inj heq
  rw [hlabel] at hne ⊢
  rw [ofSegment, if_neg hne]
  exact ⟨rfl, hbody.symm⟩

/-- The clauses of a statement as parts of its row. -/
theorem exists_cuts_of_locate {clauses : List LocatedClause} (hsound : Sound row)
    (hlocate : locate (textOf row) = .ok clauses) :
    ∃ main paging segments last, Cuts (RowFinder.ofKeywords entries) 0 none (row.dropWhile isGap) []
        (main ++ paging) ∧
      (∀ cut ∈ main, cut.label.2 ≠ .paging) ∧ (∀ cut ∈ paging, cut.label.2 = .paging) ∧
      main.Pairwise (fun first second => first.label.2.rank < second.label.2.rank) ∧
      clauses = segments ++ last.toList ∧
      List.Forall₂ (fun cut located => located.clause = cut.label.2 ∧
        located.body.text = textOf cut.body) main segments ∧
      (∀ located ∈ last, located.clause = .paging ∧
        located.body.text = textOf (paging.flatMap RowCut.row)) ∧
      (last = none → paging = []) := by
  obtain ⟨cuts, hcuts, htail⟩ := exists_cuts_of_select hsound hlocate
  obtain ⟨-, hcollect, -⟩ := collect_of_locate hlocate
  obtain ⟨main, paging, hsegments, hmain, hpaging, rfl, hpairs⟩ := exists_of_collect hcollect
  rw [hsegments, List.map_append, eq_comm, List.map_eq_append_iff] at htail
  obtain ⟨mainCuts, pagingCuts, rfl, hmainCuts, hpagingCuts⟩ := htail
  -- What is known of the clauses of the segments holds for the labels of the cuts.
  have hmainLabels : ∀ clause ∈ mainCuts.map fun cut => cut.label.2, clause ≠ .paging := by
    rw [map_clause_eq hmainCuts.symm]
    exact List.forall_mem_map.mpr hmain
  have hpagingLabels : ∀ clause ∈ pagingCuts.map fun cut => cut.label.2, clause = .paging := by
    rw [map_clause_eq hpagingCuts.symm]
    exact List.forall_mem_map.mpr hpaging
  have hranks : (mainCuts.map fun cut => cut.label.2).Pairwise fun first second =>
      first.rank < second.rank := by
    rw [map_clause_eq hmainCuts.symm]
    exact List.pairwise_map.mpr hpairs
  rw [List.forall_mem_map] at hmainLabels hpagingLabels
  rw [List.pairwise_map] at hranks
  refine ⟨mainCuts, pagingCuts, main.map ofSegment, pagingOf paging, hcuts, hmainLabels,
    hpagingLabels, hranks, rfl, forall₂_body hmainCuts.symm hmainLabels,
    text_pagingOf hpagingCuts.symm hpaging, fun hnone => ?_⟩
  cases paging with
  | nil => simpa using hpagingCuts
  | cons segment paging => simp [pagingOf] at hnone

end LocatedClause

/-! ## Whole statements -/

theorem Statement.exists_of_foldlM {clauses : List LocatedClause} {query after : Query}
    (hread : clauses.foldlM readClause query = .ok after) :
    ∀ located ∈ clauses, ∃ before after, readClause before located = .ok after := by
  induction clauses generalizing query with
  | nil => exact List.forall_mem_nil _
  | cons located clauses ih =>
      rw [List.foldlM_cons, bind_eq_ok] at hread
      obtain ⟨middle, hmiddle, hrest⟩ := hread
      exact List.forall_mem_cons.mpr ⟨⟨query, middle, hmiddle⟩, ih hrest⟩

namespace Query

/-- Clauses that come in their order hold the tokens of a query, if the query has nothing
in the others. -/
theorem flatMap_tokensOf {clauses : List Clause}
    (hranks : clauses.Pairwise fun first second => first.rank < second.rank)
    (hothers : ∀ clause, clause ∉ clauses → query.tokensOf clause = []) :
    clauses.flatMap query.tokensOf = query.tokens := by
  let all : List Clause := [.select, .from_, .join, .where_, .groupBy, .having, .orderBy, .paging]
  have hmem : ∀ clause, clause ∈ all := by
    intro clause
    cases clause <;> decide
  have hall : all.Pairwise fun first second => first.rank < second.rank := by decide
  have hantisymm : Std.Antisymm fun first second : Clause => first.rank < second.rank :=
    ⟨fun _ _ hless hmore => absurd (hless.trans hmore) (lt_irrefl _)⟩
  have hirrefl : Std.Irrefl fun first second : Clause => first.rank < second.rank :=
    ⟨fun _ => lt_irrefl _⟩
  have hfilter : clauses = all.filter (· ∈ clauses) :=
    hranks.eq_of_mem_iff (hall.filter _) fun clause => by simp [hmem clause]
  have hflat : ∀ list : List Clause,
      (list.filter (· ∈ clauses)).flatMap query.tokensOf = list.flatMap query.tokensOf := by
    intro list
    induction list with
    | nil => rfl
    | cons clause list ih =>
        by_cases hclause : clause ∈ clauses
        · rw [List.filter_cons_of_pos (by simpa using hclause), List.flatMap_cons, ih,
            List.flatMap_cons]
        · rw [List.filter_cons_of_neg (by simpa using hclause), ih, List.flatMap_cons,
            hothers clause hclause, List.nil_append]
  rw [hfilter, hflat, tokens]
  simp [all, tokensOf]

section Main

variable {main paging : List (RowCut (String × Clause))} {segments : List LocatedClause}
  {last : Option LocatedClause}

/-- No clause of a statement comes twice, for their ranks grow up to LIMIT and OFFSET. -/
theorem nodup_clause
    (hlabels : segments.map LocatedClause.clause = main.map fun cut => cut.label.2)
    (hmain : ∀ cut ∈ main, cut.label.2 ≠ .paging)
    (hsorted : (main.map fun cut => cut.label.2).Pairwise fun first second =>
      first.rank < second.rank)
    (hlast : ∀ located ∈ last, located.clause = .paging) :
    ((segments ++ last.toList).map LocatedClause.clause).Nodup := by
  rw [List.map_append, hlabels]
  refine List.Nodup.append (hsorted.imp fun hless heq => ?_) ?_ ?_
  · rw [heq] at hless
    exact lt_irrefl _ hless
  · cases last <;> simp
  · intro clause hmem hpaging
    obtain ⟨cut, hcut, rfl⟩ := List.mem_map.mp hmem
    obtain ⟨located, hlocated, hclause⟩ := List.mem_map.mp hpaging
    rw [hlast located (by simpa using hlocated)] at hclause
    exact hmain cut hcut hclause.symm

/-- The clauses of a statement up to LIMIT and OFFSET hold the tokens of the query. -/
theorem holds_of_foldlM (hsound : Sound row)
    (hcuts : Cuts (RowFinder.ofKeywords LocatedClause.entries) 0 none row [] (main ++ paging))
    (hmain : ∀ cut ∈ main, cut.label.2 ≠ .paging)
    (hranks : main.Pairwise fun first second => first.label.2.rank < second.label.2.rank)
    (hbodies : List.Forall₂ (fun cut located => located.clause = cut.label.2 ∧
      located.body.text = textOf cut.body) main segments)
    (hlast : ∀ located ∈ last, located.clause = .paging)
    (hread : (segments ++ last.toList).foldlM Statement.readClause {} = .ok query) :
    Lexeme.Holds (main.flatMap RowCut.row) query.tokens := by
  have hlabels : segments.map LocatedClause.clause = main.map fun cut => cut.label.2 := by
    rw [eq_comm, ← List.forall₂_eq_eq_eq, List.forall₂_map_left_iff, List.forall₂_map_right_iff]
    exact hbodies.imp fun _ _ hbody => hbody.1.symm
  have hsorted : (main.map fun cut => cut.label.2).Pairwise fun first second =>
      first.rank < second.rank := List.pairwise_map.mpr hranks
  obtain ⟨hheld, hothers⟩ :=
    Statement.holds_of_foldlM hread (nodup_clause hlabels hmain hsorted hlast)
  have hjoin := LocatedClause.label_ne_join hcuts
  have hparts := hcuts.row_eq ▸ hsound
  rw [List.nil_append] at hparts
  have hforall : List.Forall₂ (fun cut body => Lexeme.Holds cut.body body) main
      (main.map fun cut => query.tokensOf cut.label.2) := by
    rw [List.forall₂_map_right_iff, List.forall₂_same]
    intro cut hmem
    obtain ⟨located, hsegment, hclause, hbody⟩ := exists_of_forall₂ hbodies cut hmem
    have hfound := hheld located (List.mem_append_left _ hsegment)
    rw [hclause] at hfound
    have hcut := RowCut.sound_of_mem hparts (List.mem_append_left _ hmem)
    exact hfound (hjoin cut (List.mem_append_left _ hmem)) (hmain cut hmem) cut.body hcut.2 hbody
  -- The clauses without a cut were never read, so the query has nothing in them.
  have hclauses : (main.map fun cut => cut.label.2).flatMap query.tokensOf = query.tokens := by
    refine flatMap_tokensOf hsorted fun clause hclause => ?_
    by_cases hpaging : clause = .paging
    · rw [hpaging]
      rfl
    · rw [hothers clause]
      · cases clause <;> rfl
      · rw [List.map_append, hlabels, List.mem_append, not_or]
        refine ⟨hclause, fun hmem => ?_⟩
        obtain ⟨located, hlocated, rfl⟩ := List.mem_map.mp hmem
        exact hpaging (hlast located (by simpa using hlocated))
  have hwhole : Lexeme.Holds ([] ++ ([] ++ main.flatMap RowCut.row)) _ :=
    .of_cuts_append LocatedClause.entries_passes hsound.atomic hcuts (.inl rfl) .nil hforall
  rw [List.nil_append, List.nil_append, List.nil_append, ← List.flatMap_def] at hwhole
  rw [List.flatMap_map] at hclauses
  rw [hclauses] at hwhole
  exact hwhole

end Main

/-- What is read from a statement, in terms of the cuts of its row. -/
theorem exists_cuts_of_ofText (hread : ofText text = .ok query) (hsound : Sound row)
    (htext : text.maskComments = textOf row) :
    ∃ front back main paging, row = front ++ marks back ∧
      Cuts (RowFinder.ofKeywords LocatedClause.entries) 0 none (front.dropWhile isGap) []
        (main ++ paging) ∧
      (∀ cut ∈ main, cut.label.2 ≠ .paging) ∧ (∀ cut ∈ paging, cut.label.2 = .paging) ∧
      Lexeme.Holds (front.takeWhile isGap ++ main.flatMap RowCut.row) query.tokens ∧
      Paging.Closes (paging.flatMap RowCut.row) ∧ Text.IsEnd back := by
  obtain ⟨statement, clauses, -, hsingle, -, -, hlocate, hfold⟩ := exists_of_ofText hread
  rw [htext] at hsingle
  obtain ⟨front, back, rfl, rfl, hback⟩ := Statement.exists_of_single hsound hsingle
  obtain ⟨main, paging, segments, last, hcuts, hmain, hpaging, hranks, rfl, hbodies, hlast, hnone⟩ :=
    LocatedClause.exists_cuts_of_locate hsound.left hlocate
  have hstatement := hsound.left.part (List.dropWhile_suffix isGap).isInfix
  have hparts := hcuts.row_eq ▸ hstatement
  rw [List.nil_append, List.flatMap_append] at hparts
  refine ⟨front, back, main, paging, rfl, hcuts, hmain, hpaging, ?_, ?_, hback⟩
  · obtain ⟨gap, hgap, hblank⟩ := exists_takeWhile_isMark Text.isAsciiBlank front
    rw [← funext isGap_eq] at hgap
    rw [hgap]
    apply Lexeme.Holds.pad_left (Lexeme.Holds.isSeparator_of_gap hblank)
    exact holds_of_foldlM hstatement hcuts hmain hranks hbodies (fun _ hmem => (hlast _ hmem).1) hfold
  · cases last with
    | none =>
        rw [hnone rfl]
        exact Paging.closes_nil
    | some located =>
        obtain ⟨hclause, hbody⟩ := hlast located rfl
        obtain ⟨before, after, hclauseRead⟩ := Statement.exists_of_foldlM hfold located (by simp)
        rw [Statement.readClause, hclause, bind_eq_ok] at hclauseRead
        obtain ⟨found, hfound, -⟩ := hclauseRead
        exact Paging.closes_of_read hbody rfl hparts.right hfound

/-- A text that is read falls into a finely cut row. -/
theorem exists_fine_of_ofText (hread : ofText text = .ok query) :
    ∃ row, Fine none row ∧ textOf row = text := by
  obtain ⟨-, -, hclosed, -⟩ := exists_of_ofText hread
  exact exists_fine (Statement.rejectUnclosed_eq_ok_iff.mp hclosed)

/-- A statement is what holds the tokens of its query, and behind it LIMIT and OFFSET, a
semicolon and blanks. -/
theorem exists_front_of_ofText (hread : ofText text = .ok query) (hsound : Sound row)
    (htext : text.maskComments = textOf row) :
    ∃ front back, row = front ++ marks back ∧ Lexeme.Holds front query.tokens ∧
      Apart front (marks back) ∧ ∀ c ∈ back, Text.isClosing c = true := by
  obtain ⟨statement, tail, main, paging, rfl, hcuts, -, -, hholds, hcloses, hend⟩ :=
    exists_cuts_of_ofText hread hsound htext
  obtain ⟨middle, hmiddle, hclosing⟩ := hcloses
  refine ⟨_, middle ++ tail, ?_, hholds, ?_, List.forall_mem_append.mpr ⟨hclosing, hend.isClosing⟩⟩
  · have hrow := hcuts.row_eq
    rw [List.nil_append, List.flatMap_append, hmiddle] at hrow
    have hsplit := @List.takeWhile_append_dropWhile _ isGap statement
    rw [hrow] at hsplit
    rw [marks_append, ← List.append_assoc, List.append_assoc (statement.takeWhile isGap), hsplit]
  · have hbehind := LocatedClause.cuts_behind hcuts
    cases paging with
    | nil =>
        obtain rfl : middle = [] := List.map_eq_nil_iff.mp hmiddle.symm
        exact .inr (by rw [textOf_marks, List.nil_append, hend.isTokenChar])
    | cons cut paging =>
        left
        have hlast := LocatedClause.apart_of_cuts hbehind
        obtain ⟨gap, hgap, hblank⟩ := exists_takeWhile_isMark Text.isAsciiBlank statement
        rw [← funext isGap_eq] at hgap
        have hfirst := Lexeme.Holds.any_lastOf_marks (Lexeme.Holds.isSeparator_of_gap hblank)
        rw [List.nil_append, lastOf_eq] at hlast
        rw [hgap, lastOf_append, lastOf_eq]
        cases hc : (textOf (main.flatMap RowCut.row)).getLast? with
        | none => exact hfirst
        | some c =>
            rw [hc] at hlast
            exact hlast

end Query

end SelectForm

import Mathlib
import SelectForm.Proofs.Statement.CollectClauses
import SelectForm.Proofs.Statement.ReadClause

/-!
# Locating written clauses

The keywords of a written statement are found in the order in which they were written,
so a statement falls into the clauses that its parts make.  Collecting the clauses is
followed step by step: a keyword of higher rank adds a clause, and `OFFSET` behind
`LIMIT` adds to the clause before it.
-/

namespace SelectForm

open Lexeme

/-! ## Cuts -/

namespace Marked

variable {α : Type}

theorem leadOf_append (trail : List Lexeme) (first second : List (Marked α)) :
    leadOf trail (first ++ second) = leadOf (leadOf trail second) first := by
  cases first <;> rfl

theorem cuts_append (trail : List Lexeme) (first second : List (Marked α)) :
    cuts trail (first ++ second) = cuts (leadOf trail second) first ++ cuts trail second := by
  induction first with
  | nil => rfl
  | cons marked first ih =>
      rw [List.cons_append, cuts, cuts, ih, leadOf_append]
      rfl

theorem map_label_cuts (trail : List Lexeme) (row : List (Marked α)) :
    (cuts trail row).map Cut.label = row.map label := by
  induction row with
  | nil => rfl
  | cons marked row ih => rw [cuts, List.map_cons, List.map_cons, ih]

/-- Every cut is one of the marked bodies, with what stands in front of the next
one. -/
theorem exists_of_mem_cuts {trail : List Lexeme} {row : List (Marked α)} {cut : Cut α}
    (hmem : cut ∈ cuts trail row) :
    ∃ marked ∈ row, ∃ lead, (lead = trail ∨ ∃ other ∈ row, lead = other.lead) ∧
      cut = ⟨marked.label, textOf marked.mark, textOf (marked.body ++ lead)⟩ := by
  induction row with
  | nil => simp [cuts] at hmem
  | cons marked row ih =>
      rw [cuts, List.mem_cons] at hmem
      rcases hmem with rfl | hmem
      · refine ⟨marked, List.mem_cons_self, leadOf trail row, ?_, rfl⟩
        cases row with
        | nil => exact .inl rfl
        | cons next row =>
            exact .inr ⟨next, List.mem_cons_of_mem marked List.mem_cons_self, rfl⟩
      · obtain ⟨other, hother, lead, hlead, hcut⟩ := ih hmem
        refine ⟨other, List.mem_cons_of_mem marked hother, lead, ?_, hcut⟩
        obtain hlead | ⟨next, hnext, hlead⟩ := hlead
        · exact .inl hlead
        · exact .inr ⟨next, List.mem_cons_of_mem marked hnext, hlead⟩

end Marked

/-! ## Collecting -/

namespace LocatedClause

variable {seen : List String} {before : List LocatedClause}
  {segment : Segment (String × Clause)} {rest : List (Segment (String × Clause))}

/-- A keyword of higher rank adds a clause. -/
theorem collect_cons (hname : segment.label.1 ∉ seen)
    (hrank : ∀ last ∈ before.head?, last.clause.rank < segment.label.2.rank)
    (hbody : (ofSegment segment).body.isBlank = false) :
    collect seen before (segment :: rest) =
      collect (segment.label.1 :: seen) (ofSegment segment :: before) rest := by
  have hseen : seen.contains segment.label.1 = false := by simpa using hname
  rw [collect]
  simp only [hseen, hbody, Bool.false_eq_true, if_false]
  cases before with
  | nil => rfl
  | cons last earlier =>
      have hlast := hrank last rfl
      have hmerge : ¬ (segment.label.2 = .paging ∧ last.clause = .paging) := by
        rintro ⟨hfirst, hsecond⟩
        rw [hfirst, hsecond] at hlast
        exact lt_irrefl _ hlast
      simp only [hmerge, if_false, if_neg (not_le.mpr hlast)]

/-- `OFFSET` behind `LIMIT` adds to the clause before it. -/
theorem collect_merge {last : LocatedClause} (hname : segment.label.1 ∉ seen)
    (hlast : last.clause = .paging) (hsegment : segment.label.2 = .paging) :
    collect seen (last :: before) (segment :: rest) =
      collect (segment.label.1 :: seen)
        ({ last with body := last.body.append (ofSegment segment).body } :: before) rest := by
  have hseen : seen.contains segment.label.1 = false := by simpa using hname
  rw [collect]
  simp only [hseen, hsegment, hlast, Bool.false_eq_true, if_false, and_self, if_true]

/-- Keywords of rising rank add a clause each. -/
theorem collect_append {front : List (Segment (String × Clause))}
    (hnames : ∀ segment ∈ front, segment.label.1 ∉ seen)
    (hranks : ∀ segment ∈ front, ∀ last ∈ before.head?, last.clause.rank < segment.label.2.rank)
    (hrising : front.Pairwise fun first second =>
      first.label.1 ≠ second.label.1 ∧ first.label.2.rank < second.label.2.rank)
    (hbodies : ∀ segment ∈ front, (ofSegment segment).body.isBlank = false) :
    collect seen before (front ++ rest) =
      collect ((front.map fun segment => segment.label.1).reverse ++ seen)
        ((front.map ofSegment).reverse ++ before) rest := by
  induction front generalizing seen before with
  | nil => rfl
  | cons segment front ih =>
      obtain ⟨hfirst, hothers⟩ := List.pairwise_cons.mp hrising
      rw [List.cons_append, collect_cons (hnames segment List.mem_cons_self)
        (hranks segment List.mem_cons_self) (hbodies segment List.mem_cons_self), ih]
      · simp
      · intro other hmem hseen
        rcases List.mem_cons.mp hseen with hsame | hseen
        · exact (hfirst other hmem).1 hsame.symm
        · exact hnames other (List.mem_cons_of_mem segment hmem) hseen
      · intro other hmem last hlast
        obtain rfl : ofSegment segment = last := by simpa using hlast
        exact (hfirst other hmem).2
      · exact hothers
      · exact fun other hmem => hbodies other (List.mem_cons_of_mem segment hmem)

/-! ## The keywords of clauses -/

/-- The first words of the keywords of clauses. -/
def stops : List Text :=
  ["SELECT", "FROM", "WHERE", "GROUP", "HAVING", "ORDER", "LIMIT", "OFFSET"].map String.toList

theorem finder_stopsAt : finder.StopsAt stops :=
  (Finder.ofKeywords_stopsAt isPlain_entries).mono (by decide)

end LocatedClause

namespace StatementParts

open Query (clauseOf)

variable {parts : StatementParts} {layout : Layout}

theorem head?_listLexemes (items : List (List Lexeme)) (rest : List Lexeme) :
    (layout.listLexemes items ++ rest).head?.any isGap = true := by
  have hgap := layout.isLayoutBlank_gap items.length
  rw [Layout.listLexemes]
  cases htext : layout.gap items.length with
  | nil => exact absurd htext hgap.1
  | cons c gap => exact (isSpacer_of_isLayoutBlank (hgap.2 c (by simp [htext]))).2.2

theorem head?_linkLexemes {links : List (Connector × ChainLink)} (hne : links ≠ []) :
    (layout.linkLexemes links).head?.any isGap = true := by
  cases links with
  | nil => exact absurd rfl hne
  | cons first others => rfl

/-- The keyword of every clause is found, a blank stands behind it, and it holds no
parentheses. -/
theorem announces_clauseRow (hsound : parts.IsSound) :
    ∀ marked ∈ parts.clauseRow layout,
      LocatedClause.finder.Announces marked.mark marked.label ∧
        marked.body.head?.any isGap = true ∧ nestingOf marked.mark = 0 := by
  have hannounces : ∀ {mark : List Lexeme} {label : String × Clause},
      (∃ first others, mark = first :: others ∧ first.isCode = true ∧ first.nesting = 0) →
        (∀ rest : List Lexeme, rest.head?.all isGap = true →
          Finder.behindAny? LocatedClause.entries (mark ++ rest) = some (label, rest)) →
            LocatedClause.finder.Announces mark label := fun hopens hfound =>
    Finder.ofKeywords_announces LocatedClause.isPlain_entries hopens hfound
  refine forall_mem_clauseRow hsound ?_ ?_ ?_ ?_ ?_ ?_
  · exact ⟨hannounces ⟨_, _, rfl, rfl, rfl⟩ fun _ _ => rfl, head?_listLexemes _ _, rfl⟩
  · intro hne
    exact ⟨hannounces ⟨_, _, rfl, rfl, rfl⟩ fun _ _ => rfl, head?_linkLexemes hne, rfl⟩
  · intro _
    exact ⟨hannounces ⟨_, _, rfl, rfl, rfl⟩ fun _ _ => rfl,
      by simpa [clauseOf] using @head?_listLexemes layout _ [], rfl⟩
  · intro hne
    exact ⟨hannounces ⟨_, _, rfl, rfl, rfl⟩ fun _ _ => rfl, head?_linkLexemes hne, rfl⟩
  · intro _
    exact ⟨hannounces ⟨_, _, rfl, rfl, rfl⟩ fun _ _ => rfl,
      by simpa [clauseOf] using @head?_listLexemes layout _ [], rfl⟩
  · intro lead keyword number _ hkeyword
    rcases hkeyword with rfl | rfl
    · have hmark : (pagingMarked (marks lead) (Keyword.limit, number)).mark =
          [word "LIMIT".toList] := rfl
      rw [hmark]
      exact ⟨hannounces ⟨_, _, rfl, rfl, rfl⟩ fun _ _ => rfl, rfl, rfl⟩
    · have hmark : (pagingMarked (marks lead) (Keyword.offset, number)).mark =
          [word "OFFSET".toList] := rfl
      rw [hmark]
      exact ⟨hannounces ⟨_, _, rfl, rfl, rfl⟩ fun _ _ => rfl, rfl, rfl⟩

/-- The keywords of clauses are found, and nothing else in a statement. -/
theorem isCutBy_statementRow (hsound : parts.IsSound) :
    ∀ marked ∈ parts.statementRow layout,
      marked.IsCutBy LocatedClause.finder LocatedClause.stops := by
  have hsubset : LocatedClause.stops ⊆ bodyStops := by decide
  have hclosed : ∀ {mark body : List Lexeme}, Solid (mark ++ body) → nestingOf mark = 0 →
      nestingOf body = 0 := by
    intro mark body hsolid hmark
    have hwhole := hsolid.nestingOf_eq
    rwa [nestingOf_append, hmark, zero_add] at hwhole
  refine List.forall_mem_cons.mpr ⟨?_, fun marked hmem => ?_⟩
  · constructor
    · exact Finder.ofKeywords_announces LocatedClause.isPlain_entries ⟨_, _, rfl, rfl, rfl⟩
        fun _ _ => rfl
    · rw [selectLexemes]
      cases parts.distinct with
      | true => rfl
      | false => simpa using @head?_listLexemes layout _ []
    · exact quiet_nil _
    · exact (quiet_selectLexemes hsound).mono hsubset
    · rfl
    · exact @hclosed [word "SELECT".toList] _ (solid_selectLexemes hsound) rfl
  · obtain ⟨hannounces, hgap, hmark⟩ := announces_clauseRow hsound marked hmem
    obtain ⟨hlead, hbody⟩ := quiet_clauseRow hsound marked hmem
    obtain ⟨hsolid, gap, -, hblank, hgapLead⟩ := isSolid_clauseRow hsound marked hmem
    constructor
    · exact hannounces
    · exact hgap
    · exact hlead.mono hsubset
    · exact hbody.mono hsubset
    · rw [hgapLead, nestingOf_marks hblank]
    · exact hclosed hsolid hmark

/-! ## The clauses of a statement -/

/-- The clauses in front of LIMIT. -/
def frontRow (layout : Layout) (parts : StatementParts) : List (Marked (String × Clause)) :=
  ⟨[], (Keyword.select.name, .select), [word "SELECT".toList], parts.selectLexemes layout⟩ ::
    clauseOf layout .from_ .from_ [word "FROM".toList] (parts.fromLexemes layout) ::
      parts.middleRow layout

theorem statementRow_eq (layout : Layout) (parts : StatementParts) :
    parts.statementRow layout = parts.frontRow layout ++ pagingRow layout parts.paging := rfl

/-- The labels of the clauses in front of LIMIT, in their order. -/
def frontLabels : List (String × Clause) :=
  [(Keyword.select.name, .select), (Keyword.from_.name, .from_), (Keyword.where_.name, .where_),
    (Keyword.groupBy.name, .groupBy), (Keyword.having.name, .having),
    (Keyword.orderBy.name, .orderBy)]

theorem pairwise_frontLabels : frontLabels.Pairwise fun first second =>
    first.1 ≠ second.1 ∧ first.2.rank < second.2.rank := by decide

theorem of_mem_frontLabels : ∀ label ∈ frontLabels, label.2 ≠ .paging ∧
    label.1 ≠ Keyword.limit.name ∧ label.1 ≠ Keyword.offset.name := by decide

theorem labels_frontRow (layout : Layout) (parts : StatementParts) :
    ((parts.frontRow layout).map Marked.label).Sublist frontLabels := by
  have hoptional : ∀ (empty : Bool) (marked : Marked (String × Clause)),
      ((if empty then [] else [marked]).map Marked.label).Sublist [marked.label] := by
    intro empty marked
    cases empty with
    | true => exact List.nil_sublist _
    | false => exact List.Sublist.refl _
  rw [frontRow, List.map_cons, List.map_cons, middleRow, List.map_append, List.map_append,
    List.map_append]
  exact ((((hoptional _ _).append (hoptional _ _)).append (hoptional _ _)).append
    (hoptional _ _)).cons_cons _ |>.cons_cons _

/-- Every clause of a statement is solid together with its keyword, stands behind
blanks or at the front, and its body is more than blanks. -/
theorem solid_statementRow (hsound : parts.IsSound) :
    ∀ marked ∈ parts.statementRow layout,
      (∃ gap : Text, (∀ c ∈ gap, isLayoutBlank c = true) ∧ marked.lead = marks gap) ∧
        Solid (marked.mark ++ marked.body) ∧ ∃ c ∈ textOf marked.body, Text.isBlank c = false := by
  intro marked hmem
  have hcut := isCutBy_statementRow hsound marked hmem
  have hparts : (∃ gap : Text, (∀ c ∈ gap, isLayoutBlank c = true) ∧ marked.lead = marks gap) ∧
      Solid (marked.mark ++ marked.body) := by
    rcases List.mem_cons.mp hmem with rfl | hmem
    · exact ⟨⟨[], List.forall_mem_nil _, rfl⟩, solid_selectLexemes hsound⟩
    · obtain ⟨hsolid, gap, -, hblank, hlead⟩ := isSolid_clauseRow hsound marked hmem
      exact ⟨⟨gap, hblank, hlead⟩, hsolid⟩
  refine ⟨hparts.1, hparts.2, ?_⟩
  obtain ⟨c, hc, hblank⟩ := hparts.2.tight.last
  have hne : textOf marked.body ≠ [] := by
    have hgap := hcut.gap
    cases hbody : marked.body with
    | nil => simp [hbody] at hgap
    | cons first others => cases first <;> simp_all [isGap, Lexeme.text]
  rw [textOf_append, List.getLast?_append_of_ne_nil _ hne] at hc
  exact ⟨c, List.mem_of_getLast? hc, hblank⟩

/-- The body of a clause in front of LIMIT is what the clause holds. -/
theorem body_frontRow (hsound : parts.IsSound) : ∀ marked ∈ parts.frontRow layout,
    marked.label.2 ≠ .paging ∧ marked.body = parts.bodyOf layout marked.label.2 := by
  intro marked hmem
  have hlabel := (labels_frontRow layout parts).subset (List.mem_map_of_mem hmem)
  have hpaging := (of_mem_frontLabels marked.label hlabel).1
  have hbody : ∀ marked ∈ parts.clauseRow layout,
      marked.label.2 ≠ .paging → marked.body = parts.bodyOf layout marked.label.2 := by
    refine forall_mem_clauseRow hsound ?_ ?_ ?_ ?_ ?_ ?_ <;> intros
    · rfl
    · rfl
    · rfl
    · rfl
    · rfl
    · contradiction
  refine ⟨hpaging, ?_⟩
  rcases List.mem_cons.mp (List.mem_append_left (pagingRow layout parts.paging) hmem) with
    rfl | hmem
  · rfl
  · exact hbody marked hmem hpaging

/-- The clauses in front of LIMIT, and LIMIT and OFFSET. -/
theorem map_clause_frontRow (layout : Layout) (parts : StatementParts) :
    (parts.frontRow layout).map (Prod.snd ∘ Marked.label) ++
        (if parts.paging.isEmpty then [] else [.paging]) = parts.clauses := by
  simp only [frontRow, middleRow, clauses, Clause.presentBut, List.map_cons, List.map_append,
    apply_ite (List.map (Prod.snd ∘ Marked.label)), List.map_nil, List.append_assoc,
    List.cons_append, List.nil_append]
  rfl

theorem nodup_names {entries : List (Keyword × UInt64)}
    (hentries : entries.map Prod.fst ∈
      [[], [Keyword.limit], [.offset], [.limit, .offset], [.offset, .limit]]) :
    (entries.map fun entry => entry.1.name).Nodup := by
  have hkeys : ∀ keys ∈ [[], [Keyword.limit], [.offset], [.limit, .offset], [.offset, .limit]],
      (keys.map Keyword.name).Nodup := by decide
  have hnames := hkeys _ hentries
  rwa [List.map_map] at hnames

end StatementParts

namespace LocatedClause

variable {parts : StatementParts} {layout : Layout}

/-- The clauses in front of LIMIT hold what is written of the statement. -/
theorem holds_ofSegment {gap : Text} {segment : Segment (String × Clause)}
    (hsound : parts.IsSound) (hgap : ∀ c ∈ gap, isLayoutBlank c = true)
    (hmem : segment.cut ∈ Marked.cuts (marks gap) (parts.frontRow layout)) :
    segment.label.2 ≠ .paging ∧ (ofSegment segment).Holds layout parts ∧
      (ofSegment segment).body.isBlank = false := by
  obtain ⟨marked, hmarked, lead, hlead, hcut⟩ := Marked.exists_of_mem_cuts hmem
  obtain ⟨label, keyword, ⟨text, start⟩⟩ := segment
  simp only [Segment.cut, Cut.mk.injEq] at hcut
  obtain ⟨rfl, -, rfl⟩ := hcut
  have hwhole : ∀ marked ∈ parts.frontRow layout, marked ∈ parts.statementRow layout :=
    fun marked hmem => List.mem_append_left _ hmem
  obtain ⟨hpaging, hbody⟩ := StatementParts.body_frontRow hsound marked hmarked
  obtain ⟨-, -, c, hc, hblank⟩ :=
    StatementParts.solid_statementRow hsound marked (hwhole marked hmarked)
  have htrail : ∃ trail : Text, (∀ c ∈ trail, isLayoutBlank c = true) ∧ lead = marks trail := by
    rcases hlead with rfl | ⟨other, hother, rfl⟩
    · exact ⟨gap, hgap, rfl⟩
    · exact (StatementParts.solid_statementRow hsound other (hwhole other hother)).1
  obtain ⟨trail, htrail, rfl⟩ := htrail
  refine ⟨hpaging, ⟨trail, htrail, fun h => absurd h hpaging, ?_⟩, ?_⟩
  · simp only [ofSegment, if_neg hpaging, textOf_append, textOf_marks, hbody]
  · simp only [ofSegment, if_neg hpaging, Fragment.isBlank, textOf_append]
    rw [List.all_append, List.all_eq_false.mpr ⟨c, hc, by simp [hblank]⟩, Bool.false_and]

/-- A number with its keyword is cut off as one segment. -/
theorem exists_pagingSegment {lead : List Lexeme} {entry : Keyword × UInt64}
    {row : List (Marked (String × Clause))} {segments : List (Segment (String × Clause))}
    (hcuts : segments.map Segment.cut =
      Marked.cuts [] (StatementParts.pagingMarked lead entry :: row)) :
    ∃ segment others, segments = segment :: others ∧
      segment.label = (entry.1.name, .paging) ∧
      (ofSegment segment).body.text =
        textOf (Paging.entryLexemes entry) ++ textOf (Marked.leadOf [] row) ∧
      others.map Segment.cut = Marked.cuts [] row := by
  cases segments with
  | nil => simp [Marked.cuts] at hcuts
  | cons segment others =>
      rw [List.map_cons, Marked.cuts, List.cons.injEq] at hcuts
      obtain ⟨label, ⟨keyword, place⟩, ⟨text, start⟩⟩ := segment
      simp only [Segment.cut, Cut.mk.injEq, StatementParts.pagingMarked] at hcuts
      obtain ⟨⟨rfl, rfl, rfl⟩, hothers⟩ := hcuts
      refine ⟨_, others, rfl, rfl, ?_, hothers⟩
      simp [ofSegment, Fragment.append, Paging.entryLexemes, Lexeme.text]

theorem clause_ofSegment {segment : Segment (String × Clause)} {name : String}
    {clause : Clause} (hlabel : segment.label = (name, clause)) :
    (ofSegment segment).clause = clause := by
  rw [ofSegment, hlabel]

/-- The first number with its keyword makes a clause. -/
theorem collect_paging {seen : List String} {before : List LocatedClause}
    {entry : Keyword × UInt64} {text : Text} {segment : Segment (String × Clause)}
    {rest : List (Segment (String × Clause))} (hentry : Paging.IsEntry entry)
    (hlabel : segment.label = (entry.1.name, .paging)) (hname : entry.1.name ∉ seen)
    (hbefore : ∀ last ∈ before.head?, last.clause.rank < Clause.paging.rank)
    (htext : (ofSegment segment).body.text = textOf (Paging.entryLexemes entry) ++ text) :
    collect seen before (segment :: rest) =
      collect (entry.1.name :: seen) (ofSegment segment :: before) rest := by
  have hbody : (ofSegment segment).body.isBlank = false := by
    obtain ⟨c, hc, hblank⟩ := (Paging.solid_entryLexemes hentry).tight.head
    rw [Fragment.isBlank, htext, List.all_append,
      List.all_eq_false.mpr ⟨c, List.mem_of_head? hc, by simp [hblank]⟩, Bool.false_and]
  rw [collect_cons (by rwa [hlabel]) (by rwa [hlabel]) hbody, hlabel]

/-- Numbers behind the first one add to its clause. -/
theorem collect_rest {entries : List (Keyword × UInt64)} {seen : List String}
    {before : List LocatedClause} {last : LocatedClause} {front : Text}
    {segments : List (Segment (String × Clause))}
    (hcuts : segments.map Segment.cut =
      Marked.cuts [] (entries.map (StatementParts.pagingMarked [mark ' '])))
    (hnames : ∀ entry ∈ entries, entry.1.name ∉ seen)
    (hnodup : (entries.map fun entry => entry.1.name).Nodup) (hlast : last.clause = .paging)
    (htext : last.body.text = front ++ textOf (Marked.leadOf []
      (entries.map (StatementParts.pagingMarked [mark ' '])))) :
    ∃ located, collect seen (last :: before) segments = .ok (before.reverse ++ [located]) ∧
      located.clause = .paging ∧
      located.body.text = front ++ textOf (Paging.restLexemes entries) := by
  induction entries generalizing seen last front segments with
  | nil =>
      obtain rfl := List.map_eq_nil_iff.mp hcuts
      exact ⟨last, by rw [collect, List.reverse_cons], hlast, htext⟩
  | cons entry entries ih =>
      obtain ⟨segment, others, rfl, hlabel, hbody, hothers⟩ := exists_pagingSegment hcuts
      obtain ⟨hname, hrestNames⟩ := List.forall_mem_cons.mp hnames
      rw [List.map_cons, List.nodup_cons] at hnodup
      have hmerge := @collect_merge seen before segment others last (by rwa [hlabel]) hlast
        (congrArg Prod.snd hlabel)
      rw [hlabel] at hmerge
      have hmerged : (last.body.append (ofSegment segment).body).text =
          (front ++ textOf (mark ' ' :: Paging.entryLexemes entry)) ++ textOf (Marked.leadOf []
            (entries.map (StatementParts.pagingMarked [mark ' ']))) := by
        rw [Fragment.append, htext, hbody]
        simp [Marked.leadOf, StatementParts.pagingMarked]
      obtain ⟨located, hcollect, hclause, hlocated⟩ := @ih (entry.1.name :: seen)
        { last with body := last.body.append (ofSegment segment).body } _ others hothers
        (fun other hmem => List.not_mem_cons_of_ne_of_not_mem
          (fun heq => hnodup.1 (heq ▸ List.mem_map_of_mem hmem)) (hrestNames other hmem))
        hnodup.2 hlast hmerged
      refine ⟨located, hmerge.trans hcollect, hclause, ?_⟩
      rw [hlocated]
      simp [Paging.restLexemes]

/-- LIMIT and OFFSET make one clause. -/
theorem collect_pagingRow {seen : List String} {before : List LocatedClause}
    {segments : List (Segment (String × Clause))} (hsound : parts.IsSound)
    (hcuts : segments.map Segment.cut =
      Marked.cuts [] (StatementParts.pagingRow layout parts.paging))
    (hlimit : Keyword.limit.name ∉ seen) (hoffset : Keyword.offset.name ∉ seen)
    (hbefore : ∀ last ∈ before.head?, last.clause.rank < Clause.paging.rank) :
    ∃ located, collect seen before segments = .ok (before.reverse ++ located) ∧
      located.map clause = (if parts.paging.isEmpty then [] else [.paging]) ∧
        ∀ entry ∈ located, entry.Holds layout parts := by
  have hentries := StatementParts.keyword_of_mem hsound.paging
  have hnodup := StatementParts.nodup_names hsound.paging
  have hnames : ∀ entry ∈ parts.paging, entry.1.name ∉ seen := by
    intro entry hmem
    rcases hentries entry hmem with hkeyword | hkeyword <;> rw [hkeyword]
    · exact hlimit
    · exact hoffset
  cases hpaging : parts.paging with
  | nil =>
      rw [hpaging] at hcuts
      obtain rfl := List.map_eq_nil_iff.mp hcuts
      exact ⟨[], by simp [collect], rfl, List.forall_mem_nil _⟩
  | cons first others =>
      rw [hpaging] at hcuts hentries hnodup hnames
      obtain ⟨segment, rest, rfl, hlabel, htext, hrest⟩ := exists_pagingSegment hcuts
      obtain ⟨hname, hrestNames⟩ := List.forall_mem_cons.mp hnames
      rw [List.map_cons, List.nodup_cons] at hnodup
      have hfirst := @collect_paging seen before first _ segment rest
        (hentries first List.mem_cons_self) hlabel hname hbefore htext
      obtain ⟨located, hcollect, hclause, hlocated⟩ := @collect_rest others
        (first.1.name :: seen) before (ofSegment segment) _ rest hrest
        (fun other hmem => List.not_mem_cons_of_ne_of_not_mem
          (fun heq => hnodup.1 (heq ▸ List.mem_map_of_mem hmem)) (hrestNames other hmem))
        hnodup.2 (clause_ofSegment hlabel) htext
      refine ⟨[located], hfirst.trans hcollect, by simp [hclause],
        List.forall_mem_singleton.mpr ⟨[], List.forall_mem_nil _, fun _ => rfl, ?_⟩⟩
      rw [hlocated, hclause, List.append_nil, StatementParts.bodyOf, hpaging, Paging.lexemes,
        textOf_append]

/-- LIMIT and OFFSET have blanks in front of them, or are not there. -/
theorem exists_leadOf_pagingRow (hsound : parts.IsSound) :
    ∃ gap : Text, (∀ c ∈ gap, isLayoutBlank c = true) ∧
      Marked.leadOf [] (StatementParts.pagingRow layout parts.paging) = marks gap := by
  cases hrow : StatementParts.pagingRow layout parts.paging with
  | nil => exact ⟨[], List.forall_mem_nil _, rfl⟩
  | cons marked row =>
      exact (StatementParts.solid_statementRow hsound marked
        (List.mem_append_right (parts.frontRow layout) (by simp [hrow]))).1

/-- The segments of a written statement are collected into its clauses. -/
theorem collect_statementRow {segments : List (Segment (String × Clause))}
    (hsound : parts.IsSound)
    (hcuts : segments.map Segment.cut = Marked.cuts [] (parts.statementRow layout)) :
    ∃ clauses, collect [] [] segments = .ok clauses ∧
      clauses.map clause = parts.clauses ∧
        ∀ located ∈ clauses, located.Holds layout parts := by
  obtain ⟨gap, hgap, hlead⟩ := @exists_leadOf_pagingRow parts layout hsound
  rw [StatementParts.statementRow_eq, Marked.cuts_append, hlead, List.map_eq_append_iff] at hcuts
  obtain ⟨front, back, rfl, hfront, hback⟩ := hcuts
  have hsegments := fun segment hmem => @holds_ofSegment parts layout gap segment hsound hgap
    (hfront ▸ List.mem_map_of_mem hmem)
  have hlabels : front.map Segment.label = (parts.frontRow layout).map Marked.label := by
    rw [← Marked.map_label_cuts (marks gap), ← hfront, List.map_map]
    rfl
  have hsublist := hlabels ▸ StatementParts.labels_frontRow layout parts
  have hpairs := StatementParts.pairwise_frontLabels.sublist hsublist
  have hnames : ∀ name ∈ front.map fun segment => segment.label.1,
      name ≠ Keyword.limit.name ∧ name ≠ Keyword.offset.name := by
    intro name hmem
    obtain ⟨segment, hsegment, rfl⟩ := List.mem_map.mp hmem
    have hlabel := hsublist.subset (List.mem_map_of_mem hsegment)
    exact (StatementParts.of_mem_frontLabels segment.label hlabel).2
  have hranks : ∀ last ∈ (front.map ofSegment).reverse.head?,
      last.clause.rank < Clause.paging.rank := by
    intro last hlast
    have hmem := List.mem_reverse.mp (List.mem_of_head? hlast)
    obtain ⟨segment, hsegment, rfl⟩ := List.mem_map.mp hmem
    exact rank_lt_paging (hsegments segment hsegment).1
  obtain ⟨located, hcollect, hclauses, hlocated⟩ := @collect_pagingRow parts layout
    (front.map fun segment => segment.label.1).reverse (front.map ofSegment).reverse back hsound
    hback
    (fun hmem => (hnames _ (List.mem_reverse.mp hmem)).1 rfl)
    (fun hmem => (hnames _ (List.mem_reverse.mp hmem)).2 rfl) hranks
  refine ⟨front.map ofSegment ++ located, ?_, ?_, ?_⟩
  · rw [collect_append (by simp) (by simp) (List.pairwise_map.mp hpairs)
      fun segment hmem => (hsegments segment hmem).2.2, List.append_nil, List.append_nil, hcollect,
      List.reverse_reverse]
  · have hfrontClauses := congrArg (List.map Prod.snd) hlabels
    rw [List.map_map, List.map_map] at hfrontClauses
    have hfrontMap : (front.map ofSegment).map clause =
        front.map (Prod.snd ∘ Segment.label) := by
      rw [List.map_map]
      rfl
    rw [List.map_append, hclauses, hfrontMap, hfrontClauses]
    exact StatementParts.map_clause_frontRow layout parts
  · intro entry hmem
    rcases List.mem_append.mp hmem with hmem | hmem
    · obtain ⟨segment, hsegment, rfl⟩ := List.mem_map.mp hmem
      exact (hsegments segment hsegment).2.1
    · exact hlocated entry hmem

/-- A written statement falls into the clauses of its parts, whatever blanks stand in
front of it. -/
theorem locate_lexemes {pad : Text} (hsound : parts.IsSound)
    (hpad : ∀ c ∈ pad, isLayoutBlank c = true) :
    ∃ clauses, locate (pad ++ textOf (parts.lexemes layout)) = .ok clauses ∧
      clauses.map clause = parts.clauses ∧
        ∀ located ∈ clauses, located.Holds layout parts := by
  have hsolid := @StatementParts.solid_lexemes layout parts hsound
  obtain ⟨place, hstart⟩ := @Fragment.skipAsciiBlanks_written _ _ [] hpad hsolid 0
  have hselect := @Fragment.length?_written .select _ [] rfl hsolid
    (List.forall_mem_nil _)
  have hbehind : Keyword.select.behind? (parts.lexemes layout ++ marks []) =
      some (parts.selectLexemes layout ++ Marked.lexemesOf [] (parts.clauseRow layout)) := by
    rw [marks, List.map_nil, List.append_nil, StatementParts.lexemes_eq]
    rfl
  have hsegments := @Fragment.segment_row _ finder stops [] [] (parts.statementRow layout)
    finder_stopsAt hsolid.clean.lexed (quiet_nil _) rfl (StatementParts.isCutBy_statementRow hsound)
    (quiet_nil _) place
  obtain ⟨clauses, hcollect, hclauses, hlocated⟩ := collect_statementRow hsound hsegments.2
  have hfrom : clauses.any (fun located => located.clause = .from_) = true := by
    have hmem : Clause.from_ ∈ clauses.map clause := by
      simp [hclauses, StatementParts.clauses, Clause.presentBut]
    obtain ⟨located, hmem, hclause⟩ := List.mem_map.mp hmem
    exact List.any_eq_true.mpr ⟨located, hmem, by simp [hclause]⟩
  refine ⟨clauses, ?_, hclauses, hlocated⟩
  rw [hbehind, Option.map_some, marks, List.map_nil, List.append_nil] at hselect
  rw [List.append_nil, marks, List.map_nil, List.append_nil] at hstart
  replace hcollect : collect [] []
      ((Fragment.mk (textOf (parts.lexemes layout)) place).segment finder).tail = .ok clauses :=
    hcollect
  rw [locate, hstart]
  simp only [hselect, hcollect]
  exact if_pos hfrom

end LocatedClause

end SelectForm

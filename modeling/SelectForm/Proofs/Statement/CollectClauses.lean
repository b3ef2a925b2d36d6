import Mathlib
import SelectForm.Statement.LocatedClause
import SelectForm.Proofs.Lexis.Recut
import SelectForm.Proofs.Statement.ReadCanonical

/-!
# How clauses are collected

Keywords are collected in two stages.  Up to the first `LIMIT` or `OFFSET` each keyword
opens a clause of its own, behind the one before it; from there on all keywords are `LIMIT`
or `OFFSET` and belong to one clause.  What follows for the clauses of a statement is read
off from these two stages.
-/

namespace SelectForm

namespace LocatedClause

/-! ## The keywords of clauses -/

/-- The entries of the finder. -/
def entries : List (Keyword × String × Clause) :=
  [(.select, .select), (.from_, .from_), (.where_, .where_), (.groupBy, .groupBy),
      (.having, .having), (.orderBy, .orderBy), (.limit, .paging), (.offset, .paging)].map
    fun (keyword, clause) => (keyword, (keyword.name, clause))

theorem isPlain_entries : ∀ entry ∈ entries, entry.1.isPlain = true := by
  decide

theorem arePhrases_entries : Finder.ArePhrases entries := by
  unfold Finder.ArePhrases
  decide

theorem finder_eq : finder = Finder.ofKeywords entries := rfl

/-! ## Collecting -/

/-- The clause that the keywords `LIMIT` and `OFFSET` make together. -/
def pagingOf : List (Segment (String × Clause)) → Option LocatedClause
  | [] => none
  | first :: others =>
    some { ofSegment first with
      body := others.foldl (fun body segment => body.append (ofSegment segment).body)
        (ofSegment first).body }

variable {seen : List String} {before clauses : List LocatedClause}
  {segments : List (Segment (String × Clause))}

theorem rank_lt_paging {clause : Clause} (hne : clause ≠ .paging) :
    clause.rank < Clause.paging.rank := by
  cases clause with
  | paging => exact absurd rfl hne
  | _ => decide

/-- A keyword that is collected is new.  It belongs to the clause before it, or opens a clause of
its own behind that one, which is not empty. -/
theorem step_of_collect {segment : Segment (String × Clause)}
    (hcollect : collect seen before (segment :: segments) = .ok clauses) :
    segment.label.1 ∉ seen ∧
      ((∃ last earlier, before = last :: earlier ∧ segment.label.2 = .paging ∧
          last.clause = .paging ∧
          collect (segment.label.1 :: seen)
            ({ last with body := last.body.append (ofSegment segment).body } :: earlier) segments =
            .ok clauses) ∨
        collect (segment.label.1 :: seen) (ofSegment segment :: before) segments = .ok clauses ∧
          (∀ last ∈ before.head?, last.clause.rank < segment.label.2.rank) ∧
          (ofSegment segment).body.isBlank = false) := by
  obtain ⟨⟨name, clause⟩, mark, body⟩ := segment
  rw [collect] at hcollect
  dsimp only at hcollect
  split at hcollect
  · exact absurd hcollect (by simp)
  · rename_i hseen
    refine ⟨by simpa using hseen, ?_⟩
    split at hcollect
    · rename_i last earlier
      split at hcollect
      · rename_i hpaging
        exact .inl ⟨last, earlier, rfl, hpaging.1, hpaging.2, hcollect⟩
      · split at hcollect
        · exact absurd hcollect (by simp)
        · rename_i hrank
          split at hcollect
          · exact absurd hcollect (by simp)
          · rename_i hblank
            refine .inr ⟨hcollect, fun other hother => ?_, Bool.of_not_eq_true hblank⟩
            obtain rfl := Option.some.inj hother
            exact Nat.lt_of_not_le hrank
    · split at hcollect
      · exact absurd hcollect (by simp)
      · rename_i hblank
        exact .inr ⟨hcollect, by simp, Bool.of_not_eq_true hblank⟩

theorem nodup_of_collect (hcollect : collect seen before segments = .ok clauses) :
    (segments.map fun segment => segment.label.1).Nodup ∧
      ∀ segment ∈ segments, segment.label.1 ∉ seen := by
  induction segments generalizing seen before with
  | nil => exact ⟨List.nodup_nil, List.forall_mem_nil _⟩
  | cons segment segments ih =>
      obtain ⟨hnew, hrest⟩ := step_of_collect hcollect
      obtain ⟨before, hrest⟩ : ∃ before,
          collect (segment.label.1 :: seen) before segments = .ok clauses := by
        rcases hrest with ⟨last, earlier, -, -, -, hrest⟩ | ⟨hrest, -⟩
        · exact ⟨_, hrest⟩
        · exact ⟨_, hrest⟩
      obtain ⟨hnodup, hothers⟩ := ih hrest
      refine ⟨List.nodup_cons.mpr ⟨fun hmem => ?_, hnodup⟩, List.forall_mem_cons.mpr ⟨hnew, ?_⟩⟩
      · obtain ⟨other, hother, hname⟩ := List.mem_map.mp hmem
        exact hothers other hother (hname ▸ List.mem_cons_self)
      · exact fun other hmem hseen => hothers other hmem (List.mem_cons_of_mem _ hseen)

theorem isBlank_of_collect (hcollect : collect seen before segments = .ok clauses) :
    ∀ segment ∈ segments, segment.label.2 ≠ .paging → segment.body.isBlank = false := by
  induction segments generalizing seen before with
  | nil => exact List.forall_mem_nil _
  | cons segment segments ih =>
      obtain ⟨-, hrest⟩ := step_of_collect hcollect
      rcases hrest with ⟨last, earlier, -, hpaging, -, hrest⟩ | ⟨hrest, -, hblank⟩
      · exact List.forall_mem_cons.mpr ⟨fun hne => absurd hpaging hne, ih hrest⟩
      · refine List.forall_mem_cons.mpr ⟨fun hne => ?_, ih hrest⟩
        rwa [ofSegment, if_neg hne] at hblank

/-- Behind `LIMIT` or `OFFSET` no other clause begins. -/
theorem eq_of_collect_paging {last : LocatedClause} (hlast : last.clause = .paging)
    (hcollect : collect seen (last :: before) segments = .ok clauses) :
    (∀ segment ∈ segments, segment.label.2 = .paging) ∧
      clauses = before.reverse ++ [{ last with
        body := segments.foldl (fun body segment => body.append (ofSegment segment).body)
          last.body }] := by
  induction segments generalizing seen last with
  | nil =>
      obtain rfl := Except.ok.inj hcollect
      exact ⟨List.forall_mem_nil _, List.reverse_cons⟩
  | cons segment segments ih =>
      obtain ⟨-, hrest⟩ := step_of_collect hcollect
      rcases hrest with ⟨_, _, hcons, hpaging, -, hrest⟩ | ⟨-, hrank, -⟩
      · obtain ⟨rfl, rfl⟩ := List.cons.inj hcons
        have hbehind := fun hclause => ih hclause hrest
        obtain ⟨hall, hclauses⟩ := hbehind hlast
        exact ⟨List.forall_mem_cons.mpr ⟨hpaging, hall⟩, hclauses⟩
      · exfalso
        have hlt := hrank last rfl
        rw [hlast] at hlt
        by_cases hclause : segment.label.2 = .paging
        · rw [hclause] at hlt
          exact Nat.lt_irrefl _ hlt
        · exact Nat.lt_asymm hlt (rank_lt_paging hclause)

/-- The clauses that are collected behind some others, none of which is `LIMIT` or
`OFFSET`. -/
theorem exists_of_collect_go (hbefore : ∀ located ∈ before, located.clause ≠ .paging)
    (hcollect : collect seen before segments = .ok clauses) :
    ∃ main paging, segments = main ++ paging ∧
      (∀ segment ∈ main, segment.label.2 ≠ .paging) ∧
      (∀ segment ∈ paging, segment.label.2 = .paging) ∧
      clauses = before.reverse ++ main.map ofSegment ++ (pagingOf paging).toList ∧
      (∀ last ∈ before.head?, ∀ segment ∈ main, last.clause.rank < segment.label.2.rank) ∧
      main.Pairwise fun first second => first.label.2.rank < second.label.2.rank := by
  induction segments generalizing seen before with
  | nil =>
      obtain rfl := Except.ok.inj hcollect
      exact ⟨[], [], rfl, List.forall_mem_nil _, List.forall_mem_nil _, by simp [pagingOf], by simp,
        .nil⟩
  | cons segment segments ih =>
      obtain ⟨-, ⟨last, earlier, rfl, -, hlast, -⟩ | ⟨hrest, hrank, -⟩⟩ := step_of_collect hcollect
      · exact absurd hlast (hbefore last List.mem_cons_self)
      by_cases hpaging : segment.label.2 = .paging
      · obtain ⟨hall, rfl⟩ := eq_of_collect_paging hpaging hrest
        exact ⟨[], segment :: segments, rfl, List.forall_mem_nil _,
          List.forall_mem_cons.mpr ⟨hpaging, hall⟩, by simp [pagingOf], by simp, .nil⟩
      · obtain ⟨main, paging, rfl, hmain, hall, rfl, hlast, hpairs⟩ :=
          ih (List.forall_mem_cons.mpr ⟨hpaging, hbefore⟩) hrest
        have hfirst := hlast (ofSegment segment) rfl
        refine ⟨segment :: main, paging, rfl, List.forall_mem_cons.mpr ⟨hpaging, hmain⟩, hall,
          by simp, fun last hmem => ?_, List.pairwise_cons.mpr ⟨hfirst, hpairs⟩⟩
        have hlt := hrank last hmem
        exact List.forall_mem_cons.mpr ⟨hlt, fun other hother => hlt.trans (hfirst other hother)⟩

/-- The clauses of a statement come in their order, LIMIT and OFFSET at the end. -/
theorem exists_of_collect (hcollect : collect [] [] segments = .ok clauses) :
    ∃ main paging, segments = main ++ paging ∧
      (∀ segment ∈ main, segment.label.2 ≠ .paging) ∧
      (∀ segment ∈ paging, segment.label.2 = .paging) ∧
      clauses = main.map ofSegment ++ (pagingOf paging).toList ∧
      main.Pairwise fun first second => first.label.2.rank < second.label.2.rank := by
  obtain ⟨main, paging, hsegments, hmain, hpaging, hclauses, -, hpairs⟩ :=
    exists_of_collect_go (List.forall_mem_nil _) hcollect
  exact ⟨main, paging, hsegments, hmain, hpaging, by simpa using hclauses, hpairs⟩

/-- The text of LIMIT and OFFSET goes on over all their keywords. -/
theorem body_of_pagingOf (hpaging : ∀ segment ∈ segments, segment.label.2 = .paging) :
    ∀ located ∈ pagingOf segments, located.clause = .paging ∧
      located.keyword.start = located.body.start ∧
      located.body.text = segments.flatMap fun segment => segment.mark.text ++ segment.body.text := by
  have hbody : ∀ segment ∈ segments, (ofSegment segment).body = segment.mark.append segment.body := by
    intro segment hmem
    rw [ofSegment, if_pos (hpaging segment hmem)]
  have hfold : ∀ (segments : List (Segment (String × Clause))) (body : Fragment),
      (∀ segment ∈ segments, (ofSegment segment).body = segment.mark.append segment.body) →
      segments.foldl (fun body segment => body.append (ofSegment segment).body) body =
        ⟨body.text ++ segments.flatMap fun segment => segment.mark.text ++ segment.body.text,
          body.start⟩ := by
    intro segments body hbody
    induction segments generalizing body with
    | nil => simp
    | cons segment segments ih =>
        obtain ⟨hsegment, hsegments⟩ := List.forall_mem_cons.mp hbody
        rw [List.foldl_cons, ih _ hsegments, hsegment, List.flatMap_cons]
        simp only [Fragment.append, List.append_assoc]
  cases segments with
  | nil => simp [pagingOf]
  | cons segment segments =>
      rw [List.forall_mem_cons] at hbody hpaging
      rintro located hlocated
      obtain rfl := Option.some.inj hlocated
      rw [hfold segments _ hbody.2, hbody.1]
      exact ⟨hpaging.1, rfl, by simp [Fragment.append]⟩

theorem pairwise_of_collect (hcollect : collect [] [] segments = .ok clauses) :
    clauses.Pairwise fun first second => first.clause.rank < second.clause.rank := by
  obtain ⟨main, paging, -, hmain, hpaging, rfl, hpairs⟩ := exists_of_collect hcollect
  refine List.pairwise_append.mpr ⟨List.pairwise_map.mpr hpairs, ?_, ?_⟩
  · cases pagingOf paging with
    | none => exact .nil
    | some located => exact List.pairwise_singleton _ _
  · refine List.forall_mem_map.mpr fun segment hsegment located hmem => ?_
    obtain ⟨hclause, -⟩ := body_of_pagingOf hpaging located (Option.mem_toList.mp hmem)
    rw [hclause]
    exact rank_lt_paging (hmain segment hsegment)

/-! ## Locating -/

variable {text : Text}

/-- A statement that is located begins with SELECT. -/
theorem exists_select {fragment : Fragment} {count : Nat}
    (hselect : Keyword.select.length? none fragment.text.cells = some count) :
    (fragment.segment finder).head.text = [] ∧ ∃ first others,
      (fragment.segment finder).tail = first :: others ∧ first.label = ("SELECT", .select) := by
  have hfound : finder none fragment.text.cells = some (("SELECT", .select), count) := by
    rw [finder_eq, Finder.ofKeywords_apply, entries, List.map_cons, List.findSome?_cons, hselect]
    rfl
  obtain ⟨keyword, first, mark, rest, -, -, hcells, rfl, hcode, hletter, -⟩ :=
    Finder.exists_of_found arePhrases_entries hfound
  have htop := Cell.isTopLevel_of_isAlpha (hcode first List.mem_cons_self) hletter
  rw [hcells] at hfound
  rw [Fragment.segment, Segmentation.ofCells, hcells, cutCells, if_pos htop, hfound]
  exact ⟨rfl, _, _, rfl, rfl⟩

theorem collect_of_locate (hlocate : locate text = .ok clauses) :
    (∃ count, Keyword.select.length? none (Fragment.mk text 0).skipAsciiBlanks.text.cells =
        some count) ∧
      collect [] [] ((Fragment.mk text 0).skipAsciiBlanks.segment finder).tail = .ok clauses ∧
      ∃ located ∈ clauses, located.clause = .from_ := by
  rw [locate] at hlocate
  dsimp only at hlocate
  split at hlocate
  · exact absurd hlocate (by simp)
  · rename_i count hselect
    obtain ⟨found, hcollect, hok⟩ := bind_eq_ok.mp hlocate
    split at hok
    · rename_i hfrom
      obtain rfl := Except.ok.inj hok
      exact ⟨⟨count, hselect⟩, hcollect, by simpa using hfrom⟩
    · exact absurd hok (by simp)

theorem head_of_locate (hlocate : locate text = .ok clauses) :
    ∃ first others, clauses = first :: others ∧ first.clause = .select := by
  obtain ⟨⟨count, hselect⟩, hcollect, -⟩ := collect_of_locate hlocate
  obtain ⟨-, first, others, hfirst, hlabel⟩ := exists_select hselect
  obtain ⟨main, paging, htail, -, hpaging, rfl, -⟩ := exists_of_collect hcollect
  rw [hfirst] at htail
  cases main with
  | nil =>
      have hmem : first ∈ paging := by
        rw [← List.nil_append paging, ← htail]
        exact List.mem_cons_self
      have hclause := hpaging first hmem
      rw [hlabel] at hclause
      contradiction
  | cons segment main =>
      obtain ⟨rfl, -⟩ := List.cons.inj htail
      exact ⟨_, _, rfl, congrArg Prod.snd hlabel⟩

end LocatedClause

end SelectForm

import Mathlib
import SelectForm.Proofs.Statement.AlikeClause
import SelectForm.Proofs.Statement.HeldCondition

/-!
# What a clause holds

The body of a clause holds what is read from it, item by item.  Between the items are
commas, `DISTINCT`, the keywords of joins and `ON`.
-/

namespace SelectForm

open Lexeme

/-! ## Lists -/

theorem Fragment.Holds.of_readItems {α : Type} {fragment : Fragment}
    {read : Fragment → Except ParseError α} {items : List α} {failed : Fragment → ParseError}
    {held : α → List Token}
    (hread : (fragment.splitList.mapM fun item =>
      if item.text.isEmpty then .error (failed item) else read item) = .ok items)
    (hholds : ∀ part item, read part = .ok item → part.text.Holds (held item)) :
    fragment.Holds (items.flatMap held) := by
  apply of_splitList
  refine (forall₂_of_mapM hread).imp fun part item hpart => ?_
  exact holds_of_text (hholds part item (read_of_ite hpart))

theorem SelectItem.holds_of_readList {fragment : Fragment} {distinct : Bool} {items : List SelectItem}
    (hread : readList fragment = .ok (distinct, items)) :
    fragment.Holds (items.flatMap SelectItem.tokens) := by
  unfold readList at hread
  dsimp only at hread
  rw [bind_eq_ok] at hread
  obtain ⟨found, hitems, hread⟩ := hread
  obtain ⟨-, rfl⟩ := Prod.mk.inj (Except.ok.inj hread)
  have hlist := Fragment.Holds.of_readItems hitems fun _ _ => holds_of_read
  apply Fragment.Holds.of_skipAsciiBlanks
  cases hcount : Keyword.distinct.length? none fragment.skipAsciiBlanks.text.cells with
  | none =>
      rw [hcount] at hlist
      exact hlist
  | some count =>
      rw [hcount] at hlist
      exact .of_length? rfl rfl hcount hlist

/-! ## Joins -/

theorem JoinCondition.holds_of_readChain {fragment : Fragment} {conditions : List JoinCondition}
    (hread : readChain fragment = .ok conditions) :
    fragment.Holds (conditions.flatMap JoinCondition.tokens) := by
  unfold readChain at hread
  split at hread
  · exact absurd hread (by simp)
  · apply Fragment.Holds.of_splitChain
    refine (forall₂_of_mapM hread).imp fun part condition hpart => ?_
    exact .of_openWithin (Fragment.holds_of_text (holds_of_read (read_of_ite hpart)))

namespace Join

theorem holds_of_readBody {kind : JoinKind} {body : Fragment} {join : Join}
    (hread : readBody kind body = .ok join) : body.Holds join.tokens := by
  have hfirm : ∀ entry ∈ [(Keyword.on, ())], entry.1.isFirm = true := by decide
  have hpasses : (RowFinder.ofKeywords [(Keyword.on, ())]).Passes :=
    Lexeme.Holds.ofKeywords_passes hfirm (by decide)
  unfold readBody at hread
  split at hread
  · exact absurd hread (by simp)
  · split at hread
    · exact absurd hread (by simp)
    · rename_i split hsplit
      rw [bind_eq_ok] at hread
      obtain ⟨table, htable, hread⟩ := hread
      rw [bind_eq_ok] at hread
      obtain ⟨conditions, hconditions, hread⟩ := hread
      obtain rfl := Except.ok.inj hread
      exact .of_splitFirst? (Finder.ofKeywords_follows hfirm) hpasses hsplit
        (Fragment.holds_of_text (TableItem.holds_of_read htable))
        (JoinCondition.holds_of_readChain hconditions)

theorem holds_of_readSegment {segment : Segment JoinMark} {join : Join}
    (hread : readSegment segment = .ok join) : segment.body.Holds join.tokens := by
  unfold readSegment at hread
  cases hlabel : segment.label with
  | join kind =>
      rw [hlabel] at hread
      exact holds_of_readBody hread
  | cross => simp [hlabel] at hread
  | natural => simp [hlabel] at hread

end Join

/-! ## Clauses -/

namespace Statement

variable {query after : Query} {keyword body : Fragment}

theorem holds_of_readClause_from (hread : readClause query ⟨.from_, keyword, body⟩ = .ok after) :
    body.Holds (after.tokensOf .from_) := by
  have hfirm : ∀ entry ∈ JoinMark.entries, entry.1.isFirm = true := by decide
  have hpasses : (RowFinder.ofKeywords JoinMark.entries).Passes :=
    Lexeme.Holds.ofKeywords_passes hfirm (by decide)
  intro row hsound htext
  have hback := hsound.part (List.dropWhile_suffix isGap).isInfix
  obtain ⟨head, cuts, hcuts⟩ := Cuts.exists_cuts (Finder.ofKeywords_follows hfirm) 0
    (lastOf none (row.takeWhile isGap)) hback.atomic
  obtain ⟨list, segments, hlist, hsegments, hclause⟩ :=
    @readClause_from query keyword body row head cuts hsound htext hcuts
  rw [hclause, bind_eq_ok] at hread
  obtain ⟨tables, htables, hread⟩ := hread
  rw [bind_eq_ok] at hread
  obtain ⟨joins, hjoins, hread⟩ := hread
  obtain rfl := Except.ok.inj hread
  apply Lexeme.Holds.of_dropWhile_isGap
  have hhead := Fragment.Holds.of_readItems htables (fun _ _ => TableItem.holds_of_read) head
    (hcuts.sound_head hback) hlist
  have hsegmentsHold := (forall₂_of_mapM hjoins).imp fun _ _ => Join.holds_of_readSegment
  rw [← @List.forall₂_map_right_iff _ _ _ (fun segment tokens =>
    Fragment.Holds (Segment.body segment) tokens)] at hsegmentsHold
  have hbodies := Fragment.Holds.forall₂_of_cuts hsegments (hcuts.sound_tail hback) hsegmentsHold
  have hwhole : Lexeme.Holds ([] ++ row.dropWhile isGap) _ :=
    .of_cuts hpasses hback.atomic hcuts (.inl rfl) hhead hbodies
  rwa [← List.flatMap_def] at hwhole

/-- The body of a clause holds what the clause adds to a query. -/
theorem holds_of_readClause {located : LocatedClause} (hread : readClause query located = .ok after)
    (hjoin : located.clause ≠ .join) (hpaging : located.clause ≠ .paging) :
    located.body.Holds (after.tokensOf located.clause) := by
  obtain ⟨clause, keyword, body⟩ := located
  cases clause with
  | from_ => exact holds_of_readClause_from hread
  | join => exact absurd rfl hjoin
  | paging => exact absurd rfl hpaging
  | select =>
      rw [readClause, bind_eq_ok] at hread
      obtain ⟨⟨distinct, columns⟩, hcolumns, hread⟩ := hread
      obtain rfl := Except.ok.inj hread
      exact SelectItem.holds_of_readList hcolumns
  | where_ =>
      rw [readClause, bind_eq_ok] at hread
      obtain ⟨filters, hfilters, hread⟩ := hread
      obtain rfl := Except.ok.inj hread
      exact Condition.holds_of_readChain hfilters
  | groupBy =>
      rw [readClause, bind_eq_ok] at hread
      obtain ⟨groups, hgroups, hread⟩ := hread
      obtain rfl := Except.ok.inj hread
      exact .of_readItems hgroups fun _ _ => GroupItem.holds_of_read
  | having =>
      rw [readClause, bind_eq_ok] at hread
      obtain ⟨filters, hfilters, hread⟩ := hread
      obtain rfl := Except.ok.inj hread
      exact Condition.holds_of_readChain hfilters
  | orderBy =>
      rw [readClause, bind_eq_ok] at hread
      obtain ⟨orders, horders, hread⟩ := hread
      obtain rfl := Except.ok.inj hread
      exact .of_readItems horders fun _ _ => OrderItem.holds_of_read

/-- A clause leaves the other clauses as they are. -/
theorem tokensOf_of_readClause {located : LocatedClause} {clause : Clause}
    (hread : readClause query located = .ok after) (hne : located.clause ≠ clause) :
    after.tokensOf clause = query.tokensOf clause := by
  rw [readClause] at hread
  cases hclause : located.clause with
  | select =>
      simp only [hclause, bind_eq_ok, Except.ok.injEq] at hread
      obtain ⟨list, -, rfl⟩ := hread
      cases clause <;> first | rfl | exact absurd hclause hne
  | from_ =>
      simp only [hclause, bind_eq_ok, Except.ok.injEq] at hread
      obtain ⟨tables, -, joins, -, rfl⟩ := hread
      cases clause <;> first | rfl | exact absurd hclause hne
  | join =>
      simp only [hclause, Except.ok.injEq] at hread
      rw [hread]
  | where_ =>
      simp only [hclause, bind_eq_ok, Except.ok.injEq] at hread
      obtain ⟨filters, -, rfl⟩ := hread
      cases clause <;> first | rfl | exact absurd hclause hne
  | groupBy =>
      simp only [hclause, bind_eq_ok, Except.ok.injEq] at hread
      obtain ⟨groups, -, rfl⟩ := hread
      cases clause <;> first | rfl | exact absurd hclause hne
  | having =>
      simp only [hclause, bind_eq_ok, Except.ok.injEq] at hread
      obtain ⟨filters, -, rfl⟩ := hread
      cases clause <;> first | rfl | exact absurd hclause hne
  | orderBy =>
      simp only [hclause, bind_eq_ok, Except.ok.injEq] at hread
      obtain ⟨orders, -, rfl⟩ := hread
      cases clause <;> first | rfl | exact absurd hclause hne
  | paging =>
      simp only [hclause, bind_eq_ok, Except.ok.injEq] at hread
      obtain ⟨paging, -, rfl⟩ := hread
      cases clause <;> rfl

/-- Clauses that come once hold what they add to a query, and leave the others as they are. -/
theorem holds_of_foldlM {clauses : List LocatedClause}
    (hread : clauses.foldlM readClause query = .ok after)
    (hnodup : (clauses.map LocatedClause.clause).Nodup) :
    (∀ located ∈ clauses, located.clause ≠ .join → located.clause ≠ .paging →
        located.body.Holds (after.tokensOf located.clause)) ∧
      ∀ clause, clause ∉ clauses.map LocatedClause.clause →
        after.tokensOf clause = query.tokensOf clause := by
  induction clauses generalizing query with
  | nil =>
      obtain rfl := Except.ok.inj hread
      exact ⟨List.forall_mem_nil _, fun _ _ => rfl⟩
  | cons located clauses ih =>
      rw [List.foldlM_cons, bind_eq_ok] at hread
      obtain ⟨middle, hmiddle, hrest⟩ := hread
      rw [List.map_cons, List.nodup_cons] at hnodup
      obtain ⟨hholds, hothers⟩ := ih hrest hnodup.2
      constructor
      · rw [List.forall_mem_cons]
        refine ⟨fun hjoin hpaging => ?_, hholds⟩
        rw [hothers located.clause hnodup.1]
        exact holds_of_readClause hmiddle hjoin hpaging
      · intro clause hmem
        rw [List.map_cons, List.mem_cons, not_or] at hmem
        rw [hothers clause hmem.2, tokensOf_of_readClause hmiddle (Ne.symm hmem.1)]

end Statement

end SelectForm

import Mathlib
import SelectForm.Proofs.Statement.LocateClauses
import SelectForm.Proofs.Statement.AlikePaging

/-!
# Locating and reading alike clauses

Alike statements fall into the same clauses.  The bodies of LIMIT and OFFSET stand next to
each other in the statement, so together they are again the text of a row.
-/

namespace SelectForm

open Lexeme

variable {R : Lexeme → Lexeme → Prop} {stretch : Prop}

/-! ## Locating -/

/-- The same clause, with alike bodies. -/
structure LocatedClause.Alike (R : Lexeme → Lexeme → Prop) (stretch : Prop)
    (located located' : LocatedClause) : Prop where
  clause : located.clause = located'.clause
  body : located.body.Alike R stretch located'.body

namespace LocatedClause

variable {segment segment' : Segment (String × Clause)}
  {segments segments' : List (Segment (String × Clause))} {cut cut' : RowCut (String × Clause)}
  {cuts cuts' : List (RowCut (String × Clause))}

/-- The row of the body that a keyword opens. -/
def bodyRow (cut : RowCut (String × Clause)) : List Lexeme :=
  if cut.label.2 = .paging then cut.row else cut.body

theorem text_ofSegment (hcut : segment.cut = cut.cut) :
    (ofSegment segment).body.text = textOf (bodyRow cut) := by
  obtain ⟨hlabel, hmark, hbody⟩ := Cut.mk.inj hcut
  rw [ofSegment, bodyRow, hlabel, RowCut.row]
  split
  · rw [Fragment.append, hmark, hbody, textOf_append]
  · exact hbody

theorem bodyRow_alike (hcut : cut.Alike R stretch cut') :
    Lexeme.Alike R stretch (bodyRow cut) (bodyRow cut') := by
  rw [bodyRow, bodyRow, hcut.label]
  split
  · exact hcut.mark.append hcut.body
  · exact hcut.body

/-- The body of a cut stands directly in front of what is behind the cut. -/
theorem sound_bodyRow (hsound : Sound ((cut :: cuts).flatMap RowCut.row)) :
    Sound (bodyRow cut ++ cuts.flatMap RowCut.row) := by
  rw [List.flatMap_cons] at hsound
  unfold bodyRow
  split
  · exact hsound
  · rw [RowCut.row, List.append_assoc] at hsound
    exact hsound.right

/-- Two texts of alike rows, each with a row directly behind it. -/
def StandsBefore (R : Lexeme → Lexeme → Prop) (stretch : Prop) (body body' : Text)
    (behind behind' : List Lexeme) : Prop :=
  ∃ row row', body = textOf row ∧ body' = textOf row' ∧ Sound (row ++ behind) ∧
    Sound (row' ++ behind') ∧ Lexeme.Alike R stretch row row'

theorem standsBefore_ofSegment (hsegment : segment.cut = cut.cut)
    (hsegment' : segment'.cut = cut'.cut)
    (hsound : Sound ((cut :: cuts).flatMap RowCut.row))
    (hsound' : Sound ((cut' :: cuts').flatMap RowCut.row)) (hcut : cut.Alike R stretch cut') :
    StandsBefore R stretch (ofSegment segment).body.text (ofSegment segment').body.text
      (cuts.flatMap RowCut.row) (cuts'.flatMap RowCut.row) :=
  ⟨_, _, text_ofSegment hsegment, text_ofSegment hsegment', sound_bodyRow hsound,
    sound_bodyRow hsound', bodyRow_alike hcut⟩

namespace StandsBefore

variable {body body' : Fragment}

theorem alike {behind behind' : List Lexeme}
    (hstands : StandsBefore R stretch body.text body'.text behind behind') :
    body.Alike R stretch body' := by
  obtain ⟨row, row', hrow, hrow', hsound, hsound', halike⟩ := hstands
  exact Fragment.alike_of_rows hsound.left hsound'.left hrow hrow' halike

/-- The body of a paging keyword begins with the keyword, so nothing is left out between it
and the body in front of it. -/
theorem append_ofSegment
    (hstands : StandsBefore R stretch body.text body'.text ((cut :: cuts).flatMap RowCut.row)
      ((cut' :: cuts').flatMap RowCut.row))
    (hsegment : segment.cut = cut.cut) (hsegment' : segment'.cut = cut'.cut)
    (hcut : cut.Alike R stretch cut') (hpaging : cut.label.2 = .paging) :
    StandsBefore R stretch (body.append (ofSegment segment).body).text
      (body'.append (ofSegment segment').body).text (cuts.flatMap RowCut.row)
      (cuts'.flatMap RowCut.row) := by
  obtain ⟨row, row', hrow, hrow', hsound, hsound', halike⟩ := hstands
  have hwhole : bodyRow cut = cut.row := if_pos hpaging
  have hwhole' : bodyRow cut' = cut'.row := if_pos (by rw [← hcut.label, hpaging])
  refine ⟨row ++ bodyRow cut, row' ++ bodyRow cut', ?_, ?_, ?_, ?_,
    halike.append (bodyRow_alike hcut)⟩
  · rw [Fragment.append, hrow, text_ofSegment hsegment, textOf_append]
  · rw [Fragment.append, hrow', text_ofSegment hsegment', textOf_append]
  · rwa [hwhole, List.append_assoc, ← List.flatMap_cons]
  · rwa [hwhole', List.append_assoc, ← List.flatMap_cons]

end StandsBefore

/-- Clauses are collected alike from alike cuts.  The last body collected may still grow, so it
has to stand in front of the cuts that are left. -/
theorem collect_alike {seen : List String} {before before' : List LocatedClause} (hblind : Blind R)
    (hsegments : segments.map Segment.cut = cuts.map RowCut.cut)
    (hsegments' : segments'.map Segment.cut = cuts'.map RowCut.cut)
    (hsound : Sound (cuts.flatMap RowCut.row)) (hsound' : Sound (cuts'.flatMap RowCut.row))
    (hcuts : List.Forall₂ (RowCut.Alike R stretch) cuts cuts')
    (hbefore : List.Forall₂ (Alike R stretch) before before')
    (hlast : ∀ last ∈ before.head?, ∀ last' ∈ before'.head?,
      StandsBefore R stretch last.body.text last'.body.text (cuts.flatMap RowCut.row)
        (cuts'.flatMap RowCut.row)) :
    Agree (List.Forall₂ (Alike R stretch)) (collect seen before segments)
      (collect seen before' segments') := by
  induction hcuts generalizing seen before before' segments segments' with
  | nil =>
      rw [List.map_nil, List.map_eq_nil_iff] at hsegments hsegments'
      rw [hsegments, hsegments', collect, collect]
      exact .ok (List.rel_reverse hbefore)
  | @cons cut cut' cuts cuts' hcut _ ih =>
      rw [List.map_cons, List.map_eq_cons_iff] at hsegments hsegments'
      obtain ⟨segment, others, rfl, hsegment, hothers⟩ := hsegments
      obtain ⟨segment', others', rfl, hsegment', hothers'⟩ := hsegments'
      have hstands := standsBefore_ofSegment hsegment hsegment' hsound hsound' hcut
      obtain ⟨name, clause, hcutLabel⟩ : ∃ name clause, cut.label = (name, clause) := ⟨_, _, rfl⟩
      have hlabel : segment.label = (name, clause) := by rw [(Cut.mk.inj hsegment).1, hcutLabel]
      have hlabel' : segment'.label = (name, clause) := by
        rw [(Cut.mk.inj hsegment').1, ← hcut.label, hcutLabel]
      have hlocated : Alike R stretch (ofSegment segment) (ofSegment segment') :=
        ⟨by rw [ofSegment, ofSegment, hlabel, hlabel'], hstands.alike⟩
      have hblank := hlocated.body.isBlank_eq hblind
      rw [List.flatMap_cons] at hsound hsound'
      -- What is collected next becomes the last body, so the invariant is asked of it again.
      have hgo : ∀ {last last' : LocatedClause} {front front' : List LocatedClause},
          List.Forall₂ (Alike R stretch) (last :: front) (last' :: front') →
          StandsBefore R stretch last.body.text last'.body.text (cuts.flatMap RowCut.row)
            (cuts'.flatMap RowCut.row) →
          Agree (List.Forall₂ (Alike R stretch)) (collect (name :: seen) (last :: front) others)
            (collect (name :: seen) (last' :: front') others') := by
        intro last last' front front' hfront hnext
        refine ih hothers hothers' hsound.right hsound'.right hfront ?_
        rintro next hhead next' hhead'
        obtain rfl : last = next := by simpa using hhead
        obtain rfl : last' = next' := by simpa using hhead'
        exact hnext
      rw [collect, collect, hlabel, hlabel']
      dsimp only
      refine Agree.ite Iff.rfl fun _ => ?_
      cases hbefore with
      | nil => exact Agree.ite (by rw [hblank]) fun _ => hgo (.cons hlocated .nil) hstands
      | @cons last last' earlier earlier' hfirst hearlier =>
          dsimp only
          rw [← hfirst.clause]
          by_cases hpaging : clause = .paging ∧ last.clause = .paging
          · -- The bodies of both keywords are one part of the statement.
            have hjoined := (hlast last rfl last' rfl).append_ofSegment hsegment hsegment' hcut
              (by rw [hcutLabel, hpaging.1])
            rw [if_pos hpaging, if_pos hpaging]
            exact hgo (.cons ⟨rfl, hjoined.alike⟩ hearlier) hjoined
          · rw [if_neg hpaging, if_neg hpaging]
            refine Agree.ite Iff.rfl fun _ => ?_
            exact Agree.ite (by rw [hblank]) fun _ =>
              hgo (.cons hlocated (.cons hfirst hearlier)) hstands

theorem locate_alike {text text' : Text} (hblind : Blind R) (halike : Text.Alike R stretch text text') :
    Agree (List.Forall₂ (Alike R stretch)) (locate text) (locate text') := by
  have hfirm : ∀ entry ∈ entries, entry.1.isFirm = true := by decide
  have hwhole : (Fragment.mk text 0).Alike R stretch (Fragment.mk text' 0) := halike
  have hskip := hwhole.skipAsciiBlanks hblind
  have hselect := @Fragment.Alike.length? R stretch _ _ Keyword.select hblind rfl hskip
  obtain ⟨head, head', cuts, cuts', hcuts, hcuts', -, hforall⟩ := hskip.exists_cuts hblind
    (Finder.ofKeywords_follows hfirm) (RowFinder.ofKeywords_steady hblind hfirm)
  have hcollect := @collect_alike R stretch _ _ cuts cuts' [] [] [] hblind hcuts.tail_eq hcuts'.tail_eq
    hcuts.sound.right hcuts'.sound.right hforall .nil (by simp)
  unfold locate
  rw [show finder = Finder.ofKeywords entries from rfl]
  dsimp only
  generalize Keyword.select.length? none (Fragment.mk text 0).skipAsciiBlanks.text.cells = count
    at hselect
  generalize Keyword.select.length? none (Fragment.mk text' 0).skipAsciiBlanks.text.cells = count'
    at hselect
  cases hselect with
  | none => exact .error
  | some _ =>
      refine hcollect.bind fun clauses clauses' hclauses => ?_
      have hfrom : clauses.any (fun located => located.clause = .from_) =
          clauses'.any fun located => located.clause = .from_ := by
        induction hclauses with
        | nil => rfl
        | cons hfirst _ ih => rw [List.any_cons, List.any_cons, hfirst.clause, ih]
      rw [hfrom]
      split
      · exact .ok hclauses
      · exact .error

end LocatedClause

/-! ## Reading -/

/-- Parts of all kinds that are read alike from alike texts. -/
structure Likeness.Reads (like : Likeness) (R : Lexeme → Lexeme → Prop) (stretch : Prop) : Prop
    extends like.ReadsConditions R stretch, like.ReadsJoins R stretch where
  item : ∀ item item' : Fragment, item.Alike R stretch item' →
    Agree like.item (SelectItem.read item) (SelectItem.read item')
  group : ∀ item item' : Fragment, item.Alike R stretch item' →
    Agree like.group (GroupItem.read item) (GroupItem.read item')
  order : ∀ item item' : Fragment, item.Alike R stretch item' →
    Agree like.order (OrderItem.read item) (OrderItem.read item')

variable {like : Likeness}

theorem Statement.readClause_alike {query query' : Query} {located located' : LocatedClause}
    (hblind : Blind R) (hreads : like.Reads R stretch) (hquery : query.Like like query')
    (halike : located.Alike R stretch located') :
    Agree (Query.Like like) (readClause query located) (readClause query' located') := by
  obtain ⟨clause, keyword, body⟩ := located
  obtain ⟨clause', keyword', body'⟩ := located'
  obtain ⟨hclause, hbody⟩ := halike
  dsimp only at hclause hbody
  subst hclause
  cases clause with
  | select =>
      exact (SelectItem.readList_alike hblind hreads.item hbody).bind fun list list' hlist =>
        .ok { hquery with distinct := hlist.1, columns := hlist.2 }
  | from_ => exact readClause_from_alike hblind hreads.toReadsJoins hquery hbody
  | join => exact .ok hquery
  | where_ =>
      exact (Condition.readChain_alike hblind hreads.toReadsConditions hbody).bind
        fun filters filters' hfilters => .ok { hquery with filters := hfilters }
  | groupBy =>
      exact (hbody.readItems hblind hreads.group).bind fun groups groups' hgroups =>
        .ok { hquery with groups := hgroups }
  | having =>
      exact (Condition.readChain_alike hblind hreads.toReadsConditions hbody).bind
        fun filters filters' hfilters => .ok { hquery with groupFilters := hfilters }
  | orderBy =>
      exact (hbody.readItems hblind hreads.order).bind fun orders orders' horders =>
        .ok { hquery with orders := horders }
  | paging =>
      exact (Paging.read_alike hblind rfl rfl rfl rfl hbody).bind fun paging paging' hpaging =>
        .ok { hquery with limit := congrArg Paging.limit hpaging
                          offset := congrArg Paging.offset hpaging }

theorem Statement.foldlM_readClause_alike {query query' : Query}
    {clauses clauses' : List LocatedClause} (hblind : Blind R) (hreads : like.Reads R stretch)
    (hquery : query.Like like query')
    (hclauses : List.Forall₂ (LocatedClause.Alike R stretch) clauses clauses') :
    Agree (Query.Like like) (clauses.foldlM readClause query) (clauses'.foldlM readClause query') := by
  induction hclauses generalizing query query' with
  | nil => exact .ok hquery
  | cons hlocated _ ih =>
      rw [List.foldlM_cons, List.foldlM_cons]
      exact (readClause_alike hblind hreads hquery hlocated).bind fun _ _ hnext => ih hnext

end SelectForm

import Mathlib
import SelectForm.Proofs.Query.Tokens
import SelectForm.Proofs.Statement.AlikeFrom

/-!
# What a fragment holds

A fragment holds what the row of its text holds.  The readers trim fragments, cut them at
marks, open groups and take keywords off, and none of these steps loses or adds a token:
what a fragment holds is put together from what its parts hold.
-/

namespace SelectForm

open Lexeme

namespace Fragment

/-- Every row that is how the text of a fragment is read holds the given tokens. -/
def Holds (fragment : Fragment) (tokens : List Token) : Prop :=
  ∀ row, Sound row → fragment.text = textOf row → Lexeme.Holds row tokens

variable {fragment : Fragment} {tokens : List Token}

theorem holds_of_text (hholds : fragment.text.Holds tokens) : fragment.Holds tokens := by
  intro row hsound htext
  rw [htext] at hholds
  exact hholds.of_row hsound.atomic

namespace Holds

theorem of_trim (htrim : fragment.trim.Holds tokens) : fragment.Holds tokens := by
  intro row hsound htext
  apply Lexeme.Holds.of_trimmed
  apply htrim _ hsound.trimmed
  rw [Fragment.trim, htext, hsound.atomic.trim_textOf]

theorem of_skipAsciiBlanks (hskip : fragment.skipAsciiBlanks.Holds tokens) :
    fragment.Holds tokens := by
  intro row hsound htext
  apply Lexeme.Holds.of_dropWhile_isGap
  exact hskip _ (hsound.part (List.dropWhile_suffix isGap).isInfix)
    (text_skipAsciiBlanks hsound htext)

theorem of_inside? {inner : Fragment} (hinside : fragment.inside? = some inner)
    (hinner : inner.Holds tokens) : fragment.Holds tokens := by
  intro row hsound htext
  have hrow := hsound.inside?_textOf fragment.start
  rw [← htext, hinside, Option.map_some] at hrow
  obtain ⟨back, hback, hbackText⟩ := Option.map_eq_some_iff.mp hrow.symm
  exact .of_inside? hback (hinner back (hsound.inside hback) hbackText.symm)

theorem of_openWithin {bound : Nat} (hopen : (fragment.openWithin bound).Holds tokens) :
    fragment.Holds tokens := by
  induction bound generalizing fragment with
  | zero => exact hopen.of_trim
  | succ bound ih =>
      rw [Fragment.openWithin] at hopen
      cases hinside : fragment.inside? with
      | none =>
          rw [hinside] at hopen
          exact hopen.of_trim
      | some inner =>
          rw [hinside] at hopen
          exact .of_inside? hinside (ih hopen)

theorem of_length? {keyword : Keyword} {count : Nat} (hfirm : keyword.isFirm = true)
    (hinert : keyword.isInert = true)
    (hcount : keyword.length? none fragment.text.cells = some count)
    (hdrop : (fragment.drop count).Holds tokens) : fragment.Holds tokens := by
  intro row hsound htext
  rw [htext, hsound.cells_textOf, Keyword.length?_cellsOf_row true (Keyword.isPlain_of_isFirm hfirm)
    hsound.atomic, Option.map_eq_some_iff] at hcount
  obtain ⟨back, hrest, rfl⟩ := hcount
  obtain ⟨text, rfl, hholds⟩ := Lexeme.Holds.of_rest? hfirm hinert hrest
  have hback : Lexeme.Holds back tokens := by
    apply hdrop back hsound.right
    rw [drop, htext, drop_textOf]
  exact hholds [] back (.inl rfl) (List.prefix_refl _) [] tokens .nil hback

variable {α β : Type} {find : Finder α} {seek : RowFinder α}

/-- The parts on both sides of a mark. -/
theorem of_splitFirst? {split : Split α} {before after : List Token} (hfollows : find.Follows seek)
    (hpasses : seek.Passes) (hsplit : fragment.splitFirst? find = some split)
    (hbefore : split.before.Holds before) (hafter : split.after.Holds after) :
    fragment.Holds (before ++ after) := by
  intro row hsound htext
  obtain ⟨head, cuts, hcuts⟩ := Cuts.exists_cuts hfollows 0 none hsound.atomic
  have hfragment := hsound.follows hfollows htext hcuts
  cases cuts with
  | nil =>
      rw [hfragment.splitFirst?_nil] at hsplit
      exact absurd hsplit (by simp)
  | cons cut cuts =>
      obtain ⟨found, hfound, -, hhead, -, hback⟩ := hfragment.splitFirst?_cons
      obtain rfl : found = split := Option.some.inj (hfound.symm.trans hsplit)
      have hrow : Lexeme.Holds ([] ++ row) (before ++ after) :=
        .of_cuts_cons hpasses hsound.atomic hcuts (.inl rfl)
          (hbefore head hfragment.sound.left hhead) (hafter _ hfragment.sound_after hback)
      exact hrow

theorem forall₂_of_rows {parts : List β} {rows : List (List Lexeme)} {part : β → Fragment}
    {held : List (List Token)}
    (htexts : parts.map (fun one => (part one).text) = rows.map textOf)
    (hsound : ∀ row ∈ rows, Sound row)
    (hparts : List.Forall₂ (fun one tokens => (part one).Holds tokens) parts held) :
    List.Forall₂ Lexeme.Holds rows held := by
  induction hparts generalizing rows with
  | nil =>
      rw [List.map_nil, eq_comm, List.map_eq_nil_iff] at htexts
      exact htexts ▸ .nil
  | cons hone _ ih =>
      rw [List.map_cons, eq_comm, List.map_eq_cons_iff] at htexts
      obtain ⟨row, others, rfl, hrow, hothers⟩ := htexts
      rw [List.forall_mem_cons] at hsound
      exact .cons (hone row hsound.1 hrow.symm) (ih hothers.symm hsound.2)

/-- The rows behind the marks of some segments hold what the bodies of the segments hold. -/
theorem forall₂_of_cuts {segments : List (Segment α)} {cuts : List (RowCut α)}
    {held : List (List Token)} (hsegments : segments.map Segment.cut = cuts.map RowCut.cut)
    (hsound : Sound (cuts.flatMap RowCut.row))
    (hparts : List.Forall₂ (fun segment tokens => segment.body.Holds tokens) segments held) :
    List.Forall₂ (fun cut tokens => Lexeme.Holds cut.body tokens) cuts held := by
  have htexts := congrArg (List.map Cut.body) hsegments
  rw [List.map_map, List.map_map] at htexts
  have hrows := @forall₂_of_rows _ _ (cuts.map RowCut.body) Segment.body held
    (by rw [List.map_map]; exact htexts)
    (fun row hmem => by
      obtain ⟨cut, hcut, rfl⟩ := List.mem_map.mp hmem
      exact (RowCut.sound_of_mem hsound hcut).2)
    hparts
  exact List.forall₂_map_left_iff.mp hrows

theorem of_splitList {items : List β} {held : β → List Token}
    (hparts : List.Forall₂ (fun part item => part.Holds (held item)) fragment.splitList items) :
    fragment.Holds (items.flatMap held) := by
  intro row hsound htext
  rw [List.flatMap_def]
  rw [← @List.forall₂_map_right_iff _ _ _ (fun part tokens => Fragment.Holds part tokens)] at hparts
  generalize items.map held = bodies at hparts ⊢
  obtain ⟨head, cuts, hcuts⟩ := Cuts.exists_cuts Finder.comma_follows 0 none hsound.atomic
  have hfragment := hsound.follows Finder.comma_follows htext hcuts
  have hrows := @forall₂_of_rows _ _ _ id _ hfragment.texts_splitList hfragment.sound_items hparts
  cases hrows with
  | @cons _ first _ others hfirst hothers =>
      have hbodies := List.forall₂_map_left_iff.mp hothers
      have hrow : Lexeme.Holds ([] ++ row) (first ++ others.flatten) :=
        .of_cuts Lexeme.Holds.comma_passes hsound.atomic hcuts (.inl rfl) hfirst.of_trimmed
          (hbodies.imp fun _ _ => .of_trimmed)
      exact hrow

/-- A chain holds what its parts hold. -/
theorem of_splitChain {connectors : List Connector} {items : List β} {held : β → List Token}
    (hparts : List.Forall₂ (fun part item => part.expression.Holds (held item))
      (fragment.splitChain connectors) items) :
    fragment.Holds (items.flatMap held) := by
  have hfirm := ChainMark.isFirm_entries connectors
  have hinert : ∀ entry ∈ ChainMark.entries connectors, entry.1.isInert = true := by
    intro entry hmem
    simp only [ChainMark.entries, List.mem_cons, List.mem_map] at hmem
    rcases hmem with rfl | ⟨connector, -, rfl⟩
    · rfl
    · cases connector <;> rfl
  have hfollows := Finder.ofKeywords_follows hfirm
  intro row hsound htext
  rw [List.flatMap_def]
  rw [← @List.forall₂_map_right_iff _ _ _ (fun part tokens =>
    Fragment.Holds (ChainPart.expression part) tokens)] at hparts
  generalize items.map held = bodies at hparts ⊢
  obtain ⟨head, cuts, hcuts⟩ := Cuts.exists_cuts hfollows 0 none hsound.atomic
  have hfragment := hsound.follows hfollows htext hcuts
  have htexts := congrArg (List.map Prod.snd) hfragment.parts_splitChain
  rw [List.map_map, List.map_map] at htexts
  have hrows := @forall₂_of_rows _ _ ((closeRows false none head cuts).map Prod.snd)
    ChainPart.expression bodies (by rw [List.map_map]; exact htexts)
    (fun part hmem => by
      obtain ⟨closed, hclosed, rfl⟩ := List.mem_map.mp hmem
      exact sound_of_mem_closeRows hfragment.sound hclosed)
    hparts
  have hrow : Lexeme.Holds ([] ++ row) bodies.flatten :=
    .of_closeRows (Lexeme.Holds.ofKeywords_passes hfirm hinert) hsound.atomic hcuts (.inl rfl)
      (List.forall₂_map_left_iff.mp hrows)
  exact hrow

end Holds

end Fragment

end SelectForm

import Mathlib
import SelectForm.Proofs.Statement.SplitRow
import SelectForm.Proofs.Statement.ReadCanonical

/-!
# Fragments of alike texts

Two fragments are alike if their texts are the texts of alike rows.  Whatever a reader
does to take a fragment apart, it does the same to a fragment that is alike: it trims
them, cuts them at the same marks, opens the same groups and takes the same keywords off.
Where the fragments stand does not matter.

`Agree` says of two readings that they fail together, or give related values.
-/

namespace SelectForm

open Lexeme

/-- Two readings that both fail, or both give values that are related. -/
inductive Agree {α β ε : Type} (S : α → β → Prop) : Except ε α → Except ε β → Prop
  | ok {value : α} {value' : β} (hvalue : S value value') : Agree S (.ok value) (.ok value')
  | error {failed failed' : ε} : Agree S (.error failed) (.error failed')

namespace Agree

variable {α β γ δ ε : Type} {S : α → β → Prop} {T : γ → δ → Prop}

theorem bind {first : Except ε α} {first' : Except ε β} {next : α → Except ε γ}
    {next' : β → Except ε δ} (hfirst : Agree S first first')
    (hnext : ∀ value value', S value value' → Agree T (next value) (next' value')) :
    Agree T (first >>= next) (first' >>= next') := by
  cases hfirst with
  | ok hvalue => exact hnext _ _ hvalue
  | error => exact .error

theorem imp {S' : α → β → Prop} {first : Except ε α} {first' : Except ε β}
    (hfirst : Agree S first first') (himp : ∀ value value', S value value' → S' value value') :
    Agree S' first first' := by
  cases hfirst with
  | ok hvalue => exact .ok (himp _ _ hvalue)
  | error => exact .error

theorem exists_ok {value : α} {read : Except ε β} (hagree : Agree S (.ok value) read) :
    ∃ value', read = .ok value' ∧ S value value' := by
  cases hagree with
  | ok hvalue => exact ⟨_, rfl, hvalue⟩

theorem mapM {P : γ → δ → Prop} {read : γ → Except ε α} {read' : δ → Except ε β}
    {sources : List γ} {sources' : List δ} (hsources : List.Forall₂ P sources sources')
    (hread : ∀ source source', P source source' → Agree S (read source) (read' source')) :
    Agree (List.Forall₂ S) (sources.mapM read) (sources'.mapM read') := by
  induction hsources with
  | nil => exact .ok .nil
  | cons hsource _ ih =>
      rw [List.mapM_cons, List.mapM_cons]
      refine (hread _ _ hsource).bind fun value value' hvalue => ?_
      exact ih.bind fun values values' hvalues => .ok (.cons hvalue hvalues)

/-- A check that has the same outcome on both sides. -/
theorem ite {p q : Prop} [Decidable p] [Decidable q] (hsame : p ↔ q) {failed failed' : ε}
    {read : Except ε α} {read' : Except ε β} (hread : ¬ p → Agree S read read') :
    Agree S (if p then .error failed else read) (if q then .error failed' else read') := by
  by_cases hp : p
  · rw [if_pos hp, if_pos (hsame.mp hp)]
    exact .error
  · rw [if_neg hp, if_neg (mt hsame.mpr hp)]
    exact hread hp

end Agree

/-! ## Alike texts -/

/-- Texts of alike rows. -/
def Text.Alike (R : Lexeme → Lexeme → Prop) (stretch : Prop) (text text' : Text) : Prop :=
  ∃ row row', Sound row ∧ Sound row' ∧ textOf row = text ∧ textOf row' = text' ∧
    Lexeme.Alike R stretch row row'

theorem Text.forall_of_trimEnd {text : Text} (htrim : trimEnd text = []) :
    ∀ c ∈ text, isBlank c = true := by
  induction text with
  | nil => exact List.forall_mem_nil _
  | cons c rest ih =>
      rw [trimEnd] at htrim
      split at htrim
      · rename_i hrest
        split at htrim
        · rename_i hblank
          exact List.forall_mem_cons.mpr ⟨hblank, ih hrest⟩
        · exact absurd htrim (by simp)
      · exact absurd htrim (by simp)

/-- Only a blank text is trimmed to nothing. -/
theorem Text.all_isBlank_iff {text : Text} : text.all isBlank = true ↔ trim text = [] := by
  rw [List.all_eq_true]
  constructor
  · exact trim_of_forall
  · intro htrim c hc
    rw [← leading_append_trimStart text, List.mem_append] at hc
    rcases hc with hc | hc
    · exact List.mem_takeWhile_imp hc
    · exact forall_of_trimEnd htrim c hc

namespace Fragment

/-- Fragments with alike texts, wherever they stand. -/
def Alike (R : Lexeme → Lexeme → Prop) (stretch : Prop) (fragment fragment' : Fragment) : Prop :=
  Text.Alike R stretch fragment.text fragment'.text

variable {R : Lexeme → Lexeme → Prop} {stretch : Prop} {fragment fragment' : Fragment}
  {row row' : List Lexeme}

theorem alike_of_rows (hsound : Sound row) (hsound' : Sound row') (htext : fragment.text = textOf row)
    (htext' : fragment'.text = textOf row') (halike : Lexeme.Alike R stretch row row') :
    fragment.Alike R stretch fragment' :=
  ⟨row, row', hsound, hsound', htext.symm, htext'.symm, halike⟩

namespace Alike

theorem trim (hblind : Blind R) (halike : fragment.Alike R stretch fragment') :
    fragment.trim.Alike R stretch fragment'.trim := by
  obtain ⟨row, row', hsound, hsound', htext, htext', hrows⟩ := halike
  refine alike_of_rows hsound.trimmed hsound'.trimmed ?_ ?_ (hrows.trimmed hblind)
  · rw [Fragment.trim, ← htext, hsound.atomic.trim_textOf]
  · rw [Fragment.trim, ← htext', hsound'.atomic.trim_textOf]

theorem text_eq_nil_iff (halike : fragment.Alike R stretch fragment') :
    fragment.text = [] ↔ fragment'.text = [] := by
  obtain ⟨row, row', hsound, hsound', htext, htext', hrows⟩ := halike
  rw [← htext, ← htext', hsound.atomic.textOf_eq_nil_iff, hsound'.atomic.textOf_eq_nil_iff]
  exact hrows.eq_nil_iff

theorem isEmpty_eq (halike : fragment.Alike R stretch fragment') :
    fragment.text.isEmpty = fragment'.text.isEmpty := by
  rw [Bool.eq_iff_iff, List.isEmpty_iff, List.isEmpty_iff]
  exact halike.text_eq_nil_iff

theorem isBlank_eq (hblind : Blind R) (halike : fragment.Alike R stretch fragment') :
    fragment.isBlank = fragment'.isBlank := by
  rw [Bool.eq_iff_iff, Fragment.isBlank, Fragment.isBlank, Text.all_isBlank_iff,
    Text.all_isBlank_iff]
  exact (halike.trim hblind).text_eq_nil_iff

theorem inside? (hblind : Blind R) (halike : fragment.Alike R stretch fragment') :
    Option.Rel (Alike R stretch) fragment.inside? fragment'.inside? := by
  obtain ⟨row, row', hsound, hsound', htext, htext', hrows⟩ := halike
  have hinside := hsound.inside?_textOf fragment.start
  have hinside' := hsound'.inside?_textOf fragment'.start
  rw [htext] at hinside
  rw [htext'] at hinside'
  have hfound := hrows.inside? hblind
  cases hopen : Lexeme.inside? row with
  | none =>
      cases hopen' : Lexeme.inside? row' with
      | none =>
          rw [hopen, Option.map_none, Option.map_eq_none_iff] at hinside
          rw [hopen', Option.map_none, Option.map_eq_none_iff] at hinside'
          rw [hinside, hinside']
          exact .none
      | some inner' =>
          rw [hopen, hopen'] at hfound
          cases hfound
  | some inner =>
      cases hopen' : Lexeme.inside? row' with
      | none =>
          rw [hopen, hopen'] at hfound
          cases hfound
      | some inner' =>
          rw [hopen, hopen', Option.rel_some_some] at hfound
          rw [hopen, Option.map_some, Option.map_eq_some_iff] at hinside
          rw [hopen', Option.map_some, Option.map_eq_some_iff] at hinside'
          obtain ⟨found, hfragment, hinner⟩ := hinside
          obtain ⟨found', hfragment', hinner'⟩ := hinside'
          rw [hfragment, hfragment']
          exact .some (alike_of_rows (hsound.inside hopen) (hsound'.inside hopen') hinner hinner'
            hfound)

/-- A keyword at the front of two alike fragments, and what is behind it. -/
theorem length? {keyword : Keyword} (hblind : Blind R) (hfirm : keyword.isFirm = true)
    (halike : fragment.Alike R stretch fragment') :
    Option.Rel
      (fun count count' => (fragment.drop count).Alike R stretch (fragment'.drop count') ∧
        (fragment.drop count).text.length < fragment.text.length ∧
        (fragment'.drop count').text.length < fragment'.text.length)
      (keyword.length? none fragment.text.cells) (keyword.length? none fragment'.text.cells) := by
  obtain ⟨row, row', hsound, hsound', htext, htext', hrows⟩ := halike
  have hplain := Keyword.isPlain_of_isFirm hfirm
  rw [← htext, ← htext', hsound.cells_textOf, hsound'.cells_textOf,
    Keyword.length?_cellsOf_row true hplain hsound.atomic,
    Keyword.length?_cellsOf_row true hplain hsound'.atomic]
  rcases @Keyword.rest?_alike_cases R stretch row row' keyword none none hblind hfirm rfl hrows with
    ⟨hrest, hrest'⟩ | ⟨c, spelled, back, d, spelled', back', rfl, rfl, hrest, hrest', -, hbacks⟩
  · rw [hrest, hrest']
    exact .none
  · have hdrop : (fragment.drop ((textOf (marks (c :: spelled) ++ back)).length -
        (textOf back).length)).text = textOf back := by
      rw [drop, ← htext, drop_textOf]
    have hdrop' : (fragment'.drop ((textOf (marks (d :: spelled') ++ back')).length -
        (textOf back').length)).text = textOf back' := by
      rw [drop, ← htext', drop_textOf]
    rw [hrest, hrest', Option.map_some, Option.map_some]
    refine .some ⟨alike_of_rows hsound.right hsound'.right hdrop hdrop' hbacks, ?_, ?_⟩
    · rw [hdrop]
      exact Keyword.length_textOf_lt_of_rest? hplain hrest
    · rw [hdrop']
      exact Keyword.length_textOf_lt_of_rest? hplain hrest'

theorem exists_cuts {α : Type} {find : Finder α} {seek : RowFinder α} (hblind : Blind R)
    (hfollows : find.Follows seek) (hsteady : seek.Steady R stretch)
    (halike : fragment.Alike R stretch fragment') :
    ∃ head head' cuts cuts', (fragment.segment find).Follows seek head cuts ∧
      (fragment'.segment find).Follows seek head' cuts' ∧ Lexeme.Alike R stretch head head' ∧
      List.Forall₂ (RowCut.Alike R stretch) cuts cuts' := by
  obtain ⟨row, row', hsound, hsound', htext, htext', hrows⟩ := halike
  obtain ⟨head, cuts, hcuts⟩ := Cuts.exists_cuts hfollows 0 none hsound.atomic
  obtain ⟨head', cuts', hcuts', halike, hforall⟩ :=
    @Cuts.alike α find seek 0 none row head cuts R stretch none row' hblind hfollows hsteady rfl hrows
      hcuts
  exact ⟨head, head', cuts, cuts', hsound.follows hfollows htext.symm hcuts,
    hsound'.follows hfollows htext'.symm hcuts', halike, hforall⟩

section

variable {α : Type} {find : Finder α} {seek : RowFinder α}

/-- Two alike fragments are split at the same mark. -/
theorem splitFirst? (hblind : Blind R) (hfollows : find.Follows seek)
    (hsteady : seek.Steady R stretch) (halike : fragment.Alike R stretch fragment') :
    Option.Rel (fun split split' => split.label = split'.label ∧
        split.before.Alike R stretch split'.before ∧ split.after.Alike R stretch split'.after)
      (fragment.splitFirst? find) (fragment'.splitFirst? find) := by
  obtain ⟨head, head', cuts, cuts', hcuts, hcuts', hhead, hforall⟩ :=
    halike.exists_cuts hblind hfollows hsteady
  cases hforall with
  | nil =>
      rw [hcuts.splitFirst?_nil, hcuts'.splitFirst?_nil]
      exact .none
  | @cons cut cut' cuts cuts' hcut hrest =>
      obtain ⟨split, hsplit, hlabel, hbefore, -, hafter⟩ := hcuts.splitFirst?_cons
      obtain ⟨split', hsplit', hlabel', hbefore', -, hafter'⟩ := hcuts'.splitFirst?_cons
      have hbacks : Lexeme.Alike R stretch (cut.body ++ cuts.flatMap RowCut.row)
          (cut'.body ++ cuts'.flatMap RowCut.row) :=
        hcut.body.append (RowCut.flatMap_row_alike hrest)
      rw [hsplit, hsplit']
      refine .some ⟨?_, ?_, ?_⟩
      · rw [hlabel, hlabel', hcut.label]
      · exact alike_of_rows hcuts.sound.left hcuts'.sound.left hbefore hbefore' hhead
      · exact alike_of_rows hcuts.sound_after hcuts'.sound_after hafter hafter' hbacks

/-- Fragments with the texts of alike rows, one by one. -/
theorem forall₂_of_rows {β : Type} {fragments fragments' : List β} {rows rows' : List (List Lexeme)}
    {part : β → Fragment} (hsound : ∀ row ∈ rows, Sound row) (hsound' : ∀ row ∈ rows', Sound row)
    (htexts : fragments.map (fun one => (part one).text) = rows.map textOf)
    (htexts' : fragments'.map (fun one => (part one).text) = rows'.map textOf)
    (hrows : List.Forall₂ (Lexeme.Alike R stretch) rows rows') :
    List.Forall₂ (fun one one' => (part one).Alike R stretch (part one')) fragments fragments' := by
  induction hrows generalizing fragments fragments' with
  | nil =>
      rw [List.map_nil, List.map_eq_nil_iff] at htexts htexts'
      rw [htexts, htexts']
      exact .nil
  | cons hrow _ ih =>
      rw [List.map_cons, List.map_eq_cons_iff] at htexts htexts'
      obtain ⟨one, others, rfl, hone, hothers⟩ := htexts
      obtain ⟨one', others', rfl, hone', hothers'⟩ := htexts'
      rw [List.forall_mem_cons] at hsound hsound'
      exact .cons (alike_of_rows hsound.1 hsound'.1 hone hone' hrow)
        (ih hsound.2 hsound'.2 hothers hothers')

theorem splitList (hblind : Blind R) (halike : fragment.Alike R stretch fragment') :
    List.Forall₂ (Alike R stretch) fragment.splitList fragment'.splitList := by
  obtain ⟨head, head', cuts, cuts', hcuts, hcuts', hhead, hforall⟩ :=
    halike.exists_cuts hblind Finder.comma_follows (RowFinder.comma_steady hblind)
  refine @forall₂_of_rows R stretch _ _ _ _ _ id hcuts.sound_items hcuts'.sound_items
    hcuts.texts_splitList hcuts'.texts_splitList ?_
  refine .cons (hhead.trimmed hblind) ?_
  rw [List.forall₂_map_left_iff, List.forall₂_map_right_iff]
  exact hforall.imp fun _ _ hcut => hcut.body.trimmed hblind

theorem splitChain {connectors : List Connector} (hblind : Blind R)
    (halike : fragment.Alike R stretch fragment') :
    List.Forall₂ (fun part part' => part.connector = part'.connector ∧
        part.expression.Alike R stretch part'.expression)
      (fragment.splitChain connectors) (fragment'.splitChain connectors) := by
  have hfirm := ChainMark.isFirm_entries connectors
  obtain ⟨head, head', cuts, cuts', hcuts, hcuts', hhead, hforall⟩ :=
    halike.exists_cuts hblind (Finder.ofKeywords_follows hfirm)
      (RowFinder.ofKeywords_steady hblind hfirm)
  have hparts := hcuts.parts_splitChain
  have hparts' := hcuts'.parts_splitChain
  have hsound := fun closed => @sound_of_mem_closeRows false none head cuts closed hcuts.sound
  have hsound' := fun closed => @sound_of_mem_closeRows false none head' cuts' closed hcuts'.sound
  have hclosed := @closeRows_alike R stretch false none head head' cuts cuts' hblind hhead hforall
  generalize closeRows false none head cuts = closed at hparts hsound hclosed
  generalize closeRows false none head' cuts' = closed' at hparts' hsound' hclosed
  generalize fragment.splitChain connectors = parts at hparts
  generalize fragment'.splitChain connectors = parts' at hparts'
  induction hclosed generalizing parts parts' with
  | nil =>
      rw [List.map_nil, List.map_eq_nil_iff] at hparts hparts'
      rw [hparts, hparts']
      exact .nil
  | cons hone _ ih =>
      rw [List.map_cons, List.map_eq_cons_iff] at hparts hparts'
      obtain ⟨part, others, rfl, hpart, hothers⟩ := hparts
      obtain ⟨part', others', rfl, hpart', hothers'⟩ := hparts'
      obtain ⟨hconnector, htext⟩ := Prod.mk.inj hpart
      obtain ⟨hconnector', htext'⟩ := Prod.mk.inj hpart'
      refine .cons ⟨?_, ?_⟩ (ih ?_ ?_ others hothers others' hothers')
      · rw [hconnector, hconnector', hone.1]
      · exact alike_of_rows (hsound _ List.mem_cons_self) (hsound' _ List.mem_cons_self) htext htext'
          hone.2
      · exact fun closed hmem => hsound closed (List.mem_cons_of_mem _ hmem)
      · exact fun closed hmem => hsound' closed (List.mem_cons_of_mem _ hmem)

end

end Alike

end Fragment

/-- Segments with the texts of alike cuts, one by one. -/
theorem Segment.forall₂_of_cuts {α : Type} {R : Lexeme → Lexeme → Prop} {stretch : Prop}
    {segments segments' : List (Segment α)} {cuts cuts' : List (RowCut α)}
    (hsound : Sound (cuts.flatMap RowCut.row)) (hsound' : Sound (cuts'.flatMap RowCut.row))
    (hsegments : segments.map cut = cuts.map RowCut.cut)
    (hsegments' : segments'.map cut = cuts'.map RowCut.cut)
    (hcuts : List.Forall₂ (RowCut.Alike R stretch) cuts cuts') :
    List.Forall₂ (fun segment segment' => segment.label = segment'.label ∧
        segment.mark.Alike R stretch segment'.mark ∧ segment.body.Alike R stretch segment'.body)
      segments segments' := by
  induction hcuts generalizing segments segments' with
  | nil =>
      rw [List.map_nil, List.map_eq_nil_iff] at hsegments hsegments'
      rw [hsegments, hsegments']
      exact .nil
  | @cons one one' cuts cuts' hone _ ih =>
      rw [List.map_cons, List.map_eq_cons_iff] at hsegments hsegments'
      obtain ⟨segment, others, rfl, hsegment, hothers⟩ := hsegments
      obtain ⟨segment', others', rfl, hsegment', hothers'⟩ := hsegments'
      obtain ⟨hlabel, hmark, hbody⟩ := Cut.mk.inj hsegment
      obtain ⟨hlabel', hmark', hbody'⟩ := Cut.mk.inj hsegment'
      have hfirst := RowCut.sound_of_mem hsound List.mem_cons_self
      have hfirst' := RowCut.sound_of_mem hsound' List.mem_cons_self
      rw [List.flatMap_cons] at hsound hsound'
      refine .cons ⟨?_, ?_, ?_⟩ (ih hsound.right hsound'.right hothers hothers')
      · rw [hlabel, hlabel', hone.label]
      · exact Fragment.alike_of_rows hfirst.1 hfirst'.1 hmark hmark' hone.mark
      · exact Fragment.alike_of_rows hfirst.2 hfirst'.2 hbody hbody' hone.body

end SelectForm

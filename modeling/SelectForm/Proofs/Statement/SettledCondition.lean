import Mathlib
import SelectForm.Proofs.Lexis.CellMatch
import SelectForm.Proofs.Statement.AlikeCondition
import SelectForm.Proofs.Statement.PlacedFragment
import SelectForm.Proofs.Statement.ReadCanonical
import SelectForm.Proofs.Statement.UnmarkedOperand

/-!
# Conditions settle the marks of a chain

A condition brings marks of a chain only with its operator: a `BETWEEN` and the `AND` between
its bounds.  Its sides, what is in parentheses and the other operators hold none.  So behind a
condition no `BETWEEN` waits for its `AND`.
-/

namespace SelectForm

open Lexeme

/-! ## Keywords between texts -/

namespace Keyword

variable {keyword : Keyword} {first text second : Text}

/-- Whether a keyword is written in letters, or in signs that are read together with no other
character. -/
def isBare (keyword : Keyword) : Bool :=
  match keyword.form with
  | .symbol symbol => symbol.all fun c => ['<', '>', '=', '!'].contains c
  | .phrase words => words.all fun word => word.all Char.isUpper

/-- Whether no word of a keyword is a word of a chain. -/
def isUnmarked (keyword : Keyword) : Bool :=
  match keyword.form with
  | .symbol _ => true
  | .phrase words => words.all fun word => !ChainMark.stops.contains word

theorem letters_of_spellsWords {words : List Text}
    (hwords : ∀ word ∈ words, ∀ c ∈ word, c.isUpper = true) (hspells : SpellsWords words text) :
    ∀ c ∈ text, c.isAlpha = true ∨ Text.isBlank c = true := by
  induction hspells with
  | nil => exact List.forall_mem_nil _
  | cons _ hgap htext _ ih =>
      obtain ⟨hword, hwords⟩ := List.forall_mem_cons.mp hwords
      simp only [List.forall_mem_append]
      exact ⟨fun c hc => .inr (Text.isBlank_of_isAsciiBlank (hgap c hc)),
        fun c hc => .inl (isAlpha_of_map_toUpper hword htext c hc), ih hwords⟩

theorem isBreak_head?_of_spellsWords {words : List Text} (hspells : SpellsWords words text) :
    ∀ b ∈ text.head?, isBreak b = true := by
  cases hspells with
  | nil => simp
  | @cons word gap first rest words hne hgap htext hrest =>
      intro b hb
      rw [List.head?_append_of_ne_nil _ hne] at hb
      exact isBreak_of_isBlank (Text.isBlank_of_isAsciiBlank (hgap b (List.mem_of_head? hb)))

/-- A word of letters and the other words of a phrase behind it. -/
theorem isUnmarked_of_spellsPhrase {word : Text} {words : List Text}
    (hwords : ∀ other ∈ word :: words, (∀ c ∈ other, c.isUpper = true) ∧ other ∉ ChainMark.stops)
    (hfirst : first.map Char.toUpper = word) (hspells : SpellsWords words text) :
    Text.IsUnmarked (first ++ text) := by
  have hword : ∀ (first : Text) (word : Text),
      (∀ c ∈ word, c.isUpper = true) ∧ word ∉ ChainMark.stops →
      first.map Char.toUpper = word → Text.IsUnmarked first := by
    intro first word hword hfirst
    apply Text.isUnmarked_word
    · intro c hc
      have hletter := isAlpha_of_map_toUpper hword.1 hfirst c hc
      exact Text.isWordChar_of_isAlpha hletter
    · rw [hfirst]
      exact hword.2
  induction hspells generalizing first word with
  | nil =>
      rw [List.append_nil]
      exact hword first word (hwords word List.mem_cons_self) hfirst
  | @cons other gap next rest words hne hgap hnext hrest ih =>
      obtain ⟨hhead, htail⟩ := List.forall_mem_cons.mp hwords
      have hblank : ∀ c ∈ gap, Text.isBlank c = true :=
        fun c hc => Text.isBlank_of_isAsciiBlank (hgap c hc)
      have hback := (Text.isUnmarked_blanks hblank).append (ih htail hnext)
        (clear_blanks_left _ hblank)
      exact (hword first word hhead hfirst).append hback
        (clear_of_isBreak_right _ (isBreak_head?_of_spellsWords (.cons hne hgap hnext hrest)))

theorem isUnmarked_of_spells (hbare : keyword.isBare = true) (hunmarked : keyword.isUnmarked = true)
    (hspells : keyword.Spells text) : text.IsUnmarked := by
  unfold isBare at hbare
  unfold isUnmarked at hunmarked
  unfold Spells at hspells
  cases hform : keyword.form with
  | symbol symbol =>
      simp only [hform, List.all_eq_true, List.contains_eq_mem, decide_eq_true_eq] at hbare hspells
      subst hspells
      exact Text.isUnmarked_signs fun c hc => List.mem_append_right [',', '.', '*'] (hbare c hc)
  | phrase words =>
      simp only [hform, List.all_eq_true, Bool.not_eq_true', List.contains_eq_mem,
        decide_eq_false_iff_not] at hbare hunmarked hspells
      cases words with
      | nil =>
          simp only at hspells
          subst hspells
          exact Text.isUnmarked_blanks (List.forall_mem_nil _)
      | cons word words =>
          obtain ⟨first, rest, rfl, hfirst, hrest⟩ := hspells
          exact isUnmarked_of_spellsPhrase
            (fun other hmem => ⟨hbare other hmem, hunmarked other hmem⟩)
            hfirst hrest

/-! ### Characters that meet a keyword -/

theorem clear_letters_left (hletters : ∀ c ∈ text, c.isAlpha = true ∨ Text.isBlank c = true)
    (hhead : second.head?.any Text.isWordChar = false) : Clear text second := by
  intro a ha b hb
  rcases hletters a (List.mem_of_getLast? ha) with hletter | hblank
  · apply merges_of_isWordChar_left (Text.isWordChar_of_isAlpha hletter)
    right
    rw [Option.mem_def.mp hb, Option.any_some] at hhead
    exact Bool.eq_false_of_not_eq_true fun hb => by simp [Text.isWordChar_of_isAlpha hb] at hhead
  · exact merges_of_isBreak_left b (isBreak_of_isBlank hblank)

theorem clear_letters_right (hletters : ∀ c ∈ text, c.isAlpha = true ∨ Text.isBlank c = true)
    (hlast : first.getLast?.any Text.isWordChar = false) : Clear first text := by
  intro a ha b hb
  rcases hletters b (List.mem_of_head? hb) with hletter | hblank
  · apply merges_of_isWordChar_right (Text.isWordChar_of_isAlpha hletter)
    left
    rw [Option.mem_def.mp ha, Option.any_some] at hlast
    exact Bool.eq_false_of_not_eq_true fun ha => by simp [Text.isWordChar_of_isAlpha ha] at hlast
  · exact merges_of_isBreak_right a (isBreak_of_isBlank hblank)

theorem letters_of_spells {words : List Text} (hbare : keyword.isBare = true)
    (hform : keyword.form = .phrase words) (hspells : keyword.Spells text) :
    ∀ c ∈ text, c.isAlpha = true ∨ Text.isBlank c = true := by
  unfold isBare at hbare
  unfold Spells at hspells
  simp only [hform, List.all_eq_true] at hbare hspells
  cases words with
  | nil =>
      simp only at hspells
      subst hspells
      exact List.forall_mem_nil _
  | cons word words =>
      obtain ⟨first, rest, rfl, hfirst, hrest⟩ := hspells
      obtain ⟨hword, hwords⟩ := List.forall_mem_cons.mp hbare
      rw [List.forall_mem_append]
      exact ⟨fun c hc => .inl (isAlpha_of_map_toUpper hword hfirst c hc),
        letters_of_spellsWords hwords hrest⟩

/-- What is around a keyword is not read together with it. -/
theorem Fits.clear (hbare : keyword.isBare = true) (hfits : keyword.Fits first.getLast? text second) :
    Clear first text ∧ Clear text second := by
  have hspells := hfits.spells
  cases hform : keyword.form with
  | symbol symbol =>
      simp only [isBare, hform, List.all_eq_true, List.contains_eq_mem, decide_eq_true_eq] at hbare
      simp only [Spells, hform] at hspells
      subst hspells
      have hbreak : ['<', '>', '=', '!'].all isBreak = true := rfl
      have htext : ∀ c ∈ text, isBreak c = true :=
        fun c hc => List.all_eq_true.mp hbreak c (hbare c hc)
      exact ⟨clear_of_isBreak_right _ fun b hb => htext b (List.mem_of_head? hb),
        clear_of_isBreak_left _ fun a ha => htext a (List.mem_of_getLast? ha)⟩
  | phrase words =>
      obtain ⟨hlast, hhead⟩ := hfits.bounded words hform
      have hletters := letters_of_spells hbare hform hspells
      exact ⟨clear_letters_right hletters hlast, clear_letters_left hletters hhead⟩

end Keyword

/-! ## Settled texts -/

namespace Lexeme

theorem closed_letters {text : Text}
    (hletters : ∀ c ∈ text, c.isAlpha = true ∨ Text.isBlank c = true) : Closed (marks text) := by
  apply closed_marks
  intro c hc
  rcases hletters c hc with hletter | hblank
  · exact isTame_of_test rfl hletter
  · exact isTame_of_isBlank hblank

/-- Closed rows with `BETWEEN` and `AND` between them. -/
theorem closed_between {front low high : List Lexeme} {between link : Text} (hfront : Closed front)
    (hlow : Closed low) (hhigh : Closed high) (hlowNe : textOf low ≠ [])
    (hbetween : Keyword.between.Fits (textOf front).getLast? between (textOf low))
    (hlink : Keyword.and_.Fits (textOf low).getLast? link (textOf high)) :
    Closed (front ++ (marks between ++ (low ++ (marks link ++ high)))) := by
  obtain ⟨hbefore, hbehind⟩ := hbetween.clear rfl
  obtain ⟨hbefore', hbehind'⟩ := hlink.clear rfl
  have hbetweenNe : between ≠ [] := hbetween.spells.ne_nil rfl
  have hlinkNe : link ≠ [] := hlink.spells.ne_nil rfl
  have hbetweenClosed := closed_letters (Keyword.letters_of_spells rfl rfl hbetween.spells)
  have hlinkClosed := closed_letters (Keyword.letters_of_spells rfl rfl hlink.spells)
  have hend : Closed (marks link ++ high) := hlinkClosed.append hhigh (by rwa [textOf_marks])
  have hback : Closed (low ++ (marks link ++ high)) := hlow.append hend (by
    rw [textOf_append, textOf_marks]
    exact hbefore'.append_right hlinkNe _)
  have hrest : Closed (marks between ++ (low ++ (marks link ++ high))) :=
    hbetweenClosed.append hback (by
      rw [textOf_append, textOf_marks]
      exact hbehind.append_right hlowNe _)
  refine hfront.append hrest ?_
  rw [textOf_append, textOf_marks]
  exact hbefore.append_right hbetweenNe _

end Lexeme

namespace Text

/-- A text that brings no mark of a chain outside parentheses, or a `BETWEEN` and its `AND`. -/
inductive IsSettled : Text → Prop
  | unmarked {text : Text} (hunmarked : IsUnmarked text) : IsSettled text
  | between {front mark low link high : Text} (hfront : IsUnmarked front) (hlow : IsUnmarked low)
      (hhigh : IsUnmarked high) (hfrontNe : front ≠ []) (hlowNe : low ≠ []) (hhighNe : high ≠ [])
      (hmark : Keyword.between.Fits front.getLast? mark low)
      (hlink : Keyword.and_.Fits low.getLast? link high) :
      IsSettled (front ++ (mark ++ (low ++ (link ++ high))))

variable {first text back : Text}

theorem IsSettled.isClosed (hsettled : IsSettled text) : IsClosed text := by
  cases hsettled with
  | unmarked hunmarked => exact hunmarked.isClosed
  | between hfront hlow hhigh _ hlowNe _ hmark hlink =>
      obtain ⟨front, hfront, rfl⟩ := hfront
      obtain ⟨low, hlow, rfl⟩ := hlow
      obtain ⟨high, hhigh, rfl⟩ := hhigh
      refine ⟨_, closed_between hfront.toClosed hlow.toClosed hhigh.toClosed hlowNe hmark hlink, ?_⟩
      simp [textOf_marks]

theorem IsSettled.append_left (hsettled : IsSettled text) (hfirst : IsUnmarked first)
    (hclear : Clear first text) : IsSettled (first ++ text) := by
  cases hsettled with
  | unmarked hunmarked => exact .unmarked (hfirst.append hunmarked hclear)
  | @between front mark low link high hfront hlow hhigh hfrontNe hlowNe hhighNe hmark hlink =>
      have hclearFront : Clear first front := by
        intro a ha b hb
        apply hclear a ha
        rw [List.head?_append_of_ne_nil _ hfrontNe]
        exact hb
      rw [← List.append_assoc]
      refine .between (hfirst.append hfront hclearFront) hlow hhigh (by simp [hfrontNe]) hlowNe
        hhighNe ?_ hlink
      rwa [List.getLast?_append_of_ne_nil _ hfrontNe]

theorem IsSettled.append_right (hsettled : IsSettled text) (hback : ∀ c ∈ back, isBlank c = true) :
    IsSettled (text ++ back) := by
  cases hsettled with
  | unmarked hunmarked =>
      exact .unmarked (hunmarked.append (isUnmarked_blanks hback) (clear_blanks_right _ hback))
  | @between front mark low link high hfront hlow hhigh hfrontNe hlowNe hhighNe hmark hlink =>
      simp only [List.append_assoc]
      have hhighBack : IsUnmarked (high ++ back) :=
        hhigh.append (isUnmarked_blanks hback) (clear_blanks_right _ hback)
      exact .between hfront hlow hhighBack hfrontNe hlowNe (by simp [hhighNe]) hmark
        ((Keyword.fits_append_iff hhighNe back).mpr hlink)

theorem IsSettled.of_trim (htrim : IsSettled (trim text)) : IsSettled text := by
  obtain ⟨front, back, htext, hfront, hback⟩ := exists_trim text
  rw [htext]
  exact (htrim.append_right hback).append_left (isUnmarked_blanks hfront) (clear_blanks_left _ hfront)

end Text

/-! ## Taking fragments apart -/

namespace Fragment

variable {α : Type} {fragment inner : Fragment}

/-- A keyword at the front of a fragment, and what is behind it. -/
theorem exists_of_length? {keyword : Keyword} {count : Nat}
    (hcount : keyword.length? none fragment.text.cells = some count) :
    ∃ mark, fragment.text = mark ++ (fragment.drop count).text ∧
      keyword.Fits none mark (fragment.drop count).text := by
  obtain ⟨front, rest, hcells, rfl, -, hfits⟩ := Keyword.exists_of_length? hcount
  have htext : fragment.text = Cell.text front ++ Cell.text rest := by
    rw [Cell.text, Cell.text, ← List.map_append, ← hcells]
    exact (Mode.text_cells .between fragment.text).symm
  have hdrop : (fragment.drop front.length).text = Cell.text rest := by
    have hlength : front.length = (Cell.text front).length := (List.length_map _).symm
    rw [drop, htext, hlength, List.drop_left]
  refine ⟨Cell.text front, ?_, ?_⟩
  · rw [hdrop, htext]
  · rw [hdrop]
    exact hfits

/-- The first mark of a fragment, and what is on both sides of it. -/
theorem exists_of_splitFirst? {keywords : List (Keyword × α)} {split : Split α}
    (hsplit : fragment.splitFirst? (.ofKeywords keywords) = some split) :
    fragment.text = split.before.text ++ (split.mark.text ++ split.after.text) ∧
      ∃ keyword, (keyword, split.label) ∈ keywords ∧
        keyword.Fits split.before.text.getLast? split.mark.text split.after.text := by
  have htext := Fragment.text_segment (.ofKeywords keywords) fragment
  have hmap := @Segmentation.map_cut_tail_ofCells α (.ofKeywords keywords) none
    fragment.text.cells fragment.start
  obtain ⟨first, others, htail, rfl⟩ := exists_segment_of_splitFirst? hsplit
  rw [← segment, htail, List.map_cons] at hmap
  rw [htail, List.flatMap_cons, List.append_assoc] at htext
  refine ⟨htext.symm, ?_⟩
  obtain ⟨front, back, count, hcells, hfront, hfound, hmark, -⟩ :=
    exists_of_cutCells_cons (Prod.ext rfl hmap.symm)
  obtain ⟨keyword, word, rest, hmem, rfl, hword, -, hfits⟩ := Finder.exists_of_ofKeywords hfound
  change first.mark.text = _ at hmark
  rw [← hword, List.take_left] at hmark
  have hwhole : Cell.text (front ++ (word ++ rest)) = fragment.text := by
    rw [← hcells]
    exact Mode.text_cells .between fragment.text
  simp only [Cell.text, List.map_append] at hwhole
  rw [← htext, hmark, show (fragment.segment (.ofKeywords keywords)).head.text =
    front.map Cell.char from hfront.symm] at hwhole
  have hrest := List.append_cancel_left (List.append_cancel_left hwhole)
  refine ⟨keyword, hmem, ?_⟩
  rw [hmark]
  rw [Option.or_none] at hfits
  exact hrest ▸ hfits

/-- A list is closed if its items are. -/
theorem isClosed_of_splitList (hitems : ∀ item ∈ fragment.splitList, item.text.IsClosed) :
    fragment.text.IsClosed := by
  have hcomma : ∀ before cells label count, Finder.comma before cells = some (label, count) →
      Cell.text (cells.take count) = [','] := by
    intro before cells label count hfound
    cases cells with
    | nil => simp [Finder.comma] at hfound
    | cons cell cells =>
        simp only [Finder.comma, Option.ite_none_right_eq_some, Option.some.injEq,
          Prod.mk.injEq] at hfound
        obtain ⟨hchar, -, rfl⟩ := hfound
        simp [Cell.text, hchar]
  have hmarks := @Cut.forall_marks Unit .comma (fun _ text => text = [',']) hcomma 0 0 none
    fragment.text.cells
  rw [← Segmentation.map_cut_tail_ofCells none fragment.text.cells fragment.start,
    List.forall_mem_map] at hmarks
  have htext := Fragment.text_segment .comma fragment
  unfold splitList at hitems
  rw [List.forall_mem_cons, List.forall_mem_map] at hitems
  obtain ⟨hhead, hbodies⟩ := hitems
  change ∀ segment ∈ (fragment.segment .comma).tail, segment.mark.text = [','] at hmarks
  rw [← htext]
  have htail : ∀ segments : List (Segment Unit), (∀ segment ∈ segments, segment.mark.text = [',']) →
      (∀ segment ∈ segments, segment.body.trim.text.IsClosed) →
      Text.IsClosed (segments.flatMap fun s => s.mark.text ++ s.body.text) ∧
        ∀ b ∈ (segments.flatMap fun s => s.mark.text ++ s.body.text).head?, isBreak b = true := by
    intro segments hmarks hbodies
    induction segments with
    | nil => exact ⟨(Text.isUnmarked_blanks (List.forall_mem_nil _)).isClosed, by simp⟩
    | cons segment segments ih =>
        obtain ⟨hmark, hmarks⟩ := List.forall_mem_cons.mp hmarks
        obtain ⟨hbody, hbodies⟩ := List.forall_mem_cons.mp hbodies
        obtain ⟨hrest, hbreak⟩ := ih hmarks hbodies
        have hsign : Text.IsClosed [','] := (Text.isUnmarked_signs (by simp)).isClosed
        have hback := hbody.of_trim.append hrest (clear_of_isBreak_right _ hbreak)
        rw [List.flatMap_cons, hmark, List.append_assoc]
        exact ⟨hsign.append hback (clear_of_isBreak_left _ (by simp [isBreak])), by simp [isBreak]⟩
  obtain ⟨hclosed, hbreak⟩ := htail _ hmarks hbodies
  exact hhead.of_trim.append hclosed (clear_of_isBreak_right _ hbreak)

end Fragment

/-! ## Conditions -/

namespace Condition

variable {clause : Clause} {fragment body left right : Fragment}

/-- Parentheses and `NOT`s around a settled text bring no mark. -/
theorem isSettled_of_stripWithin {bound : Nat} {negated negated' : Bool}
    (hstrip : stripWithin bound negated fragment = (body, negated'))
    (hbody : body.text.IsSettled) : fragment.text.IsSettled := by
  induction bound generalizing fragment negated with
  | zero =>
      obtain ⟨rfl, -⟩ := Prod.mk.inj hstrip
      exact hbody.of_trim
  | succ bound ih =>
      rw [stripWithin] at hstrip
      apply Text.IsSettled.of_trim
      cases hinside : fragment.trim.inside? with
      | some inner =>
          simp only [hinside] at hstrip
          apply Text.IsSettled.of_trim
          have hgroup := (ih hstrip).isClosed.group
          rw [← Fragment.trim_of_inside? hinside] at hgroup
          exact .unmarked hgroup
      | none =>
          cases hcount : Keyword.not_.length? none fragment.trim.text.cells with
          | some count =>
              simp only [hinside, hcount] at hstrip
              obtain ⟨mark, htext, hfits⟩ := Fragment.exists_of_length? hcount
              have hmark := Keyword.isUnmarked_of_spells rfl rfl hfits.spells
              have hrest := (ih hstrip).append_left hmark (@Keyword.Fits.clear _ [] _ _ rfl hfits).2
              rwa [← htext] at hrest
          | none =>
              simp only [hinside, hcount] at hstrip
              obtain ⟨rfl, -⟩ := Prod.mk.inj hstrip
              exact hbody

/-! ### Operators -/

/-- The operator that `NOT` negates, behind it and a gap. -/
theorem exists_of_negatedOperator? {front rest : Text} {operator : Operator} {count : Nat}
    (hfound : negatedOperator? (front ++ rest) front.length = some (operator, count)) :
    ∃ gap mark keyword, rest = gap ++ (mark ++ (front ++ rest).drop count) ∧
      (∀ c ∈ gap, Text.isBlank c = true) ∧ (keyword, operator) ∈ negatedKeywords ∧
      keyword.Fits (front ++ gap).getLast? mark ((front ++ rest).drop count) := by
  have hgap : rest = Text.leading rest ++ Text.trimStart rest :=
    (Text.leading_append_trimStart rest).symm
  have hblank : ∀ c ∈ Text.leading rest, Text.isBlank c = true :=
    fun c hc => List.mem_takeWhile_imp hc
  unfold negatedOperator? at hfound
  rw [List.drop_left] at hfound
  generalize Text.leading rest = gap at hfound hgap hblank
  generalize Text.trimStart rest = back at hgap
  subst hgap
  dsimp only at hfound
  obtain ⟨⟨label, length⟩, hseek, hpair⟩ := Option.map_eq_some_iff.mp hfound
  obtain ⟨rfl, rfl⟩ := Prod.mk.inj hpair
  clear hfound
  obtain ⟨keyword, word, behind, hmem, hcells, rfl, -, hfits⟩ := Finder.exists_of_ofKeywords hseek
  have hback : back = Cell.text word ++ Cell.text behind := by
    have htext := congrArg Cell.text hcells
    rw [Cell.text, List.map_drop, ← Cell.text, Text.cells, Mode.text_cells, ← List.append_assoc,
      ← List.length_append, List.drop_left] at htext
    rw [htext, Cell.text, List.map_append]
    rfl
  have hdrop : (front ++ (gap ++ back)).drop (front.length + gap.length + word.length) =
      Cell.text behind := by
    rw [hback, ← List.append_assoc, ← List.append_assoc, ← List.length_append,
      show word.length = (Cell.text word).length from (List.length_map _).symm,
      ← List.length_append, List.drop_left]
  refine ⟨gap, Cell.text word, keyword, ?_, hblank, hmem, ?_⟩
  · rw [hdrop, hback]
  · rw [hdrop]
    rw [← List.append_assoc, ← List.length_append, List.take_left] at hfits
    exact hfits

/-- The sides of a condition and the operator between them.  In front of the operator may stand a
`NOT`. -/
theorem exists_of_splitOperator {split : OperatorSplit}
    (hsplit : splitOperator clause body = .ok split) :
    ∃ not mark keyword, body.text = split.left.text ++ not ++ (mark ++ split.right.text) ∧
      not.IsUnmarked ∧ Clear split.left.text not ∧
      (keyword, .operator split.operator) ∈ operatorKeywords ∧
      keyword.Fits (split.left.text ++ not).getLast? mark split.right.text := by
  unfold splitOperator at hsplit
  rw [show operatorFinder = Finder.ofKeywords operatorKeywords from rfl] at hsplit
  cases hfound : body.splitFirst? (.ofKeywords operatorKeywords) with
  | none => simp [hfound] at hsplit
  | some found =>
      obtain ⟨htext, keyword, hmem, hfits⟩ := Fragment.exists_of_splitFirst? hfound
      simp only [hfound] at hsplit
      cases hlabel : found.label with
      | operator operator =>
          simp only [hlabel, Except.ok.injEq] at hsplit
          subst hsplit
          rw [hlabel] at hmem
          refine ⟨[], found.mark.text, keyword, ?_,
            Text.isUnmarked_blanks (List.forall_mem_nil _), ?_,
            hmem, ?_⟩
          · rw [List.append_nil]
            exact htext
          · simp [Clear]
          · rw [List.append_nil]
            exact hfits
      | not =>
          rw [hlabel] at hmem
          obtain rfl : keyword = .not_ := by simpa [operatorKeywords] using hmem
          simp only [hlabel] at hsplit
          split at hsplit
          · exact absurd hsplit (by simp)
          · rename_i operator count hnegated
            simp only [Except.ok.injEq] at hsplit
            subst hsplit
            rw [htext, ← List.append_assoc, ← List.length_append] at hnegated
            obtain ⟨gap, mark, keyword, hafter, hgap, hmem', hfits'⟩ :=
              exists_of_negatedOperator? hnegated
            rw [List.append_assoc _ _ found.after.text, ← htext] at hafter hfits'
            obtain ⟨hclear, -⟩ := hfits.clear rfl
            have hsubset : ∀ entry ∈ negatedKeywords,
                (entry.1, OperatorMark.operator entry.2) ∈ operatorKeywords := by decide
            refine ⟨found.mark.text ++ gap, mark, keyword, ?_, ?_, ?_, hsubset _ hmem', ?_⟩
            · rw [htext, hafter]
              simp [Fragment.drop]
            · exact (Keyword.isUnmarked_of_spells rfl rfl hfits.spells).append
                (Text.isUnmarked_blanks hgap) (clear_blanks_right _ hgap)
            · exact hclear.append_right (hfits.spells.ne_nil rfl) gap
            · rw [← List.append_assoc]
              exact hfits'

/-! ### Sides -/

theorem read_of_readTerm {term : ColumnTerm} (hread : readTerm clause left = .ok term) :
    ColumnTerm.read clause left = .ok term := by
  unfold readTerm at hread
  rw [bind_eq_ok] at hread
  obtain ⟨column, hcolumn, hread⟩ := hread
  dsimp only at hread
  split at hread
  · exact absurd hread (by simp)
  · split at hread
    · exact absurd hread (by simp)
    · obtain rfl := Except.ok.inj hread
      exact hcolumn

theorem ne_nil_of_readTerm {term : ColumnTerm} (hread : readTerm clause left = .ok term) :
    left.text ≠ [] := by
  intro hnil
  have hread := read_of_readTerm hread
  unfold ColumnTerm.read Fragment.trim at hread
  rw [hnil] at hread
  exact absurd hread (by simp [show Text.call? (Text.trim []) = none from rfl,
    show ColumnTerm.ofName? (Text.trim []) = none from rfl])

theorem ne_nil_of_readOperand {operand : Operand} (hread : Operand.read clause right = .ok operand) :
    right.text ≠ [] := by
  intro hnil
  unfold Operand.read Fragment.trim at hread
  rw [hnil] at hread
  exact absurd hread (by simp [show Text.trim [] = [] from rfl])

/-- Behind an operator other than `BETWEEN` stands no mark. -/
theorem isUnmarked_of_readOperands {condition read : Condition}
    (hoperator : condition.operator ≠ .between)
    (hread : readOperands clause body right condition = .ok read) : right.text.IsUnmarked := by
  unfold readOperands at hread
  split at hread
  · split at hread
    · rename_i hblank
      exact Text.isUnmarked_blanks (List.all_eq_true.mp hblank)
    · exact absurd hread (by simp)
  · split at hread
    · rename_i hblank
      exact Text.isUnmarked_blanks (List.all_eq_true.mp hblank)
    · exact absurd hread (by simp)
  · rename_i hbetween
    exact absurd hbetween hoperator
  · split at hread
    · exact absurd hread (by simp)
    · rename_i inner hinside
      split at hread
      · exact absurd hread (by simp)
      · rw [bind_eq_ok] at hread
        obtain ⟨values, hvalues, -⟩ := hread
        have hitems : ∀ item ∈ inner.splitList, item.text.IsClosed := by
          intro item hmem
          obtain ⟨value, -, hvalue⟩ := exists_of_forall₂ (forall₂_of_mapM hvalues) item hmem
          exact (Operand.isUnmarked_of_read hvalue).isClosed
        apply Text.IsUnmarked.of_trim
        rw [Fragment.trim_of_inside? hinside]
        exact (Fragment.isClosed_of_splitList hitems).group
  · rw [bind_eq_ok] at hread
    obtain ⟨value, hvalue, -⟩ := hread
    exact Operand.isUnmarked_of_read hvalue

/-- Behind `BETWEEN` stand two bounds with an `AND` between them. -/
theorem exists_of_readBounds {condition read : Condition} (hoperator : condition.operator = .between)
    (hread : readOperands clause body right condition = .ok read) :
    ∃ low link high, right.text = low ++ (link ++ high) ∧ low.IsUnmarked ∧ high.IsUnmarked ∧
      low ≠ [] ∧ high ≠ [] ∧ Keyword.and_.Fits low.getLast? link high := by
  unfold readOperands at hread
  rw [hoperator] at hread
  dsimp only at hread
  split at hread
  · exact absurd hread (by simp)
  · rename_i split hsplit
    simp only [bind_eq_ok] at hread
    obtain ⟨low, hlow, high, hhigh, -⟩ := hread
    obtain ⟨htext, keyword, hmem, hfits⟩ := Fragment.exists_of_splitFirst? hsplit
    obtain ⟨rfl, -⟩ := Prod.mk.inj (List.mem_singleton.mp hmem)
    exact ⟨split.before.text, split.mark.text, split.after.text, htext,
      Operand.isUnmarked_of_read hlow, Operand.isUnmarked_of_read hhigh, ne_nil_of_readOperand hlow,
      ne_nil_of_readOperand hhigh, hfits⟩

/-- The text of a condition settles the marks that it brings. -/
theorem isSettled_of_read {condition : Condition} (hread : read clause fragment = .ok condition) :
    fragment.text.IsSettled := by
  have hbare : ∀ entry ∈ operatorKeywords, entry.1.isBare = true := by decide
  have hunmarked : ∀ entry ∈ operatorKeywords, entry.2 ≠ .operator .between →
      entry.1.isUnmarked = true := by decide +kernel
  have hplain : ∀ entry ∈ operatorKeywords, entry.1.isPlain = true := by decide
  have hbetween : ∀ entry ∈ operatorKeywords, entry.2 = .operator .between →
      entry.1 = .between := by decide
  unfold read strip at hread
  split at hread
  next body negated hstrip =>
    split at hread
    · exact absurd hread (by simp)
    · rw [bind_eq_ok] at hread
      obtain ⟨split, hsplit, hread⟩ := hread
      rw [bind_eq_ok] at hread
      obtain ⟨term, hterm, hread⟩ := hread
      apply isSettled_of_stripWithin hstrip
      obtain ⟨not, mark, keyword, htext, hnot, hclear, hmem, hfits⟩ := exists_of_splitOperator hsplit
      obtain ⟨hbefore, hbehind⟩ := hfits.clear (hbare _ hmem)
      have hfront : (split.left.text ++ not).IsUnmarked :=
        (ColumnTerm.isUnmarked_of_read (read_of_readTerm hterm)).append hnot hclear
      rw [htext]
      by_cases hoperator : split.operator = .between
      · obtain ⟨low, link, high, hright, hlow, hhigh, hlowNe, hhighNe, hlink⟩ :=
          exists_of_readBounds hoperator hread
        obtain rfl := hbetween _ hmem (by rw [hoperator])
        rw [hright] at hfits ⊢
        have hmark := (Keyword.fits_append_iff hlowNe _).mp hfits
        exact .between hfront hlow hhigh (by simp [ne_nil_of_readTerm hterm]) hlowNe hhighNe hmark
          hlink
      · have hmark := Keyword.isUnmarked_of_spells (hbare _ hmem)
          (hunmarked _ hmem (by simpa using hoperator)) hfits.spells
        have hright := isUnmarked_of_readOperands hoperator hread
        have hne : mark ≠ [] := hfits.spells.ne_nil (hplain _ hmem)
        exact .unmarked (hfront.append (hmark.append hright hbehind) (hbefore.append_right hne _))

end Condition

end SelectForm

import Mathlib
import SelectForm.Proofs.Text.Number
import SelectForm.Proofs.Statement.ClosedRow

/-!
# Rows without a mark of a chain

The marks of a chain are the words `BETWEEN`, `AND` and `OR`, alone and outside
parentheses.  A row without any of them may stand in a chain, whatever is around it: it is
passed over, and the marks behind it are found as if it were not there.
-/

namespace SelectForm

namespace Lexeme

variable {row first second inner : List Lexeme} {text : Text}

/-- No word of a chain stands alone in a row and outside its parentheses. -/
def Free (row : List Lexeme) : Prop :=
  ∀ (front : List Lexeme) (text : Text) (back : List Lexeme), row = front ++ (marks text ++ back) →
    text.map Char.toUpper ∈ ChainMark.stops → nestingOf front = 0 →
      (lastOf none front).any Text.isWordChar = true ∨
        (textOf back).head?.any Text.isWordChar = true

/-- A closed row without a mark of a chain. -/
structure Unmarked (row : List Lexeme) : Prop extends Closed row where
  free : Free row

theorem isAlpha_of_chainWord (hword : text.map Char.toUpper ∈ ChainMark.stops) :
    text ≠ [] ∧ ∀ c ∈ text, c.isAlpha = true := by
  have hall : ∀ word ∈ ChainMark.stops, word ≠ [] ∧ word.all Char.isUpper = true := by
    decide +kernel
  obtain ⟨hne, hupper⟩ := hall _ hword
  refine ⟨fun hnil => hne (by rw [hnil]; rfl), fun c hc => ?_⟩
  rw [← Char.isUpper_toUpper_eq_isAlpha]
  exact List.all_eq_true.mp hupper _ (List.mem_map_of_mem hc)

/-! ## Pieces -/

/-- Without the first letters of the words there are no words. -/
theorem free_of_initials
    (hinitial : ∀ c, mark c ∈ row → c.toUpper ∉ ['B', 'A', 'O']) : Free row := by
  rintro front text back rfl hword -
  have hall : ∀ word ∈ ChainMark.stops, ∃ c ∈ ['B', 'A', 'O'], word.head? = some c := by
    simp [ChainMark.stops]
  obtain ⟨c, hc, hhead⟩ := hall _ hword
  cases text with
  | nil => simp at hhead
  | cons d text =>
      obtain rfl : d.toUpper = c := Option.some.inj hhead
      exact absurd hc (hinitial d (by simp [marks]))

theorem mem_of_mark_mem {c : Char} (hmem : mark c ∈ marks text) : c ∈ text := by
  obtain ⟨d, hd, heq⟩ := List.mem_map.mp hmem
  injection heq with heq
  exact heq ▸ hd

theorem unmarked_nil : Unmarked [] :=
  ⟨closed_nil, free_of_initials fun _ hmem => absurd hmem List.not_mem_nil⟩

theorem unmarked_literal (quote : Quote) (content : Text) : Unmarked [literal quote content] := by
  refine ⟨closed_literal quote content, free_of_initials fun c hmem => ?_⟩
  exact absurd (List.mem_singleton.mp hmem) (by simp)

theorem unmarked_marks (htame : ∀ c ∈ text, isTame c = true)
    (hinitial : ∀ c ∈ text, c.toUpper ∉ ['B', 'A', 'O']) : Unmarked (marks text) :=
  ⟨closed_marks htame, free_of_initials fun c hmem => hinitial c (mem_of_mark_mem hmem)⟩

/-- A letter other than the first letters of the words, or no letter at all. -/
theorem not_initial_of_not_isAlpha {c : Char} (hletter : c.isAlpha = false) :
    c.toUpper ∉ ['B', 'A', 'O'] := by
  intro hmem
  have hall : ['B', 'A', 'O'].all Char.isUpper = true := rfl
  have hupper := List.all_eq_true.mp hall _ hmem
  rw [Char.isUpper_toUpper_eq_isAlpha, hletter] at hupper
  contradiction

theorem isAlpha_of_isBlank {c : Char} (hblank : Text.isBlank c = true) : c.isAlpha = false := by
  have hbreak := isBreak_of_isBlank hblank
  unfold isBreak at hbreak
  simp only [Bool.and_eq_true, Bool.not_eq_true'] at hbreak
  exact hbreak.1

theorem unmarked_blanks (hblank : ∀ c ∈ text, Text.isBlank c = true) : Unmarked (marks text) :=
  unmarked_marks (fun c hc => isTame_of_isBlank (hblank c hc))
    fun c hc => not_initial_of_not_isAlpha (isAlpha_of_isBlank (hblank c hc))

/-- Characters of one word, which is none of the words of a chain. -/
theorem free_word (hword : ∀ c ∈ text, Text.isWordChar c = true)
    (hne : text.map Char.toUpper ∉ ChainMark.stops) : Free (marks text) := by
  intro front word back hrow hupper _
  obtain ⟨before, behind, rfl, rfl, hbehind⟩ := List.map_eq_append_iff.mp hrow
  obtain ⟨other, after, rfl, hother, rfl⟩ := List.map_eq_append_iff.mp hbehind
  obtain rfl : other = word := (Function.Injective.list_map (fun _ _ => mark.inj)) hother
  rw [lastOf_eq, ← marks, ← marks, textOf_marks, textOf_marks, Option.or_none]
  by_cases hbefore : before = []
  · by_cases hafter : after = []
    · subst hbefore hafter
      rw [List.nil_append, List.append_nil] at hne
      exact absurd hupper hne
    · right
      rw [List.head?_eq_some_head hafter]
      exact hword _ (by simp)
  · left
    rw [List.getLast?_eq_some_getLast hbefore]
    exact hword _ (by simp)

/-! ## Rows put together -/

/-- A word of a chain that begins in the first of two rows ends in it. -/
theorem cases_of_chainWord {front back : List Lexeme} {word : Text}
    (hclear : Clear (textOf first) (textOf second)) (hword : word.map Char.toUpper ∈ ChainMark.stops)
    (hrow : first ++ second = front ++ (marks word ++ back)) :
    (∃ gap, front = first ++ gap ∧ second = gap ++ (marks word ++ back)) ∨
      ∃ gap, first = front ++ (marks word ++ gap) ∧ back = gap ++ second := by
  obtain ⟨gap, hfront, hgap⟩ | ⟨gap, hgap, hback⟩ := List.append_eq_append_iff.mp hrow
  · exact .inl ⟨gap, hfront, hgap⟩
  · obtain ⟨other, hother, hback'⟩ | ⟨other, hother, hsecond'⟩ :=
      List.append_eq_append_iff.mp hback
    · exact .inr ⟨other, by rw [hgap, hother], hback'⟩
    · obtain ⟨before, after, rfl, rfl, rfl⟩ := List.map_eq_append_iff.mp hother
      obtain ⟨-, halpha⟩ := isAlpha_of_chainWord hword
      by_cases hbefore : before = []
      · subst hbefore
        exact .inl ⟨[], by simpa using hgap.symm, by simpa [marks] using hsecond'⟩
      · by_cases hafter : after = []
        · subst hafter
          exact .inr ⟨[], by simpa [marks] using hgap, by simpa using hsecond'.symm⟩
        · -- A word that reaches from one row into the other.
          exfalso
          have hlast : (textOf first).getLast? = some (before.getLast hbefore) := by
            rw [hgap, ← marks, textOf_append, textOf_marks,
              List.getLast?_append_of_ne_nil _ hbefore, List.getLast?_eq_some_getLast hbefore]
          have hhead : (textOf second).head? = some (after.head hafter) := by
            rw [hsecond', ← marks, textOf_append, textOf_marks, List.head?_append_of_ne_nil _ hafter,
              List.head?_eq_some_head hafter]
          have hmerges := hclear _ hlast _ hhead
          unfold merges at hmerges
          rw [halpha _ (by simp), halpha _ (by simp)] at hmerges
          simp at hmerges

theorem Free.append (hfirst : Free first) (hsecond : Free second)
    (hnesting : nestingOf first = 0) (hclear : Clear (textOf first) (textOf second)) :
    Free (first ++ second) := by
  intro front word back hrow hword hdepth
  obtain ⟨gap, rfl, hgap⟩ | ⟨gap, hgap, rfl⟩ := cases_of_chainWord hclear hword hrow
  · rw [nestingOf_append, hnesting, zero_add] at hdepth
    refine (hsecond gap word back hgap hword hdepth).imp_left fun hlast => ?_
    rw [lastOf_eq, Option.or_none] at hlast ⊢
    cases hcases : (textOf gap).getLast? with
    | none => simp [hcases] at hlast
    | some c =>
        rw [hcases] at hlast
        rwa [textOf_append, List.getLast?_append, hcases]
  · refine (hfirst front word gap hgap hword hdepth).imp_right fun hhead => ?_
    cases hcases : (textOf gap).head? with
    | none => simp [hcases] at hhead
    | some c =>
        rw [hcases] at hhead
        rwa [textOf_append, List.head?_append, hcases]

theorem Unmarked.append (hfirst : Unmarked first) (hsecond : Unmarked second)
    (hclear : Clear (textOf first) (textOf second)) : Unmarked (first ++ second) :=
  ⟨hfirst.toClosed.append hsecond.toClosed hclear,
    hfirst.free.append hsecond.free hfirst.nestingOf_eq hclear⟩

/-- In parentheses no word counts. -/
theorem Closed.unmarked_group (hclosed : Closed inner) :
    Unmarked (mark '(' :: (inner ++ [mark ')'])) := by
  refine ⟨hclosed.group, ?_⟩
  intro front word back hrow hword hdepth
  obtain ⟨hne, halpha⟩ := isAlpha_of_chainWord hword
  exfalso
  cases front with
  | nil =>
      obtain ⟨c, word, rfl⟩ := List.exists_cons_of_ne_nil hne
      injection (List.cons.inj hrow).1 with hc
      have hletter := halpha c List.mem_cons_self
      rw [← hc] at hletter
      exact absurd hletter (by decide)
  | cons lexeme front =>
      obtain ⟨rfl, hinner⟩ := List.cons.inj hrow
      -- A word that begins in the inside: the group is open in front of it.
      have hopen : ∀ gap, inner = front ++ gap → False := by
        rintro gap rfl
        have hbalance := hclosed.balanced
        rw [balance_append, Option.bind_eq_some_iff] at hbalance
        obtain ⟨behind, hfront, -⟩ := hbalance
        have hnesting := nestingOf_of_balance hfront
        rw [nestingOf_cons, show (mark '(').nesting = 1 from rfl] at hdepth
        omega
      obtain ⟨gap, rfl, hgap⟩ | ⟨gap, hgap, -⟩ := List.append_eq_append_iff.mp hinner
      · obtain ⟨c, word, rfl⟩ := List.exists_cons_of_ne_nil hne
        have hmem : mark c ∈ [mark ')'] := by
          rw [hgap]
          simp [marks]
        injection List.mem_singleton.mp hmem with hc
        have hletter := halpha c List.mem_cons_self
        rw [hc] at hletter
        exact absurd hletter (by decide)
      · exact hopen gap hgap

end Lexeme

end SelectForm

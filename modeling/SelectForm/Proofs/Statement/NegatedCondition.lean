import Mathlib
import SelectForm.Proofs.Statement.StrippedCondition

/-!
# Negations are counted

Parentheses around a condition change nothing, and each `NOT` in front of it turns it around.  So
of any stack of parentheses and `NOT`s only the parity of the `NOT`s is left.
-/

namespace SelectForm

open Lexeme

/-! ## What can be put around a condition -/

/-- Parentheses with blanks inside them, or a `NOT` with blanks behind it. -/
inductive Wrapper
  | group (front back : Text)
  | negation (letters gap : Text)
deriving DecidableEq, Repr

namespace Wrapper

/-- A text with parentheses around it or `NOT` in front of it. -/
def around : Wrapper → Text → Text
  | group front back, text => '(' :: (front ++ (text ++ (back ++ [')'])))
  | negation letters gap, text => letters ++ (gap ++ text)

def isNegation : Wrapper → Bool
  | group _ _ => false
  | negation _ _ => true

/-- The letters are `NOT` in any case, and only in front of a parenthesis there may be no blank. -/
def Fits : Wrapper → Text → Prop
  | group front back, _ =>
    (∀ c ∈ front, Text.isAsciiBlank c = true) ∧ ∀ c ∈ back, Text.isAsciiBlank c = true
  | negation letters gap, text =>
    letters.map Char.toUpper = "NOT".toList ∧ (∀ c ∈ gap, Text.isAsciiBlank c = true) ∧
      (gap = [] → text.head? = some '(')

/-- A text with a stack of wrappers around it; the first is the outermost. -/
def aroundAll (wrappers : List Wrapper) (text : Text) : Text := wrappers.foldr around text

/-- Every wrapper fits around what is inside it. -/
def FitAll : List Wrapper → Text → Prop
  | [], _ => True
  | wrapper :: wrappers, text => wrapper.Fits (aroundAll wrappers text) ∧ FitAll wrappers text

end Wrapper

/-! ## One wrapper -/

namespace Fragment

theorem trim_pad {front text back : Text} (hfront : ∀ c ∈ front, Text.isBlank c = true)
    (hback : ∀ c ∈ back, Text.isBlank c = true) (hne : Text.trim text ≠ []) (start : Nat) :
    (mk (front ++ (text ++ back)) start).trim = (mk text (start + Text.size front)).trim := by
  obtain ⟨front', back', htext, hfront', hback'⟩ := Text.exists_trim text
  have htight := Text.tight_trim hne
  generalize Text.trim text = core at htext htight
  subst htext
  have hinner := @trim_padded front' core back' hfront' hback' htight (start + Text.size front)
  have houter := @trim_padded (front ++ front') core (back' ++ back)
    (List.forall_mem_append.mpr ⟨hfront, hfront'⟩) (List.forall_mem_append.mpr ⟨hback', hback⟩)
    htight start
  simp only [List.append_assoc, Text.size_append] at hinner houter ⊢
  rw [hinner, houter, Nat.add_assoc]

theorem tight_group (inner : Text) : Text.Tight ('(' :: (inner ++ [')'])) :=
  ⟨⟨'(', rfl, rfl⟩, ⟨')', by simp [List.getLast?_cons], rfl⟩⟩

theorem inside?_of_isClosed {inner : Text} (hinner : inner.IsClosed) (start : Nat) :
    (mk ('(' :: (inner ++ [')'])) start).inside? = some ⟨inner, start + 1⟩ := by
  obtain ⟨row, hrow, rfl⟩ := hinner
  have hfound := hrow.sound.group.inside?_textOf start
  rw [hrow.inside?_group, textOf_cons, textOf_append] at hfound
  obtain ⟨found, hinside, htext⟩ := Option.map_eq_some_iff.mp hfound
  change (mk ('(' :: (textOf row ++ [')'])) start).inside? = some found at hinside
  have hstart := start_of_inside? hinside
  rw [trim_of_tight (tight_group _)] at hstart
  obtain ⟨foundText, foundStart⟩ := found
  simp only at htext hstart
  rw [hinside, htext, hstart]

end Fragment

namespace Condition

variable {clause : Clause} {text front back letters gap : Text}

theorem strip_group (hfront : ∀ c ∈ front, Text.isAsciiBlank c = true)
    (hback : ∀ c ∈ back, Text.isAsciiBlank c = true) (hclosed : text.IsClosed)
    (hne : Text.trim text ≠ []) (start : Nat) :
    strip ⟨Wrapper.around (.group front back) text, start⟩ =
      strip ⟨text, start + 1 + Text.size front⟩ := by
  have hblank : ∀ c ∈ front, Text.isBlank c = true :=
    fun c hc => Text.isBlank_of_isAsciiBlank (hfront c hc)
  have hblank' : ∀ c ∈ back, Text.isBlank c = true :=
    fun c hc => Text.isBlank_of_isAsciiBlank (hback c hc)
  have hpad := @Fragment.trim_pad front text back hblank hblank' hne (start + 1)
  have hgroup : Wrapper.around (.group front back) text =
      '(' :: (front ++ (text ++ back) ++ [')']) := by simp [Wrapper.around]
  rw [hgroup, strip, List.length_cons, stripWithin, Fragment.trim_of_tight (Fragment.tight_group _),
    Fragment.inside?_of_isClosed (hclosed.pad hblank hblank')]
  dsimp only
  rw [← stripWithin_trim, hpad, stripWithin_trim, strip_eq]
  simp only [List.length_append]
  omega

theorem isAlpha_of_not (hletters : letters.map Char.toUpper = "NOT".toList) :
    letters ≠ [] ∧ ∀ c ∈ letters, c.isAlpha = true := by
  refine ⟨fun hnil => by simp [hnil] at hletters, ?_⟩
  exact Keyword.isAlpha_of_map_toUpper (by simp) hletters

/-- `NOT` is found in front of a row. -/
theorem length?_not {row : List Lexeme} (hletters : letters.map Char.toUpper = "NOT".toList)
    (hsound : Sound row) (hhead : (textOf row).head?.any Text.isWordChar = false) :
    Keyword.not_.length? none (letters ++ textOf row).cells = some letters.length := by
  obtain ⟨-, halpha⟩ := isAlpha_of_not hletters
  have hclear : Clear letters (textOf row) :=
    Keyword.clear_letters_left (fun c hc => .inl (halpha c hc)) hhead
  have hclosed : Closed (marks letters) := closed_marks fun c hc => isTame_of_test rfl (halpha c hc)
  have hwhole : Sound (marks letters ++ row) := hclosed.sound.append hsound (by rwa [textOf_marks])
  have hfits : Keyword.not_.Fits none letters (textOf row) :=
    ⟨(Keyword.spells_iff_of_word rfl).mpr hletters, fun _ _ => ⟨rfl, hhead⟩⟩
  have htext : letters ++ textOf row = textOf (marks letters ++ row) := by
    rw [textOf_append, textOf_marks]
  rw [htext, hwhole.cells_textOf, Keyword.length?_cellsOf_row true rfl hwhole.atomic,
    hfits.rest?_eq rfl, Option.map_some, ← htext, List.length_append, Nat.add_sub_cancel]

/-- A `NOT` at the front is taken off. -/
theorem strip_not {row : List Lexeme} (hletters : letters.map Char.toUpper = "NOT".toList)
    (hsound : Sound row) (hhead : (textOf row).head?.any Text.isWordChar = false)
    (htight : Text.Tight (letters ++ textOf row)) (start : Nat) :
    strip ⟨letters ++ textOf row, start⟩ =
      ((strip ⟨textOf row, start + Text.size letters⟩).1,
        !(strip ⟨textOf row, start + Text.size letters⟩).2) := by
  obtain ⟨hne, halpha⟩ := isAlpha_of_not hletters
  have hinside : (Fragment.mk (letters ++ textOf row) start).inside? = none := by
    cases hfound : (Fragment.mk (letters ++ textOf row) start).inside? with
    | none => rfl
    | some inner =>
        -- A group begins with its parenthesis, and a parenthesis is no letter.
        have hopen := Fragment.trim_of_inside? hfound
        obtain ⟨c, letters, rfl⟩ := List.exists_cons_of_ne_nil hne
        rw [htight.trim_eq, List.cons_append] at hopen
        have hc := halpha c List.mem_cons_self
        rw [(List.cons.inj hopen).1] at hc
        exact absurd hc (by decide)
  have hdrop : Fragment.drop letters.length ⟨letters ++ textOf row, start⟩ =
      ⟨textOf row, start + Text.size letters⟩ := by
    rw [Fragment.drop, List.drop_left, List.take_left]
  obtain ⟨count, hcount⟩ := Nat.exists_eq_add_one_of_ne_zero (mt List.length_eq_zero_iff.mp hne)
  have hlength : (letters ++ textOf row).length = count + (textOf row).length + 1 := by
    rw [List.length_append, hcount]
    omega
  have hcount := length?_not hletters hsound hhead
  rw [strip, hlength, stripWithin, Fragment.trim_of_tight htight, hinside]
  dsimp only
  rw [hcount]
  dsimp only
  rw [hdrop, stripWithin_not, strip_eq]
  exact Nat.le_add_left _ _

theorem strip_negation (hletters : letters.map Char.toUpper = "NOT".toList)
    (hgap : ∀ c ∈ gap, Text.isAsciiBlank c = true) (hhead : gap = [] → text.head? = some '(')
    (hclosed : text.IsClosed) (hne : Text.trim text ≠ []) (start : Nat) :
    strip ⟨Wrapper.around (.negation letters gap) text, start⟩ =
      ((strip ⟨text, start + Text.size letters + Text.size gap⟩).1,
        !(strip ⟨text, start + Text.size letters + Text.size gap⟩).2) := by
  have hblank : ∀ c ∈ gap, Text.isBlank c = true :=
    fun c hc => Text.isBlank_of_isAsciiBlank (hgap c hc)
  obtain ⟨hlettersNe, halpha⟩ := isAlpha_of_not hletters
  obtain ⟨row, hrow, htext⟩ := hclosed
  obtain ⟨front, back, hparts, hfront, hback⟩ := exists_trimmed row
  have hsound := hrow.sound.trimmed
  have htight := Text.tight_trim hne
  rw [← htext, hrow.sound.atomic.trim_textOf] at htight
  generalize trimmed row = core at hparts hsound htight
  subst hparts
  rw [textOf_append, textOf_append, textOf_marks, textOf_marks] at htext
  subst htext
  -- What is behind the `NOT`, without the blanks at the end.
  have hpads : ∀ c ∈ gap ++ front, Text.isBlank c = true :=
    List.forall_mem_append.mpr ⟨hblank, hfront⟩
  have hbehind : Sound (marks (gap ++ front) ++ core) :=
    (closed_blanks hpads).sound.append hsound (by
      rw [textOf_marks]
      exact clear_blanks_left _ hpads)
  have hbehindHead : (textOf (marks (gap ++ front) ++ core)).head?.any Text.isWordChar = false := by
    rw [textOf_append, textOf_marks]
    cases gap with
    | nil =>
        have hparenthesis := hhead rfl
        rw [List.head?_append_of_ne_nil _ (by simp [htight.ne_nil])] at hparenthesis
        rw [List.nil_append, hparenthesis]
        rfl
    | cons c gap => exact Text.not_isWordChar_of_isAsciiBlank (hgap c List.mem_cons_self)
  have hlettersTight : Text.Tight letters := Text.tight_of_forall hlettersNe fun c hc =>
    Text.isBlank_of_isNameTail (by simp [Text.isNameTail, Char.isAlphanum, halpha c hc])
  have hwholeTight := hlettersTight.append (gap ++ front) htight
  have htrim : (Fragment.mk (Wrapper.around (.negation letters gap) (front ++ textOf core ++ back))
      start).trim = ⟨letters ++ textOf (marks (gap ++ front) ++ core), start⟩ := by
    have hpadded := @Fragment.trim_padded [] _ back (List.forall_mem_nil _) hback hwholeTight start
    rw [textOf_append, textOf_marks]
    simpa [Wrapper.around] using hpadded
  have hinner :
      (Fragment.mk (textOf (marks (gap ++ front) ++ core)) (start + Text.size letters)).trim =
        (Fragment.mk (front ++ textOf core ++ back)
          (start + Text.size letters + Text.size gap)).trim := by
    have hleft := @Fragment.trim_padded (gap ++ front) _ [] hpads (List.forall_mem_nil _) htight
      (start + Text.size letters)
    rw [List.append_nil, Text.size_append, ← Nat.add_assoc] at hleft
    rw [textOf_append, textOf_marks, hleft, Fragment.trim_padded hfront hback htight]
  rw [← strip_trim, htrim, strip_not hletters hbehind hbehindHead ?_ start, ← strip_trim, hinner,
    strip_trim]
  rw [textOf_append, textOf_marks]
  exact hwholeTight

/-! ## Stacks of wrappers -/

/-- A condition in a wrapper is read as the condition, or as its negation. -/
theorem read_around {wrapper : Wrapper} {start : Nat} {condition : Condition}
    (hread : read clause ⟨text, start⟩ = .ok condition) (hfits : wrapper.Fits text) (start' : Nat) :
    read clause ⟨wrapper.around text, start'⟩ =
      .ok { condition with negated := condition.negated ^^ wrapper.isNegation } := by
  have hclosed := (isSettled_of_read hread).isClosed
  have hne := trim_ne_nil_of_read hread
  cases wrapper with
  | group front back =>
      obtain ⟨hfront, hback⟩ := hfits
      have hstrip := strip_group hfront hback hclosed hne start'
      have hsame : read clause ⟨Wrapper.around (.group front back) text, start'⟩ =
          read clause ⟨text, start' + 1 + Text.size front⟩ := by
        unfold read
        rw [hstrip]
      rw [hsame, read_start hread, Wrapper.isNegation, Bool.xor_false]
  | negation letters gap =>
      obtain ⟨hletters, hgap, hhead⟩ := hfits
      have hstrip := strip_negation hletters hgap hhead hclosed hne start'
      rw [read_of_strip_not hstrip, read_start hread, Wrapper.isNegation, Bool.xor_true]
      rfl

/-- Of a stack of parentheses and `NOT`s around a condition only the parity of the `NOT`s
counts. -/
theorem read_aroundAll {wrappers : List Wrapper} {start : Nat} {condition : Condition}
    (hread : read clause ⟨text, start⟩ = .ok condition) (hfits : Wrapper.FitAll wrappers text)
    (start' : Nat) :
    read clause ⟨Wrapper.aroundAll wrappers text, start'⟩ =
      .ok { condition with
        negated := condition.negated ^^ decide (Odd (wrappers.countP Wrapper.isNegation)) } := by
  induction wrappers generalizing start' with
  | nil => simpa [Wrapper.aroundAll] using read_start hread
  | cons wrapper wrappers ih =>
      obtain ⟨hwrapper, hwrappers⟩ := hfits
      have hinner := ih hwrappers start'
      rw [Wrapper.aroundAll, List.foldr_cons, ← Wrapper.aroundAll, read_around hinner hwrapper,
        List.countP_cons]
      cases wrapper.isNegation with
      | false => simp
      | true =>
          have hparity : decide (Odd (wrappers.countP Wrapper.isNegation + 1)) =
              !decide (Odd (wrappers.countP Wrapper.isNegation)) := by
            rw [← decide_not]
            exact decide_eq_decide.mpr Nat.odd_add_one
          rw [if_pos rfl, hparity, Bool.xor_true, Bool.xor_not]

/-- Three `NOT`s around a condition with a `NOT` of its own, one of them right before a group. -/
theorem read_aroundAll_three :
    Wrapper.FitAll
        [.negation "nOt".toList " ".toList, .negation "NOT".toList [],
          .group " ".toList "\n".toList, .negation "not".toList "\t".toList]
        "a NOT LIKE 'x'".toList ∧
      read .where_ ⟨"a NOT LIKE 'x'".toList, 0⟩ =
        .ok { term := { column := "a" }, operator := .like, value := some (.literal (.string "x")),
              negated := true } ∧
      read .where_ ⟨"nOt NOT( not\ta NOT LIKE 'x'\n)".toList, 7⟩ =
        .ok { term := { column := "a" }, operator := .like, value := some (.literal (.string "x")),
              negated := false } := by
  have hread : read .where_ ⟨"a NOT LIKE 'x'".toList, 0⟩ =
      .ok { term := { column := "a" }, operator := .like, value := some (.literal (.string "x")),
            negated := true } := by decide +kernel
  have hfits : Wrapper.FitAll
      [.negation "nOt".toList " ".toList, .negation "NOT".toList [],
        .group " ".toList "\n".toList, .negation "not".toList "\t".toList]
      "a NOT LIKE 'x'".toList := by
    simp [Wrapper.FitAll, Wrapper.Fits, Wrapper.aroundAll, Wrapper.around, Text.isAsciiBlank]
  exact ⟨hfits, hread, read_aroundAll hread hfits 7⟩

end Condition

end SelectForm

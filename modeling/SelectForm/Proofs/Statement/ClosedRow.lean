import Mathlib
import SelectForm.Proofs.Statement.SplitRow

/-!
# Rows that can stand in a chain

A condition can be put in parentheses, and between two connectors, because its row is
closed: nothing is left open at its end, neither a literal nor a group.  Closed rows stay
so when one is put behind the other, unless the two characters that meet are read
together.

A closed row is unmarked if no `BETWEEN`, `AND` or `OR` stands in it outside parentheses.
-/

namespace SelectForm

namespace Lexeme

variable {row first second third inner : List Lexeme} {text : Text} {next : Option Char}

/-! ## Characters that meet -/

/-- Two characters that are read together: letters of a word, the signs that open a comment,
or quotation marks. -/
def merges (a b : Char) : Bool :=
  (a.isAlpha && b.isAlpha) || (a == '-' && b == '-') || (a == '/' && b == '*') ||
    (a == b && (Quote.ofChar? a).isSome)

/-- Characters that are read together with no other. -/
def isBreak (c : Char) : Bool :=
  !c.isAlpha && !(['-', '/', '*', '\'', '"'].contains c)

theorem merges_of_isBreak_left {a : Char} (b : Char) (ha : isBreak a = true) :
    merges a b = false := by
  unfold isBreak at ha
  simp only [Bool.and_eq_true, Bool.not_eq_true', List.contains_eq_mem, decide_eq_false_iff_not,
    List.mem_cons, List.not_mem_nil, or_false, not_or] at ha
  simp [merges, Quote.ofChar?, ha]

theorem merges_of_isBreak_right (a : Char) {b : Char} (hb : isBreak b = true) :
    merges a b = false := by
  unfold isBreak at hb
  simp only [Bool.and_eq_true, Bool.not_eq_true', List.contains_eq_mem, decide_eq_false_iff_not,
    List.mem_cons, List.not_mem_nil, or_false, not_or] at hb
  unfold merges Quote.ofChar?
  by_cases hab : a = b
  · simp [hab, hb]
  · simp [hab, hb]

theorem ne_of_isWordChar {c d : Char} (hc : Text.isWordChar c = true)
    (hd : Text.isWordChar d = false) : c ≠ d := by
  rintro rfl
  rw [hc] at hd
  contradiction

/-- A character of a word is read together with letters only. -/
theorem merges_of_isWordChar_left {a b : Char} (ha : Text.isWordChar a = true)
    (hletter : a.isAlpha = false ∨ b.isAlpha = false) : merges a b = false := by
  have hquote : Quote.ofChar? a = none := (Text.plain_of_isWordChar ha).1
  unfold merges
  rcases hletter with hletter | hletter
  · simp [hletter, hquote, ne_of_isWordChar ha (show Text.isWordChar '-' = false from rfl),
      ne_of_isWordChar ha (show Text.isWordChar '/' = false from rfl)]
  · simp [hletter, hquote, ne_of_isWordChar ha (show Text.isWordChar '-' = false from rfl),
      ne_of_isWordChar ha (show Text.isWordChar '/' = false from rfl)]

theorem merges_of_isWordChar_right {a b : Char} (hb : Text.isWordChar b = true)
    (hletter : a.isAlpha = false ∨ b.isAlpha = false) : merges a b = false := by
  by_cases hab : a = b
  · subst hab
    exact merges_of_isWordChar_left hb hletter
  · have hne : b ≠ '-' ∧ b ≠ '*' := ⟨ne_of_isWordChar hb rfl, ne_of_isWordChar hb rfl⟩
    unfold merges
    rcases hletter with hletter | hletter
    · simp [hletter, hab, hne]
    · simp [hletter, hab, hne]

/-- Nothing is read that reaches from one text into the other. -/
def Clear (first second : Text) : Prop :=
  ∀ a ∈ first.getLast?, ∀ b ∈ second.head?, merges a b = false

theorem clear_of_isBreak_left {first : Text} (second : Text)
    (hlast : ∀ a ∈ first.getLast?, isBreak a = true) : Clear first second :=
  fun a ha b _ => merges_of_isBreak_left b (hlast a ha)

theorem clear_of_isBreak_right (first : Text) {second : Text}
    (hhead : ∀ b ∈ second.head?, isBreak b = true) : Clear first second :=
  fun a _ _ hb => merges_of_isBreak_right a (hhead _ hb)

theorem Clear.append_right {first second : Text} (hclear : Clear first second) (hne : second ≠ [])
    (rest : Text) : Clear first (second ++ rest) := by
  intro a ha b hb
  rw [List.head?_append_of_ne_nil _ hne] at hb
  exact hclear a ha b hb

theorem Clear.append_left {first second : Text} (hclear : Clear first second) (hne : first ≠ [])
    (front : Text) : Clear (front ++ first) second := by
  intro a ha b hb
  rw [List.getLast?_append_of_ne_nil _ hne] at ha
  exact hclear a ha b hb

/-! ## Sound rows -/

/-- A piece is read before a character with which its last one is not read together. -/
theorem EndsBefore.of_merges {lexeme : Lexeme} {b : Char} (hatom : lexeme.IsAtom)
    (hmerges : ∀ a ∈ lexeme.text.getLast?, merges a b = false) :
    lexeme.EndsBefore (some b) := by
  cases lexeme with
  | mark c =>
      have hc := hmerges c rfl
      constructor
      · rintro ⟨rfl, hb⟩
        obtain rfl := Option.some.inj hb
        exact absurd hc (by decide)
      · rintro ⟨rfl, hb⟩
        obtain rfl := Option.some.inj hb
        exact absurd hc (by decide)
  | literal quote content =>
      have hlast := hmerges quote.char (List.getLast?_concat ..)
      intro hb
      obtain rfl := Option.some.inj hb
      cases quote
      · exact absurd hlast (by decide)
      · exact absurd hlast (by decide)
  | word _ | lineComment _ | blockComment _ => exact hatom.elim

theorem Sound.append (hfirst : Sound first) (hsecond : Sound second)
    (hclear : Clear (textOf first) (textOf second)) : Sound (first ++ second) := by
  refine ⟨Fine.append_iff.mpr ⟨?_, hsecond.fine⟩, atomic_append.mpr ⟨hfirst.atomic, hsecond.atomic⟩⟩
  rw [Option.or_none]
  cases hhead : (textOf second).head? with
  | none => exact hfirst.fine
  | some b =>
      have hlast : ∀ a ∈ (textOf first).getLast?, merges a b = false :=
        fun a ha => hclear a ha b hhead
      clear hclear
      induction first with
      | nil => trivial
      | cons lexeme first ih =>
          obtain ⟨hfine, hends, hrest⟩ := hfirst.fine
          obtain ⟨hatom, hatomic⟩ := atomic_cons.mp hfirst.atomic
          rw [textOf_cons] at hlast
          by_cases hnil : first = []
          · subst hnil
            rw [textOf_nil, List.append_nil] at hlast
            exact ⟨hfine, .of_merges hatom hlast, trivial⟩
          · have hne := mt hatomic.textOf_eq_nil_iff.mp hnil
            rw [List.getLast?_append_of_ne_nil _ hne] at hlast
            rw [List.head?_eq_some_head hne] at hends
            refine ⟨hfine, ?_, ih ⟨hrest, hatomic⟩ hlast⟩
            rw [List.head?_eq_some_head hne]
            exact hends

/-! ## Closed rows -/

/-- A row that is how its text is read and has the parentheses that it opens. -/
structure Closed (row : List Lexeme) : Prop where
  sound : Sound row
  balanced : balance 0 row = some 0

theorem closed_nil : Closed [] := ⟨sound_nil, rfl⟩

theorem Closed.append (hfirst : Closed first) (hsecond : Closed second)
    (hclear : Clear (textOf first) (textOf second)) : Closed (first ++ second) := by
  refine ⟨hfirst.sound.append hsecond.sound hclear, ?_⟩
  rw [balance_append, hfirst.balanced]
  exact hsecond.balanced

theorem Closed.nestingOf_eq (hclosed : Closed row) : nestingOf row = 0 := by
  have hnesting := nestingOf_of_balance hclosed.balanced
  omega

/-- A character of code that opens and closes nothing. -/
def isTame (c : Char) : Bool := !(['\'', '"', '-', '/', '(', ')'].contains c)

theorem isTame_iff {c : Char} :
    isTame c = true ↔ Quote.ofChar? c = none ∧ c ≠ '-' ∧ c ≠ '/' ∧ c ≠ '(' ∧ c ≠ ')' := by
  unfold isTame Quote.ofChar?
  by_cases hsingle : c = '\''
  · simp [hsingle]
  · by_cases hdouble : c = '"'
    · simp [hdouble]
    · simp [hsingle, hdouble]

theorem closed_marks (htame : ∀ c ∈ text, isTame c = true) : Closed (marks text) := by
  induction text with
  | nil => exact closed_nil
  | cons c text ih =>
      obtain ⟨hc, htext⟩ := List.forall_mem_cons.mp htame
      obtain ⟨hquote, hminus, hslash, hopen, hclose⟩ := isTame_iff.mp hc
      have hrest := ih htext
      refine ⟨⟨⟨hquote, ⟨?_, ?_⟩, hrest.sound.fine⟩, atomic_marks (c :: text)⟩, ?_⟩
      · exact fun h => hminus h.1
      · exact fun h => hslash h.1
      · have hbalance := hrest.balanced
        simpa [marks, balance, openedBy, hopen, hclose] using hbalance

theorem closed_minus : Closed [mark '-'] := by
  refine ⟨⟨⟨rfl, ⟨?_, ?_⟩, trivial⟩, atomic_marks ['-']⟩, rfl⟩
  · simp
  · simp

theorem closed_literal (quote : Quote) (content : Text) : Closed [literal quote content] := by
  refine ⟨⟨⟨trivial, ?_, trivial⟩, List.forall_mem_singleton.mpr trivial⟩, rfl⟩
  simp [EndsBefore]

/-- A character that passes a test which no quotation mark, sign or parenthesis passes. -/
theorem isTame_of_test {test : Char → Bool} {c : Char}
    (hall : ['\'', '"', '-', '/', '(', ')'].all (!test ·) = true) (hc : test c = true) :
    isTame c = true := by
  by_contra htame
  simp only [isTame, Bool.not_eq_true, Bool.not_eq_false', List.contains_eq_mem, decide_eq_true_eq]
    at htame
  have hnot := List.all_eq_true.mp hall c htame
  rw [hc] at hnot
  contradiction

theorem isTame_of_isBlank {c : Char} (hblank : Text.isBlank c = true) : isTame c = true :=
  isTame_of_test rfl hblank

theorem isBreak_of_isBlank {c : Char} (hblank : Text.isBlank c = true) : isBreak c = true := by
  have hletter : c.isAlpha = false := by
    by_contra hletter
    rw [Text.isBlank_of_isNameTail (by simp [Text.isNameTail, Char.isAlphanum, hletter])] at hblank
    contradiction
  by_contra hbreak
  simp only [isBreak, hletter, Bool.not_false, Bool.true_and, Bool.not_eq_true, Bool.not_eq_false',
    List.contains_eq_mem, decide_eq_true_eq] at hbreak
  have hall : ['-', '/', '*', '\'', '"'].all (!Text.isBlank ·) = true := rfl
  have hc := List.all_eq_true.mp hall c hbreak
  rw [hblank] at hc
  contradiction

theorem clear_blanks_left (second : Text) (hblank : ∀ c ∈ text, Text.isBlank c = true) :
    Clear text second :=
  clear_of_isBreak_left second fun a ha => isBreak_of_isBlank (hblank a (List.mem_of_getLast? ha))

theorem clear_blanks_right (first : Text) (hblank : ∀ c ∈ text, Text.isBlank c = true) :
    Clear first text :=
  clear_of_isBreak_right first fun b hb => isBreak_of_isBlank (hblank b (List.mem_of_head? hb))

/-- Blanks may stand in front of a character that is read together with no other. -/
theorem clear_gap (first : Text) {gap second : Text} (hgap : ∀ c ∈ gap, Text.isBlank c = true)
    (hhead : ∀ b ∈ second.head?, isBreak b = true) : Clear first (gap ++ second) := by
  apply clear_of_isBreak_right
  cases gap with
  | nil => exact hhead
  | cons c gap =>
      intro b hb
      obtain rfl : c = b := Option.some.inj hb
      exact isBreak_of_isBlank (hgap c List.mem_cons_self)

theorem closed_blanks (hblank : ∀ c ∈ text, Text.isBlank c = true) : Closed (marks text) :=
  closed_marks fun c hc => isTame_of_isBlank (hblank c hc)

/-! ### Groups -/

theorem sound_parenthesis {c : Char} (hc : c = '(' ∨ c = ')') : Sound [mark c] := by
  rcases hc with rfl | rfl
  · exact ⟨⟨rfl, ⟨by simp, by simp⟩, trivial⟩, atomic_marks ['(']⟩
  · exact ⟨⟨rfl, ⟨by simp, by simp⟩, trivial⟩, atomic_marks [')']⟩

theorem Sound.group (hsound : Sound inner) : Sound (mark '(' :: (inner ++ [mark ')'])) := by
  have hopen : Clear (textOf [mark '(']) (textOf (inner ++ [mark ')'])) :=
    clear_of_isBreak_left _ (by simp [text, isBreak])
  have hclose : Clear (textOf inner) (textOf [mark ')']) :=
    clear_of_isBreak_right _ (by simp [text, isBreak])
  exact (sound_parenthesis (.inl rfl)).append
    (hsound.append (sound_parenthesis (.inr rfl)) hclose) hopen

theorem Closed.group (hclosed : Closed inner) : Closed (mark '(' :: (inner ++ [mark ')'])) := by
  refine ⟨hclosed.sound.group, ?_⟩
  have hinner := balance_add 1 hclosed.balanced
  rw [balance, show openedBy 0 (mark '(') = some 1 from rfl, Option.bind_some, balance_append]
  rw [show balance 1 inner = some 1 from hinner]
  rfl

/-- The search for the end of a group passes over balanced pieces. -/
theorem closing?_append {depth behind : Nat} (hbalance : balance depth first = some behind) :
    closing? depth (first ++ second) = (closing? behind second).map (first ++ ·) := by
  induction first generalizing depth with
  | nil =>
      obtain rfl := Option.some.inj hbalance
      simp
  | cons lexeme first ih =>
      rw [balance, Option.bind_eq_some_iff] at hbalance
      obtain ⟨middle, hopened, hrest⟩ := hbalance
      have htail : (closing? middle (first ++ second)).map (lexeme :: ·) =
          (closing? behind second).map (lexeme :: first ++ ·) := by
        rw [ih hrest, Option.map_map]
        rfl
      rw [List.cons_append, closing?, ← htail]
      by_cases hopen : lexeme = mark '('
      · subst hopen
        obtain rfl : depth + 1 = middle := Option.some.inj hopened
        rw [if_pos rfl]
      · by_cases hclose : lexeme = mark ')'
        · subst hclose
          rw [show openedBy depth (mark ')') = if depth = 0 then none else some (depth - 1) from rfl,
            Option.ite_none_left_eq_some] at hopened
          obtain rfl := Option.some.inj hopened.2
          rw [if_neg hopen, if_pos rfl, if_neg hopened.1]
        · have hsame : openedBy depth lexeme = some depth := by
            cases lexeme with
            | mark c =>
                have hc : c ≠ '(' ∧ c ≠ ')' := by
                  constructor
                  · rintro rfl
                    exact hopen rfl
                  · rintro rfl
                    exact hclose rfl
                simp [openedBy, hc]
            | word _ | literal _ _ | lineComment _ | blockComment _ => rfl
          rw [hsame] at hopened
          obtain rfl := Option.some.inj hopened
          rw [if_neg hopen, if_neg hclose]

theorem Closed.inside?_group (hclosed : Closed inner) :
    Lexeme.inside? (mark '(' :: (inner ++ [mark ')'])) = some inner := by
  have hreverse : (mark '(' :: (inner ++ [mark ')'])).reverse =
      mark ')' :: (mark '(' :: inner).reverse := by simp
  have htrim : trimmed (mark '(' :: (inner ++ [mark ')'])) = mark '(' :: (inner ++ [mark ')']) := by
    rw [trimmed, List.dropWhile_cons_of_neg (by decide), hreverse,
      List.dropWhile_cons_of_neg (by decide), ← hreverse, List.reverse_reverse]
  have hclosing := @closing?_append inner [mark ')'] 0 0 hclosed.balanced
  unfold Lexeme.inside?
  rw [htrim]
  simpa [closing?] using hclosing

end Lexeme

end SelectForm

import Mathlib
import SelectForm.Proofs.Lexis.RowMatch

/-!
# Rows that keywords cannot tell apart

Two rows are alike if they have the same shape: their characters of code agree up to
a given relation, their literals stand at the same places, and where it is allowed a
gap of one row may be longer than that of the other.

A keyword looks at nothing else.  If it stands at the front of one of two alike rows
it stands at the front of the other, and what it leaves behind is alike again.
-/

namespace SelectForm

namespace Text

/-- Characters with the same capital are equal or both letters. -/
theorem eq_or_isAlpha_of_toUpper {c d : Char} (hupper : c.toUpper = d.toUpper) :
    c = d ∨ c.isAlpha = true ∧ d.isAlpha = true := by
  have hletter : c.isAlpha = d.isAlpha := by
    rw [← Char.isUpper_toUpper_eq_isAlpha, ← Char.isUpper_toUpper_eq_isAlpha, hupper]
  have hkeep : ∀ e : Char, e.isAlpha = false → e.toUpper = e := by
    intro e he
    apply Char.toUpper_eq_of_not_isLower
    rw [Char.isAlpha, Bool.or_eq_false_iff] at he
    simp [he.2]
  cases hc : c.isAlpha with
  | true => exact .inr ⟨rfl, hletter ▸ hc⟩
  | false =>
      rw [hkeep c hc, hkeep d (hletter ▸ hc)] at hupper
      exact .inl hupper

/-- A test that all letters pass, or none, does not depend on the case. -/
theorem test_eq_of_toUpper {test : Char → Bool} {c d : Char} (answer : Bool)
    (hletter : ∀ e : Char, e.isAlpha = true → test e = answer) (hupper : c.toUpper = d.toUpper) :
    test c = test d := by
  rcases eq_or_isAlpha_of_toUpper hupper with rfl | ⟨hc, hd⟩
  · rfl
  · rw [hletter c hc, hletter d hd]

theorem isWordChar_eq_of_toUpper {c d : Char} (hupper : c.toUpper = d.toUpper) :
    isWordChar c = isWordChar d :=
  test_eq_of_toUpper true (fun e he => by simp [isWordChar, Char.isAlphanum, he]) hupper

theorem not_isAsciiBlank_of_isAlpha {c : Char} (hletter : c.isAlpha = true) :
    isAsciiBlank c = false :=
  isAsciiBlank_eq_false_of_isWordChar (isWordChar_of_isAlpha hletter)

end Text

namespace Lexeme

/-- Pieces that no keyword tells apart: characters of code that are equal up to case,
and literals in the same quotation marks. -/
def Matches : Lexeme → Lexeme → Prop
  | mark c, mark d => c.toUpper = d.toUpper
  | literal quote _, literal other _ => quote = other
  | _, _ => False

/-- Rows of the same shape.  Their pieces are related one by one, and if `stretch` holds
then a gap may stand for any other gap. -/
inductive Alike (R : Lexeme → Lexeme → Prop) (stretch : Prop) :
    List Lexeme → List Lexeme → Prop
  | nil : Alike R stretch [] []
  | cons {lexeme other : Lexeme} {row row' : List Lexeme} (hlexeme : R lexeme other)
      (hrow : Alike R stretch row row') : Alike R stretch (lexeme :: row) (other :: row')
  | gap {gap gap' : Text} {row row' : List Lexeme} (hstretch : stretch) (hne : gap ≠ [])
      (hne' : gap' ≠ []) (hgap : ∀ c ∈ gap, Text.isAsciiBlank c = true)
      (hgap' : ∀ c ∈ gap', Text.isAsciiBlank c = true) (hrow : Alike R stretch row row') :
      Alike R stretch (marks gap ++ row) (marks gap' ++ row')

/-- A relation between pieces that no keyword tells apart. -/
def Blind (R : Lexeme → Lexeme → Prop) : Prop := ∀ lexeme other, R lexeme other → lexeme.Matches other

variable {R : Lexeme → Lexeme → Prop} {stretch : Prop} {lexeme other : Lexeme}
  {row row' first first' : List Lexeme}

/-! ## Pieces -/

theorem Matches.isMark_eq {test : Char → Bool} (hmatch : lexeme.Matches other)
    (htest : ∀ c d : Char, c.toUpper = d.toUpper → test c = test d) :
    lexeme.isMark test = other.isMark test := by
  cases lexeme <;> cases other <;> first | exact htest _ _ hmatch | exact hmatch.elim | rfl

theorem Matches.isGap_eq (hmatch : lexeme.Matches other) : lexeme.isGap = other.isGap := by
  rw [Lexeme.isGap_eq, Lexeme.isGap_eq]
  exact hmatch.isMark_eq fun c d hupper =>
    Text.test_eq_of_toUpper false (fun _ => Text.not_isAsciiBlank_of_isAlpha) hupper

theorem Matches.nesting_eq (hmatch : lexeme.Matches other) : lexeme.nesting = other.nesting := by
  cases lexeme with
  | mark c =>
      cases other with
      | mark d =>
          rcases Text.eq_or_isAlpha_of_toUpper hmatch with rfl | ⟨hc, hd⟩
          · rfl
          · have hno : ∀ e : Char, e.isAlpha = true → (mark e).nesting = 0 := by
              intro e he
              have hopen : e ≠ '(' := by
                rintro rfl
                exact absurd he (by decide)
              have hclose : e ≠ ')' := by
                rintro rfl
                exact absurd he (by decide)
              simp [nesting, hopen, hclose]
            rw [hno c hc, hno d hd]
      | word _ | literal _ _ | lineComment _ | blockComment _ => exact hmatch.elim
  | literal _ _ =>
      cases other with
      | literal _ _ => rfl
      | word _ | mark _ | lineComment _ | blockComment _ => exact hmatch.elim
  | word _ | lineComment _ | blockComment _ => exact hmatch.elim

theorem Matches.isCode_eq (hmatch : lexeme.Matches other) : lexeme.isCode = other.isCode := by
  cases lexeme <;> cases other <;> first | rfl | exact hmatch.elim

/-- The characters at the ends of matching pieces are characters of words, or are not,
together. -/
theorem Matches.ends_eq (hmatch : lexeme.Matches other) :
    lexeme.text.head?.map Text.isWordChar = other.text.head?.map Text.isWordChar ∧
      lexeme.text.getLast?.map Text.isWordChar = other.text.getLast?.map Text.isWordChar := by
  cases lexeme with
  | mark c =>
      cases other with
      | mark d => simp [text, Text.isWordChar_eq_of_toUpper hmatch]
      | word _ | literal _ _ | lineComment _ | blockComment _ => exact hmatch.elim
  | literal quote content =>
      cases other with
      | literal quote' content' =>
          obtain rfl : quote = quote' := hmatch
          have hlast : ∀ inner, (literal quote inner).text.getLast? = some quote.char :=
            fun _ => List.getLast?_concat ..
          rw [hlast, hlast]
          simp [text, Quote.enclose]
      | word _ | mark _ | lineComment _ | blockComment _ => exact hmatch.elim
  | word _ | lineComment _ | blockComment _ => exact hmatch.elim

theorem Matches.text_ne_nil (hmatch : lexeme.Matches other) :
    lexeme.text ≠ [] ∧ other.text ≠ [] := by
  cases lexeme <;> cases other <;>
    first | exact hmatch.elim | simp [text, Quote.enclose]

/-! ## Rows -/

namespace Alike

theorem append (hfirst : Alike R stretch first first') (hrow : Alike R stretch row row') :
    Alike R stretch (first ++ row) (first' ++ row') := by
  induction hfirst with
  | nil => exact hrow
  | cons hlexeme _ ih => exact cons hlexeme ih
  | gap hstretch hne hne' hgap hgap' _ ih =>
      rw [List.append_assoc, List.append_assoc]
      exact gap hstretch hne hne' hgap hgap' ih

theorem reverse (halike : Alike R stretch row row') : Alike R stretch row.reverse row'.reverse := by
  induction halike with
  | nil => exact nil
  | cons hlexeme _ ih =>
      rw [List.reverse_cons, List.reverse_cons]
      exact ih.append (cons hlexeme nil)
  | @gap gap gap' row row' hstretch hne hne' hgap hgap' _ ih =>
      have hlast := @Alike.gap R stretch gap.reverse gap'.reverse [] [] hstretch (by simpa using hne)
        (by simpa using hne') (by simpa using hgap) (by simpa using hgap') nil
      simp only [List.append_nil, marks, List.map_reverse] at hlast
      rw [List.reverse_append, List.reverse_append]
      exact ih.append hlast

theorem eq_nil_iff (halike : Alike R stretch row row') : row = [] ↔ row' = [] := by
  cases halike with
  | nil => rfl
  | cons _ _ => simp
  | gap _ hne hne' _ _ _ => simp [marks, hne, hne']

/-- A test that does not tell related pieces apart, and that all blanks pass or none, takes
alike pieces off alike rows. -/
theorem dropWhile {test : Lexeme → Bool} {answer : Bool} (halike : Alike R stretch row row')
    (htest : ∀ lexeme other, R lexeme other → test lexeme = test other)
    (hblank : ∀ c, Text.isAsciiBlank c = true → test (mark c) = answer) :
    Alike R stretch (row.takeWhile test) (row'.takeWhile test) ∧
      Alike R stretch (row.dropWhile test) (row'.dropWhile test) := by
  induction halike with
  | nil => exact ⟨nil, nil⟩
  | @cons lexeme other row row' hlexeme hrow ih =>
      rw [List.takeWhile_cons, List.takeWhile_cons, List.dropWhile_cons, List.dropWhile_cons,
        htest lexeme other hlexeme]
      split
      · exact ⟨cons hlexeme ih.1, ih.2⟩
      · exact ⟨nil, cons hlexeme hrow⟩
  | @gap gap gap' row row' hstretch hne hne' hgap hgap' hrow ih =>
      have hmarks : ∀ text : Text, (∀ c ∈ text, Text.isAsciiBlank c = true) →
          ∀ piece ∈ marks text, test piece = answer := by
        intro text htext piece hmem
        obtain ⟨c, hc, rfl⟩ := List.mem_map.mp hmem
        exact hblank c (htext c hc)
      cases answer with
      | true =>
          rw [List.takeWhile_append_of_pos (hmarks gap hgap),
            List.dropWhile_append_of_pos (hmarks gap hgap),
            List.takeWhile_append_of_pos (hmarks gap' hgap'),
            List.dropWhile_append_of_pos (hmarks gap' hgap')]
          exact ⟨Alike.gap hstretch hne hne' hgap hgap' ih.1, ih.2⟩
      | false =>
          have hstay : ∀ (text : Text) (back : List Lexeme), text ≠ [] →
              (∀ c ∈ text, Text.isAsciiBlank c = true) →
                (marks text ++ back).takeWhile test = [] ∧
                  (marks text ++ back).dropWhile test = marks text ++ back := by
            intro text back hnil htext
            cases text with
            | nil => exact absurd rfl hnil
            | cons c text =>
                have hc := hblank c (htext c List.mem_cons_self)
                simp [marks, hc]
          rw [(hstay gap row hne hgap).1, (hstay gap row hne hgap).2, (hstay gap' row' hne' hgap').1,
            (hstay gap' row' hne' hgap').2]
          exact ⟨nil, Alike.gap hstretch hne hne' hgap hgap' hrow⟩

theorem head?_any {test : Lexeme → Bool} {answer : Bool} (halike : Alike R stretch row row')
    (htest : ∀ lexeme other, R lexeme other → test lexeme = test other)
    (hblank : ∀ c, Text.isAsciiBlank c = true → test (mark c) = answer) :
    row.head?.any test = row'.head?.any test := by
  cases halike with
  | nil => rfl
  | cons hlexeme _ => exact htest _ _ hlexeme
  | @gap gap gap' _ _ _ hne hne' hgap hgap' _ =>
      cases gap with
      | nil => exact absurd rfl hne
      | cons c gap =>
          cases gap' with
          | nil => exact absurd rfl hne'
          | cons d gap' =>
              have hc := hblank c (hgap c List.mem_cons_self)
              have hd := hblank d (hgap' d List.mem_cons_self)
              simp [marks, hc, hd]

theorem head?_isGap (hblind : Blind R) (halike : Alike R stretch row row') :
    row.head?.any isGap = row'.head?.any isGap :=
  @head?_any R stretch row row' isGap true halike
    (fun _ _ hlexeme => (hblind _ _ hlexeme).isGap_eq) fun _ hblank => hblank

theorem gap_isWordChar {gap : Text} (hgap : ∀ c ∈ gap, Text.isAsciiBlank c = true) :
    gap.head?.any Text.isWordChar = false ∧ gap.getLast?.any Text.isWordChar = false := by
  constructor
  · cases hhead : gap.head? with
    | none => rfl
    | some c => exact Text.not_isWordChar_of_isAsciiBlank (hgap c (List.mem_of_head? hhead))
  · cases hlast : gap.getLast? with
    | none => rfl
    | some c => exact Text.not_isWordChar_of_isAsciiBlank (hgap c (List.mem_of_getLast? hlast))

theorem head?_isWordChar (hblind : Blind R) (halike : Alike R stretch row row') :
    (textOf row).head?.any Text.isWordChar = (textOf row').head?.any Text.isWordChar := by
  cases halike with
  | nil => rfl
  | cons hlexeme _ =>
      have hmatch := hblind _ _ hlexeme
      have hends := hmatch.ends_eq.1
      rw [textOf_cons, textOf_cons, List.head?_append_of_ne_nil _ hmatch.text_ne_nil.1,
        List.head?_append_of_ne_nil _ hmatch.text_ne_nil.2]
      have hany : ∀ first : Option Char,
          first.any Text.isWordChar = (first.map Text.isWordChar).any id := by
        intro first
        cases first <;> rfl
      rw [hany, hends, ← hany]
  | gap _ hne hne' hgap hgap' _ =>
      rw [textOf_append, textOf_append, textOf_marks, textOf_marks,
        List.head?_append_of_ne_nil _ hne, List.head?_append_of_ne_nil _ hne',
        (gap_isWordChar hgap).1, (gap_isWordChar hgap').1]

/-- The last characters of alike rows are characters of words together. -/
theorem lastOf_isWordChar {before before' : Option Char} (hblind : Blind R)
    (halike : Alike R stretch row row')
    (hbefore : before.any Text.isWordChar = before'.any Text.isWordChar) :
    (lastOf before row).any Text.isWordChar = (lastOf before' row').any Text.isWordChar := by
  induction halike generalizing before before' with
  | nil => exact hbefore
  | @cons lexeme other row row' hlexeme _ ih =>
      have hmatch := hblind _ _ hlexeme
      have hends := hmatch.ends_eq.2
      obtain ⟨hne, hne'⟩ := hmatch.text_ne_nil
      rw [lastOf, lastOf]
      apply ih
      rw [List.getLast?_eq_some_getLast hne, List.getLast?_eq_some_getLast hne'] at hends ⊢
      exact Option.some.inj hends
  | @gap gap gap' row row' _ hne hne' hgap hgap' _ ih =>
      rw [lastOf_append, lastOf_append]
      apply ih
      rw [lastOf_eq, lastOf_eq, textOf_marks, textOf_marks]
      have hlast := (gap_isWordChar hgap).2
      have hlast' := (gap_isWordChar hgap').2
      rw [List.getLast?_eq_some_getLast hne] at hlast ⊢
      rw [List.getLast?_eq_some_getLast hne'] at hlast' ⊢
      exact hlast.trans hlast'.symm

end Alike

/-! ## Keywords -/

/-- What is left of two rows is alike, and so is what was taken off them. -/
def Behind (R : Lexeme → Lexeme → Prop) (stretch : Prop) (row row' back back' : List Lexeme) :
    Prop :=
  ∃ front front', row = front ++ back ∧ row' = front' ++ back' ∧ Alike R stretch front front' ∧
    Alike R stretch back back'

namespace Behind

variable {middle middle' back back' : List Lexeme}

theorem refl (halike : Alike R stretch row row') : Behind R stretch row row' row row' :=
  ⟨[], [], rfl, rfl, .nil, halike⟩

theorem trans (hfirst : Behind R stretch row row' middle middle')
    (hsecond : Behind R stretch middle middle' back back') :
    Behind R stretch row row' back back' := by
  obtain ⟨front, front', rfl, rfl, hfront, -⟩ := hfirst
  obtain ⟨next, next', rfl, rfl, hnext, hback⟩ := hsecond
  exact ⟨front ++ next, front' ++ next', (List.append_assoc ..).symm,
    (List.append_assoc ..).symm, hfront.append hnext, hback⟩

theorem alike (hbehind : Behind R stretch row row' back back') : Alike R stretch back back' := by
  obtain ⟨-, -, -, -, -, hback⟩ := hbehind
  exact hback

theorem cons (hlexeme : R lexeme other) (hbehind : Behind R stretch row row' back back') :
    Behind R stretch (lexeme :: row) (other :: row') back back' := by
  obtain ⟨front, front', rfl, rfl, hfront, hback⟩ := hbehind
  exact ⟨lexeme :: front, other :: front', rfl, rfl, hfront.cons hlexeme, hback⟩

end Behind

/-- Searches that agree go on to searches that agree. -/
theorem rel_bind {α β γ δ : Type} {S : α → β → Prop} {T : γ → δ → Prop} {found : Option α}
    {found' : Option β} {next : α → Option γ} {next' : β → Option δ} (hfound : Option.Rel S found found')
    (hnext : ∀ a b, S a b → Option.Rel T (next a) (next' b)) :
    Option.Rel T (found.bind next) (found'.bind next') := by
  cases hfound with
  | none => exact .none
  | some hsame => exact hnext _ _ hsame

theorem rel_imp {α β : Type} {S T : α → β → Prop} {found : Option α} {found' : Option β}
    (hfound : Option.Rel S found found') (himp : ∀ a b, S a b → T a b) :
    Option.Rel T found found' := by
  cases hfound with
  | none => exact .none
  | some hsame => exact .some (himp _ _ hsame)

end Lexeme

namespace Keyword

open Lexeme

variable {R : Lexeme → Lexeme → Prop} {stretch : Prop} {row row' : List Lexeme}

theorem restWord?_of_gap {gap word : Text} (hne : word ≠ []) (hupper : word.all Char.isUpper = true)
    (hgapNe : gap ≠ []) (hgap : ∀ c ∈ gap, Text.isAsciiBlank c = true) :
    restWord? word (marks gap ++ row) = none := by
  cases word with
  | nil => exact absurd rfl hne
  | cons c word =>
      cases gap with
      | nil => exact absurd rfl hgapNe
      | cons d gap =>
          have hd := hgap d List.mem_cons_self
          have hc : d.toUpper ≠ c := by
            rintro rfl
            rw [List.all_cons, Bool.and_eq_true, Char.isUpper_toUpper_eq_isAlpha] at hupper
            rw [Text.not_isAsciiBlank_of_isAlpha hupper.1] at hd
            exact absurd hd Bool.false_ne_true
          simp [marks, restWord?, hc]

theorem restWord?_alike {word : Text} (hblind : Blind R) (hupper : word.all Char.isUpper = true)
    (halike : Alike R stretch row row') :
    Option.Rel (Behind R stretch row row') (restWord? word row) (restWord? word row') := by
  induction word generalizing row row' with
  | nil => exact .some (.refl halike)
  | cons c word ih =>
      cases halike with
      | nil => exact .none
      | @cons lexeme other row row' hlexeme hrow =>
          have hmatch := hblind _ _ hlexeme
          rw [List.all_cons, Bool.and_eq_true] at hupper
          have hrest := ih hupper.2 hrow
          cases lexeme with
          | mark d =>
              cases other with
              | mark e =>
                  have hsame : d.toUpper = e.toUpper := hmatch
                  rw [restWord?, restWord?, hsame]
                  split
                  · generalize restWord? word row = found at hrest
                    generalize restWord? word row' = found' at hrest
                    cases hrest with
                    | none => exact .none
                    | some hbehind => exact .some (hbehind.cons hlexeme)
                  · exact .none
              | word _ | literal _ _ | lineComment _ | blockComment _ => exact hmatch.elim
          | literal _ _ =>
              cases other with
              | literal _ _ => exact .none
              | word _ | mark _ | lineComment _ | blockComment _ => exact hmatch.elim
          | word _ | lineComment _ | blockComment _ => exact hmatch.elim
      | gap _ hne hne' hgap hgap' _ =>
          rw [restWord?_of_gap (List.cons_ne_nil c word) hupper hne hgap,
            restWord?_of_gap (List.cons_ne_nil c word) hupper hne' hgap']
          exact .none

theorem behind_dropWhile_isGap (hblind : Blind R) (halike : Alike R stretch row row') :
    Behind R stretch row row' (row.dropWhile Lexeme.isGap) (row'.dropWhile Lexeme.isGap) := by
  obtain ⟨htake, hdrop⟩ := @Alike.dropWhile R stretch row row' Lexeme.isGap true halike
    (fun _ _ hlexeme => (hblind _ _ hlexeme).isGap_eq) fun _ hblank => hblank
  exact ⟨_, _, List.takeWhile_append_dropWhile.symm, List.takeWhile_append_dropWhile.symm,
    htake, hdrop⟩

theorem restWords?_alike {words : List Text} (hblind : Blind R)
    (hupper : ∀ word ∈ words, word.all Char.isUpper = true) (halike : Alike R stretch row row') :
    Option.Rel (Behind R stretch row row') (restWords? words row) (restWords? words row') := by
  induction words generalizing row row' with
  | nil => exact .some (.refl halike)
  | cons word words ih =>
      obtain ⟨hword, hwords⟩ := List.forall_mem_cons.mp hupper
      have hgap := behind_dropWhile_isGap hblind halike
      rw [restWords?, restWords?, halike.head?_isGap hblind]
      split
      · refine rel_bind (restWord?_alike hblind hword hgap.alike) fun middle middle' hmiddle => ?_
        refine rel_imp (ih hwords hmiddle.alike) fun back back' hback => ?_
        exact hgap.trans (hmiddle.trans hback)
      · exact .none

theorem restPhrase?_alike {words : List Text} (hblind : Blind R)
    (hupper : ∀ word ∈ words, word.all Char.isUpper = true) (halike : Alike R stretch row row') :
    Option.Rel (Behind R stretch row row') (restPhrase? words row) (restPhrase? words row') := by
  cases words with
  | nil => exact .some (.refl halike)
  | cons word words =>
      obtain ⟨hword, hwords⟩ := List.forall_mem_cons.mp hupper
      refine rel_bind (restWord?_alike hblind hword halike) fun middle middle' hmiddle => ?_
      exact rel_imp (restWords?_alike hblind hwords hmiddle.alike) fun _ _ hback =>
        hmiddle.trans hback

theorem behindSymbol?_alike {symbol : Text} (hblind : Blind R)
    (hmarks : ∀ c ∈ symbol, Text.isWordChar c = false ∧ Text.isAsciiBlank c = false)
    (halike : Alike R stretch row row') :
    Option.Rel (Behind R stretch row row') (behindSymbol? symbol row)
      (behindSymbol? symbol row') := by
  induction symbol generalizing row row' with
  | nil => exact .some (.refl halike)
  | cons c symbol ih =>
      obtain ⟨hc, hsymbol⟩ := List.forall_mem_cons.mp hmarks
      cases halike with
      | nil => exact .none
      | @cons lexeme other row row' hlexeme hrow =>
          have hmatch := hblind _ _ hlexeme
          have hrest := ih hsymbol hrow
          cases lexeme with
          | mark d =>
              cases other with
              | mark e =>
                  have hsame : (d = c) = (e = c) := by
                    rcases Text.eq_or_isAlpha_of_toUpper hmatch with rfl | ⟨hd, he⟩
                    · rfl
                    · -- The characters are letters, and no letter is in a symbol.
                      have hne : ∀ letter : Char, letter.isAlpha = true → letter ≠ c := by
                        rintro letter hletter rfl
                        simp [Text.isWordChar, Char.isAlphanum, hletter] at hc
                      simp [hne d hd, hne e he]
                  rw [behindSymbol?, behindSymbol?]
                  simp only [hsame]
                  split
                  · exact rel_imp hrest fun _ _ hbehind => hbehind.cons hlexeme
                  · exact .none
              | word _ | literal _ _ | lineComment _ | blockComment _ => exact hmatch.elim
          | literal _ _ =>
              cases other with
              | literal _ _ => exact .none
              | word _ | mark _ | lineComment _ | blockComment _ => exact hmatch.elim
          | word _ | lineComment _ | blockComment _ => exact hmatch.elim
      | @gap gap gap' row row' _ hne hne' hgap hgap' _ =>
          have hnone : ∀ (gap : Text) (row : List Lexeme), gap ≠ [] →
              (∀ c ∈ gap, Text.isAsciiBlank c = true) →
                behindSymbol? (c :: symbol) (marks gap ++ row) = none := by
            intro gap row hne hgap
            cases gap with
            | nil => exact absurd rfl hne
            | cons d gap =>
                have hd := hgap d List.mem_cons_self
                have hdc : d ≠ c := by
                  rintro rfl
                  simp [hd] at hc
                simp [marks, behindSymbol?, hdc]
          rw [hnone gap row hne hgap, hnone gap' row' hne' hgap']
          exact .none

/-- A keyword stands at the front of both of two alike rows, or of none. -/
theorem rest?_alike {keyword : Keyword} {before before' : Option Char} (hblind : Blind R)
    (hfirm : keyword.isFirm = true)
    (hbefore : before.any Text.isWordChar = before'.any Text.isWordChar)
    (halike : Alike R stretch row row') :
    Option.Rel (Behind R stretch row row') (keyword.rest? before row)
      (keyword.rest? before' row') := by
  simp only [isFirm, isPlain, Bool.and_eq_true] at hfirm
  unfold rest?
  cases hform : keyword.form with
  | symbol symbol =>
      simp only [hform, List.all_eq_true, List.any_eq_false, Bool.and_eq_true, Bool.not_eq_true']
        at hfirm
      exact behindSymbol?_alike hblind
        (fun c hc => ⟨(hfirm.1.2 c hc).1, by simpa using hfirm.2 c hc⟩) halike
  | phrase words =>
      simp only [hform, List.all_eq_true, Bool.and_eq_true] at hfirm
      have hphrase := @restPhrase?_alike R stretch row row' words hblind
        (fun word hmem => by simpa using (hfirm.1.2 word hmem).2) halike
      simp only [hbefore]
      split
      · exact .none
      · generalize restPhrase? words row = found at hphrase
        generalize restPhrase? words row' = found' at hphrase
        cases hphrase with
        | none => exact .none
        | some hback =>
            rw [Option.filter_some, Option.filter_some, hback.alike.head?_isWordChar hblind]
            split
            · exact .some hback
            · exact .none

/-- A keyword stands in front of neither of two alike rows, or alike marks spell it in front of
both. -/
theorem rest?_alike_cases {keyword : Keyword} {before before' : Option Char} (hblind : Blind R)
    (hfirm : keyword.isFirm = true)
    (hbefore : before.any Text.isWordChar = before'.any Text.isWordChar)
    (halike : Alike R stretch row row') :
    (keyword.rest? before row = none ∧ keyword.rest? before' row' = none) ∨
      ∃ c text back d text' back', row = marks (c :: text) ++ back ∧
        row' = marks (d :: text') ++ back' ∧ keyword.rest? before row = some back ∧
        keyword.rest? before' row' = some back' ∧
        Alike R stretch (marks (c :: text)) (marks (d :: text')) ∧ Alike R stretch back back' := by
  have hplain := isPlain_of_isFirm hfirm
  have hfound := rest?_alike hblind hfirm hbefore halike
  cases hrest : keyword.rest? before row with
  | none =>
      cases hrest' : keyword.rest? before' row' with
      | none => exact .inl ⟨rfl, rfl⟩
      | some back' =>
          rw [hrest, hrest'] at hfound
          cases hfound
  | some back =>
      cases hrest' : keyword.rest? before' row' with
      | none =>
          rw [hrest, hrest'] at hfound
          cases hfound
      | some back' =>
          rw [hrest, hrest', Option.rel_some_some] at hfound
          obtain ⟨front, front', hfront, hfront', hmarks, hbacks⟩ := hfound
          obtain ⟨c, text, htext⟩ := exists_marks_of_rest? hplain hrest
          obtain ⟨d, text', htext'⟩ := exists_marks_of_rest? hplain hrest'
          obtain rfl : marks (c :: text) = front :=
            List.append_cancel_right (htext.symm.trans hfront)
          obtain rfl : marks (d :: text') = front' :=
            List.append_cancel_right (htext'.symm.trans hfront')
          exact .inr ⟨c, text, back, d, text', back', htext, htext', rfl, rfl, hmarks, hbacks⟩

end Keyword

/-! ## Finders -/

namespace RowFinder

open Lexeme

/-- A finder that finds the same marks in alike rows. -/
def Steady {α : Type} (seek : RowFinder α) (R : Lexeme → Lexeme → Prop) (stretch : Prop) : Prop :=
  ∀ (before before' : Option Char) (row row' : List Lexeme),
    before.any Text.isWordChar = before'.any Text.isWordChar → Alike R stretch row row' →
      Option.Rel (fun found found' => found.1 = found'.1 ∧ Behind R stretch row row' found.2 found'.2)
        (seek before row) (seek before' row')

variable {R : Lexeme → Lexeme → Prop} {stretch : Prop}

theorem ofKeywords_steady {α : Type} {keywords : List (Keyword × α)} (hblind : Blind R)
    (hfirm : ∀ entry ∈ keywords, entry.1.isFirm = true) :
    (ofKeywords keywords).Steady R stretch := by
  intro before before' row row' hbefore halike
  unfold ofKeywords
  induction keywords with
  | nil => exact .none
  | cons entry keywords ih =>
      obtain ⟨hentry, hkeywords⟩ := List.forall_mem_cons.mp hfirm
      have hrest := Keyword.rest?_alike hblind hentry hbefore halike
      rw [List.findSome?_cons, List.findSome?_cons]
      generalize entry.1.rest? before row = found at hrest
      generalize entry.1.rest? before' row' = found' at hrest
      cases hrest with
      | none => exact ih hkeywords
      | some hbehind => exact .some ⟨rfl, hbehind⟩

theorem comma_steady (hblind : Blind R) : comma.Steady R stretch := by
  have hcomma : ∀ (before : Option Char) (row : List Lexeme),
      comma before row = (Keyword.behindSymbol? [','] row).map fun back => ((), back) := by
    intro before row
    cases row with
    | nil => rfl
    | cons lexeme row =>
        cases lexeme with
        | mark c => by_cases hc : c = ',' <;> simp [comma, Keyword.behindSymbol?, hc]
        | word _ | literal _ _ | lineComment _ | blockComment _ => rfl
  intro before before' row row' _ halike
  have hfound := @Keyword.behindSymbol?_alike R stretch row row' [','] hblind
    (by simpa using ⟨by decide, by decide⟩) halike
  rw [hcomma, hcomma]
  generalize Keyword.behindSymbol? [','] row = found at hfound
  generalize Keyword.behindSymbol? [','] row' = found' at hfound
  cases hfound with
  | none => exact .none
  | some hbehind => exact .some ⟨rfl, hbehind⟩

end RowFinder

end SelectForm

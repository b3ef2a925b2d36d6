import Mathlib
import SelectForm.Proofs.Lexis.HeldParameters
import SelectForm.Proofs.Lexis.RowSpans
import SelectForm.Proofs.Query.Blanked
import SelectForm.Proofs.Text.Respelled

/-!
# Texts with other contents in their literals

The contents of the literals of a text are exchanged span by span, and a row is refilled
piece by piece.  Nothing but the contents changes: what is code stays code and what is a
comment stays one, whatever the new contents are.
-/

namespace SelectForm

namespace SpanKind

/-- The quotation mark of a literal. -/
def quote? : SpanKind → Option Quote
  | quoted quote => some quote
  | _ => none

end SpanKind

namespace Span

/-- The text of some spans with other contents in their literals, the first content in the
first literal and so on. -/
def refill : List Span → List String → Text
  | [], _ => []
  | span :: spans, contents =>
    match span.kind.quote? with
    | none => span.text ++ refill spans contents
    | some quote =>
      match contents with
      | [] => span.text ++ refill spans []
      | content :: contents => quote.enclose content.toList ++ refill spans contents

/-- The literals among some spans. -/
def literals (spans : List Span) : List Span := spans.filter fun span => span.kind.quote?.isSome

end Span

/-- A text with other contents in its literals. -/
def Text.refill (contents : List String) (text : Text) : Text := Span.refill text.spans contents

namespace Lexeme

variable {row : List Lexeme} {lexeme : Lexeme} {contents : List String} {next : Option Char}

/-- The content of a literal. -/
def content? : Lexeme → Option Text
  | literal _ content => some content
  | _ => none

/-- A row with other contents in its literals. -/
def refill : List Lexeme → List String → List Lexeme
  | literal quote _ :: row, content :: contents => literal quote content.toList :: refill row contents
  | lexeme :: row, contents => lexeme :: refill row contents
  | [], _ => []

@[simp] theorem refill_nil : refill [] contents = [] := by
  rw [refill]

theorem refill_cons_of_content? (hcontent : lexeme.content? = none) :
    refill (lexeme :: row) contents = lexeme :: refill row contents := by
  cases lexeme <;> first | rfl | exact absurd hcontent (by simp [content?])

theorem content?_of_quote? (hquote : lexeme.kind.quote? = none) : lexeme.content? = none := by
  cases lexeme <;> first | rfl | exact absurd hquote (by simp [kind, SpanKind.quote?])

/-! ## Text -/

theorem head?_refill (row : List Lexeme) (contents : List String) :
    (textOf (refill row contents)).head? = (textOf row).head? := by
  induction row generalizing contents with
  | nil => rw [refill_nil]
  | cons lexeme row ih =>
      cases hcontent : lexeme.content? with
      | none =>
          rw [refill_cons_of_content? hcontent, textOf_cons, textOf_cons, List.head?_append,
            List.head?_append, ih]
      | some content =>
          cases lexeme with
          | literal quote content => cases contents <;> rfl
          | word _ | mark _ | lineComment _ | blockComment _ => simp [content?] at hcontent

theorem Fine.refill (hfine : Fine next row) (contents : List String) :
    Fine next (refill row contents) := by
  induction row generalizing contents with
  | nil => rwa [refill_nil]
  | cons lexeme row ih =>
      obtain ⟨hlexeme, hends, hrow⟩ := hfine
      rw [← head?_refill row contents] at hends
      cases hcontent : lexeme.content? with
      | none =>
          rw [refill_cons_of_content? hcontent]
          exact ⟨hlexeme, hends, ih hrow contents⟩
      | some content =>
          cases lexeme with
          | literal quote content =>
              cases contents with
              | nil => exact ⟨hlexeme, hends, ih hrow []⟩
              | cons content contents =>
                  rw [head?_refill, ← head?_refill row contents] at hends
                  exact ⟨trivial, hends, ih hrow contents⟩
          | word _ | mark _ | lineComment _ | blockComment _ => simp [content?] at hcontent

/-- Refilling the spans of a row, and what is behind them, refills the row. -/
theorem refill_spansOf (start : Nat) (row : List Lexeme) (others : List Span)
    (hothers : ∀ contents, Span.refill others contents = others.flatMap Span.text) :
    Span.refill (spansOf start row ++ others) contents =
      textOf (refill row contents) ++ others.flatMap Span.text := by
  induction row generalizing start contents with
  | nil => simp [spansOf, hothers]
  | cons lexeme row ih =>
      have hrest := fun contents => @ih contents (start + Text.size lexeme.text)
      rcases spansOf_cons_cases start lexeme row with
        hown | ⟨span, spans, hspans, hlexeme, hspan, hshared⟩
      · rw [hown, List.cons_append]
        cases hquote : lexeme.kind.quote? with
        | none =>
            rw [Span.refill, refill_cons_of_content? (content?_of_quote? hquote), textOf_cons,
              List.append_assoc, ← hrest contents]
            simp only [hquote]
        | some quote =>
            cases lexeme with
            | literal quote content =>
                cases contents with
                | nil => exact (congrArg _ (hrest [])).trans (List.append_assoc _ _ _).symm
                | cons content contents =>
                    exact (congrArg _ (hrest contents)).trans (List.append_assoc _ _ _).symm
            | word _ | mark _ | lineComment _ | blockComment _ =>
                simp [kind, SpanKind.quote?] at hquote
      · have hcode := hrest contents
        have hnone : lexeme.content? = none := content?_of_quote? (by rw [hlexeme]; rfl)
        rw [hspans, List.cons_append, Span.refill, hspan] at hcode
        rw [hshared, List.cons_append, Span.refill, hspan, refill_cons_of_content? hnone, textOf_cons]
        refine (List.append_assoc _ _ _).trans ?_
        exact (congrArg _ hcode).trans (List.append_assoc _ _ _).symm

/-! ## Contents -/

theorem length_literals (start : Nat) (row : List Lexeme) :
    (Span.literals (spansOf start row)).length = (row.filterMap content?).length := by
  induction row generalizing start with
  | nil => rfl
  | cons lexeme row ih =>
      have hrest := ih (start + Text.size lexeme.text)
      unfold Span.literals at hrest ⊢
      rcases spansOf_cons_cases start lexeme row with
        hown | ⟨span, spans, hspans, hlexeme, hspan, hshared⟩
      · rw [hown, List.filter_cons]
        cases lexeme <;> first | exact hrest | exact congrArg Nat.succ hrest
      · have hnone : lexeme.content? = none := content?_of_quote? (by rw [hlexeme]; rfl)
        rw [hspans] at hrest
        rw [hshared, List.filterMap_cons_none hnone, ← hrest]
        simp [hspan, SpanKind.quote?]

theorem filterMap_content?_refill (hlength : contents.length = (row.filterMap content?).length) :
    (refill row contents).filterMap content? = contents.map String.toList := by
  induction row generalizing contents with
  | nil =>
      obtain rfl := List.eq_nil_of_length_eq_zero hlength
      rw [refill_nil]
      rfl
  | cons lexeme row ih =>
      cases hcontent : lexeme.content? with
      | none =>
          rw [List.filterMap_cons_none hcontent] at hlength
          rw [refill_cons_of_content? hcontent, List.filterMap_cons_none hcontent, ih hlength]
      | some content =>
          rw [List.filterMap_cons_some hcontent, List.length_cons] at hlength
          obtain ⟨content, contents, rfl⟩ := List.exists_cons_of_length_eq_add_one hlength
          cases lexeme with
          | literal quote _ =>
              exact congrArg (content.toList :: ·) (ih (Nat.succ.inj hlength))
          | word _ | mark _ | lineComment _ | blockComment _ => simp [content?] at hcontent

theorem filterMap_content?_marks (text : Text) : (marks text).filterMap content? = [] := by
  rw [marks, List.filterMap_map]
  exact List.filterMap_eq_nil_iff.mpr fun _ _ => rfl

theorem filterMap_content?_covered (row : List Lexeme) :
    (covered row).filterMap content? = row.filterMap content? := by
  rw [covered, List.filterMap_flatMap, List.filterMap_eq_flatMap_toList]
  refine List.flatMap_congr fun lexeme _ => ?_
  cases lexeme with
  | lineComment _ | blockComment _ => exact filterMap_content?_marks _
  | word _ | mark _ | literal _ _ => rfl

/-- The contents of the literals of a row are those among its tokens. -/
theorem Holds.filterMap_content? {tokens : List Token} (hholds : Holds row tokens) :
    row.filterMap content? = tokens.filterMap Token.string? := by
  induction hholds with
  | nil => rfl
  | append _ _ _ hfirst hsecond => rw [List.filterMap_append, List.filterMap_append, hfirst, hsecond]
  | separator _ => rfl
  | keyword _ _ => exact filterMap_content?_marks _
  | name _ => exact filterMap_content?_marks _
  | function _ => exact filterMap_content?_marks _
  | number _ => exact filterMap_content?_marks _
  | parameter _ => exact filterMap_content?_marks _
  | literal _ _ => rfl

/-! ## Alikeness -/

/-- A masked row and the row refilled and masked differ in the contents of literals. -/
theorem Fine.covered_refill_alike (hfine : Fine next row) (contents : List String) :
    Alike (Respelled id fun _ _ => True) False (covered row) (covered (Lexeme.refill row contents)) := by
  induction row generalizing contents with
  | nil =>
      rw [refill_nil]
      exact .nil
  | cons lexeme row ih =>
      obtain ⟨hlexeme, -, hrow⟩ := hfine
      have hsame : ∀ row : List Lexeme, Atomic row →
          Alike (Respelled id fun _ _ => True) False row row := by
        intro row hatomic
        induction row with
        | nil => exact .nil
        | cons lexeme row ih =>
            obtain ⟨hatom, hrow⟩ := atomic_cons.mp hatomic
            refine .cons ?_ (ih hrow)
            cases lexeme with
            | mark c => rfl
            | literal quote content => exact ⟨rfl, trivial⟩
            | word _ | lineComment _ | blockComment _ => exact hatom.elim
      cases hcontent : lexeme.content? with
      | none =>
          rw [refill_cons_of_content? hcontent, covered, covered, List.flatMap_cons, List.flatMap_cons]
          refine Alike.append (hsame _ ?_) (ih hrow contents)
          rw [cover]
          split
          · exact atomic_marks _
          · rename_i hcomment
            exact atomic_cons.mpr ⟨hlexeme.isAtom (Bool.eq_false_of_not_eq_true hcomment), atomic_nil⟩
      | some content =>
          cases lexeme with
          | literal quote content =>
              cases contents with
              | nil => exact .cons ⟨rfl, trivial⟩ (ih hrow [])
              | cons content contents => exact .cons ⟨rfl, trivial⟩ (ih hrow contents)
          | word _ | mark _ | lineComment _ | blockComment _ => simp [content?] at hcontent

end Lexeme

end SelectForm

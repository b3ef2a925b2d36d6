import Mathlib
import SelectForm.Lexis.Quoted
import SelectForm.Lexis.Span
import SelectForm.Proofs.Lexis.Cutting

/-!
# The spans of lexed text

Neighbouring pieces of code share a span, and every literal and every comment has
a span of its own.  All of them are terminated.  What the spans hold can therefore
be read off the pieces: the literals and comments one by one, and the code as a
whole.
-/

namespace SelectForm

/-! ## Literals -/

namespace Quote

theorem undouble_cons {quote : Quote} {c : Char} (hc : c ≠ quote.char) (rest : Text) :
    quote.undouble (c :: rest) = c :: quote.undouble rest := by
  cases rest with
  | nil => rfl
  | cons d rest => rw [undouble, if_neg fun h => hc h.1]

theorem undouble_doubleIn (quote : Quote) (text : Text) :
    quote.undouble (quote.doubleIn text) = text := by
  induction text with
  | nil => rfl
  | cons c text ih =>
      rw [doubleIn, List.flatMap_cons, ← doubleIn]
      by_cases hc : c = quote.char
      · rw [if_pos hc, List.cons_append, List.cons_append, List.nil_append, undouble,
          if_pos ⟨hc, hc⟩, ih]
      · rw [if_neg hc, List.singleton_append, undouble_cons hc, ih]

theorem ofChar?_char (quote : Quote) : ofChar? quote.char = some quote := by
  cases quote <;> rfl

end Quote

namespace Text

theorem unquote_enclose (quote : Quote) (text : Text) :
    unquote (quote.enclose text) = text := by
  rw [Quote.enclose, List.cons_append, unquote, Quote.ofChar?_char]
  simp only [List.getLast?_concat, if_true, List.dropLast_concat]
  exact quote.undouble_doubleIn text

end Text

/-! ## Spans -/

namespace Span

/-- A span in front of the others. -/
def join (kind : SpanKind) (start : Nat) (text : Text) (joins : Bool) :
    List Span → List Span
  | [] => [⟨kind, start, text, true⟩]
  | span :: spans =>
    if joins then
      { span with start := start, text := text ++ span.text } :: spans
    else
      ⟨kind, start, text, true⟩ :: span :: spans

theorem join_join (kind : SpanKind) (start behind : Nat) (first second : Text) (joins : Bool)
    (spans : List Span) :
    join kind start first true (join kind behind second joins spans) =
      join kind start (first ++ second) joins spans := by
  cases spans with
  | nil => rfl
  | cons span spans => cases joins <;> simp [join]

theorem ofCells_cons (start : Nat) (cell : Cell) (rest : List Cell) :
    ofCells false start (cell :: rest) =
      join cell.kind start [cell.char] (rest.head?.any fun next => !next.opens)
        (ofCells false (start + cell.char.utf8Size) rest) := by
  cases rest with
  | nil => rfl
  | cons next rest =>
      rw [ofCells.eq_def]
      simp only
      cases ofCells false (start + cell.char.utf8Size) (next :: rest) with
      | nil => rfl
      | cons span spans => cases hopens : next.opens <;> simp [join, hopens]

theorem ofCells_run (start : Nat) (kind : SpanKind) (c : Char) (opens : Bool) (text : Text)
    (rest : List Cell) :
    ofCells false start (⟨c, kind, opens⟩ :: (text.map (⟨·, kind, false⟩) ++ rest)) =
      join kind start (c :: text) (rest.head?.any fun next => !next.opens)
        (ofCells false (start + Text.size (c :: text)) rest) := by
  induction text generalizing start c opens with
  | nil => exact ofCells_cons start ⟨c, kind, opens⟩ rest
  | cons d text ih =>
      rw [List.map_cons, List.cons_append, ofCells_cons, ih, List.head?_cons]
      simp only [Option.any_some, Bool.not_false, join_join, List.singleton_append,
        Text.size_cons, Nat.add_assoc]

theorem ofCells_ne_nil (endsOpen : Bool) (start : Nat) (cell : Cell) (rest : List Cell) :
    ofCells endsOpen start (cell :: rest) ≠ [] := by
  rw [ofCells.eq_def]
  dsimp only
  split
  · split <;> simp
  · simp

/-- A cell begins a span of its own, or is in front of the first of the spans behind it. -/
theorem ofCells_cases (endsOpen : Bool) (start : Nat) (cell next : Cell) (rest : List Cell) :
    ∃ first spans, ofCells endsOpen (start + cell.char.utf8Size) (next :: rest) = first :: spans ∧
      (ofCells endsOpen start (cell :: next :: rest) =
          ⟨cell.kind, start, [cell.char], true⟩ :: first :: spans ∨
        ofCells endsOpen start (cell :: next :: rest) =
          { first with start := start, text := cell.char :: first.text } :: spans) := by
  obtain ⟨first, spans, hspans⟩ :=
    List.exists_cons_of_ne_nil (ofCells_ne_nil endsOpen (start + cell.char.utf8Size) next rest)
  refine ⟨first, spans, hspans, ?_⟩
  rw [ofCells.eq_def]
  simp only [hspans]
  split
  · exact .inl rfl
  · exact .inr rfl

theorem exists_not_terminated {start : Nat} {cells : List Cell} (hne : cells ≠ []) :
    ∃ span ∈ ofCells true start cells, span.terminated = false := by
  induction cells generalizing start with
  | nil => exact absurd rfl hne
  | cons cell rest ih =>
      cases rest with
      | nil => exact ⟨_, List.mem_singleton_self _, rfl⟩
      | cons next rest =>
          obtain ⟨first, spans, hspans, hcases⟩ := ofCells_cases true start cell next rest
          obtain ⟨found, hmem, hopen⟩ := @ih (start + cell.char.utf8Size) (List.cons_ne_nil _ _)
          rw [hspans] at hmem
          rcases hcases with heq | heq
          · exact ⟨found, heq ▸ List.mem_cons_of_mem _ hmem, hopen⟩
          · rcases List.mem_cons.mp hmem with rfl | hmem
            · rw [heq]
              exact ⟨_, List.mem_cons_self, hopen⟩
            · exact ⟨found, heq ▸ List.mem_cons_of_mem _ hmem, hopen⟩

theorem terminated_of_mem {start : Nat} {cells : List Cell} {span : Span}
    (hmem : span ∈ ofCells false start cells) : span.terminated = true := by
  induction cells generalizing start span with
  | nil => simp [ofCells] at hmem
  | cons cell rest ih =>
      cases rest with
      | nil =>
          obtain rfl := List.mem_singleton.mp hmem
          rfl
      | cons next rest =>
          obtain ⟨first, spans, hspans, hcases⟩ := ofCells_cases false start cell next rest
          have hrest : ∀ found ∈ first :: spans, found.terminated = true := by
            rw [← hspans]
            exact fun found hfound => ih hfound
          rcases hcases with heq | heq
          · rw [heq] at hmem
            rcases List.mem_cons.mp hmem with rfl | hmem
            · rfl
            · exact hrest span hmem
          · rw [heq] at hmem
            rcases List.mem_cons.mp hmem with rfl | hmem
            · exact hrest first List.mem_cons_self
            · exact hrest span (List.mem_cons_of_mem _ hmem)

end Span

namespace Lexeme

/-- The spans of some pieces. -/
def spansOf (start : Nat) : List Lexeme → List Span
  | [] => []
  | lexeme :: rest =>
    Span.join lexeme.kind start lexeme.text (lexeme.isCode && rest.head?.any isCode)
      (spansOf (start + Text.size lexeme.text) rest)

/-- A piece of code joins the code before it; every other piece opens a span. -/
theorem head?_opens {lexemes : List Lexeme} (hne : ∀ lexeme ∈ lexemes, lexeme.text ≠ [])
    (fresh : Bool) :
    ((cellsOf fresh lexemes).head?.any fun next => !next.opens) =
      (!fresh && lexemes.head?.any isCode) := by
  cases lexemes with
  | nil => simp
  | cons lexeme rest =>
      obtain ⟨c, others, htext⟩ :=
        List.exists_cons_of_ne_nil (hne lexeme List.mem_cons_self)
      rw [cellsOf_cons, cells, htext]
      simp

theorem ofCells_cellsOf {lexemes : List Lexeme}
    (hne : ∀ lexeme ∈ lexemes, lexeme.text ≠ []) (start : Nat) (fresh : Bool) :
    Span.ofCells false start (cellsOf fresh lexemes) = spansOf start lexemes := by
  induction lexemes generalizing start fresh with
  | nil => rfl
  | cons lexeme rest ih =>
      have hrest := fun other hmem => hne other (List.mem_cons_of_mem lexeme hmem)
      obtain ⟨c, others, htext⟩ :=
        List.exists_cons_of_ne_nil (hne lexeme List.mem_cons_self)
      rw [cellsOf_cons, cells, htext, List.cons_append, Span.ofCells_run, head?_opens hrest, ih hrest,
        spansOf, htext, Bool.not_not]

theorem Lexed.isProper {next : Option Char} {lexemes : List Lexeme}
    (hlexed : Lexed next lexemes) : ∀ lexeme ∈ lexemes, lexeme.IsProper := by
  induction lexemes with
  | nil => exact List.forall_mem_nil _
  | cons lexeme rest ih => exact List.forall_mem_cons.mpr ⟨hlexed.1, ih hlexed.2.2⟩

theorem Lexed.spans_textOf {lexemes : List Lexeme} (hlexed : Lexed none lexemes) :
    (textOf lexemes).spans = spansOf 0 lexemes := by
  rw [Text.spans, hlexed.endsOpen_textOf, hlexed.cells_textOf,
    ofCells_cellsOf fun lexeme hmem => (hlexed.isProper lexeme hmem).text_ne_nil]

/-! ## What the spans hold -/

/-- The first span is of the kind of the first piece. -/
theorem head?_spansOf (start : Nat) (lexemes : List Lexeme) :
    (spansOf start lexemes).head?.map Span.kind = lexemes.head?.map kind := by
  induction lexemes generalizing start with
  | nil => rfl
  | cons lexeme rest ih =>
      have hrest := ih (start + Text.size lexeme.text)
      rw [spansOf]
      cases hspans : spansOf (start + Text.size lexeme.text) rest with
      | nil => rfl
      | cons span spans =>
          rw [Span.join]
          split
          next hjoins =>
            rw [hspans] at hrest
            cases rest with
            | nil => simp at hrest
            | cons next rest =>
                obtain ⟨hcode, hnext⟩ := by simpa [isCode] using hjoins
                simpa [hcode, hnext] using hrest
          next => rfl

/-- A piece has a span of its own, or it is code and shares the span of the code behind
it. -/
theorem spansOf_cons_cases (start : Nat) (lexeme : Lexeme) (rest : List Lexeme) :
    spansOf start (lexeme :: rest) =
        ⟨lexeme.kind, start, lexeme.text, true⟩ ::
          spansOf (start + Text.size lexeme.text) rest ∨
      ∃ span spans, spansOf (start + Text.size lexeme.text) rest = span :: spans ∧
        lexeme.kind = .code ∧ span.kind = .code ∧
        spansOf start (lexeme :: rest) =
          { span with start := start, text := lexeme.text ++ span.text } :: spans := by
  have hhead := head?_spansOf (start + Text.size lexeme.text) rest
  rw [spansOf]
  cases hspans : spansOf (start + Text.size lexeme.text) rest with
  | nil => exact .inl rfl
  | cons span spans =>
      rw [Span.join]
      split
      next hjoins =>
        rw [hspans] at hhead
        cases rest with
        | nil => simp at hhead
        | cons next rest =>
            obtain ⟨hcode, hnext⟩ := by simpa [isCode] using hjoins
            exact .inr ⟨span, spans, rfl, hcode, by simpa [hnext] using hhead, rfl⟩
      next => exact .inl rfl

theorem terminated_spansOf (start : Nat) (lexemes : List Lexeme) :
    ∀ span ∈ spansOf start lexemes, span.terminated = true := by
  induction lexemes generalizing start with
  | nil => exact List.forall_mem_nil _
  | cons lexeme rest ih =>
      have hrest := ih (start + Text.size lexeme.text)
      rcases spansOf_cons_cases start lexeme rest with hown | ⟨span, spans, hspans, -, -, hshared⟩
      · rw [hown]
        exact List.forall_mem_cons.mpr ⟨rfl, hrest⟩
      · rw [hspans] at hrest
        rw [hshared]
        exact List.forall_mem_cons.mpr (List.forall_mem_cons.mp hrest)

/-- Every literal and every comment has a span of its own. -/
theorem literals_spansOf (start : Nat) (lexemes : List Lexeme) :
    ((spansOf start lexemes).filter fun span => span.kind != .code).map
        (fun span => (span.kind, span.text)) =
      (lexemes.filter fun lexeme => !lexeme.isCode).map
        fun lexeme => (lexeme.kind, lexeme.text) := by
  induction lexemes generalizing start with
  | nil => rfl
  | cons lexeme rest ih =>
      have hrest := ih (start + Text.size lexeme.text)
      rcases spansOf_cons_cases start lexeme rest with
        hown | ⟨span, spans, hspans, hlexeme, hspan, hshared⟩
      · rw [hown]
        cases hkind : lexeme.kind == .code <;>
          simp_all [isCode]
      · rw [hspans] at hrest
        rw [hshared]
        simp_all [isCode]

/-- The spans of some kinds hold the pieces of these kinds, in order. -/
theorem text_spansOf (test : SpanKind → Bool) (start : Nat) (lexemes : List Lexeme) :
    ((spansOf start lexemes).filter fun span => test span.kind).flatMap Span.text =
      textOf (lexemes.filter fun lexeme => test lexeme.kind) := by
  induction lexemes generalizing start with
  | nil => rfl
  | cons lexeme rest ih =>
      have hrest := ih (start + Text.size lexeme.text)
      rcases spansOf_cons_cases start lexeme rest with
        hown | ⟨span, spans, hspans, hlexeme, hspan, hshared⟩
      · rw [hown]
        cases hkind : test lexeme.kind <;> simp_all
      · rw [hspans] at hrest
        rw [hshared]
        cases hkind : test .code <;> simp_all

theorem code_spansOf (start : Nat) (lexemes : List Lexeme) :
    ((spansOf start lexemes).filter fun span => span.kind == .code).flatMap Span.text =
      textOf (lexemes.filter isCode) :=
  text_spansOf (· == .code) start lexemes

theorem kind_of_mem_spansOf {start : Nat} {lexemes : List Lexeme} {span : Span}
    (hmem : span ∈ spansOf start lexemes) : ∃ lexeme ∈ lexemes, lexeme.kind = span.kind := by
  induction lexemes generalizing start span with
  | nil => simp [spansOf] at hmem
  | cons lexeme rest ih =>
      rcases spansOf_cons_cases start lexeme rest with
        hown | ⟨first, spans, hspans, hlexeme, hfirst, hshared⟩
      · rw [hown, List.mem_cons] at hmem
        rcases hmem with rfl | hmem
        · exact ⟨lexeme, List.mem_cons_self, rfl⟩
        · obtain ⟨other, hother, hkind⟩ := ih hmem
          exact ⟨other, List.mem_cons_of_mem lexeme hother, hkind⟩
      · rw [hshared, List.mem_cons] at hmem
        rcases hmem with rfl | hmem
        · exact ⟨lexeme, List.mem_cons_self, by rw [hlexeme, hfirst]⟩
        · obtain ⟨other, hother, hkind⟩ := ih (hspans ▸ List.mem_cons_of_mem first hmem)
          exact ⟨other, List.mem_cons_of_mem lexeme hother, hkind⟩

/-- No comment ends behind the pieces in front, if there is none among the pieces
behind them. -/
theorem stop_le_of_isComment {front back : List Lexeme} (start : Nat)
    (hback : ∀ lexeme ∈ back, lexeme.kind.isComment = false) :
    ∀ span ∈ spansOf start (front ++ back), span.kind.isComment = true →
      span.stop ≤ start + Text.size (textOf front) := by
  intro span hmem hcomment
  induction front generalizing start with
  | nil =>
      obtain ⟨lexeme, hlexeme, hkind⟩ := kind_of_mem_spansOf hmem
      have hnone := hback lexeme hlexeme
      rw [hkind, hcomment] at hnone
      exact absurd hnone (by decide)
  | cons lexeme front ih =>
      have hrest := ih (start + Text.size lexeme.text)
      rw [textOf_cons, Text.size_append, ← Nat.add_assoc]
      rw [List.cons_append] at hmem
      rcases spansOf_cons_cases start lexeme (front ++ back) with
        hown | ⟨first, spans, hspans, hlexeme, hfirst, hshared⟩
      · rw [hown, List.mem_cons] at hmem
        rcases hmem with rfl | hmem
        · exact Nat.le_add_right _ _
        · exact hrest hmem
      · rw [hshared, List.mem_cons] at hmem
        rcases hmem with rfl | hmem
        · simp [hfirst, SpanKind.isComment] at hcomment
        · exact hrest (hspans ▸ List.mem_cons_of_mem first hmem)

end Lexeme

end SelectForm

import Mathlib
import SelectForm.Proofs.Lexis.Spans
import SelectForm.Proofs.Lexis.RowText

/-!
# The spans of a row

A row that is finely cut has the spans of its pieces: the characters of code between two
literals or comments make one span, and each literal and comment makes one of its own.
-/

namespace SelectForm

namespace Span

/-- Where a span begins the spans of cells fall apart. -/
theorem ofCells_append (endsOpen : Bool) (start : Nat) (first : List Cell) {cell : Cell}
    (rest : List Cell) (hopens : cell.opens = true) :
    ofCells endsOpen start (first ++ cell :: rest) =
      ofCells false start first ++
        ofCells endsOpen (start + Text.size (Cell.text first)) (cell :: rest) := by
  induction first generalizing start with
  | nil => rfl
  | cons other first ih =>
      have htext : Cell.text (other :: first) = other.char :: Cell.text first := rfl
      have hrest := ih (start + other.char.utf8Size)
      rw [Nat.add_assoc, ← Text.size_cons, ← htext] at hrest
      cases first with
      | nil =>
          obtain ⟨span, spans, hspans⟩ := List.exists_cons_of_ne_nil
            (ofCells_ne_nil endsOpen (start + Text.size (Cell.text [other])) cell rest)
          rw [hspans] at hrest ⊢
          have hnil : ofCells false (start + other.char.utf8Size) [] = [] := rfl
          rw [hnil, List.nil_append, List.nil_append] at hrest
          rw [List.cons_append, List.nil_append, ofCells.eq_def]
          simp only [hrest, if_pos hopens]
          rfl
      | cons next first =>
          obtain ⟨span, spans, hspans⟩ := List.exists_cons_of_ne_nil
            (ofCells_ne_nil false (start + other.char.utf8Size) next first)
          rw [hspans] at hrest
          rw [List.cons_append, List.cons_append, ofCells.eq_def, ofCells.eq_def false]
          rw [List.cons_append] at hrest
          simp only [hrest, hspans, List.cons_append]
          split <;> rfl

/-- Cells of one kind at the end of a text make one span. -/
theorem ofCells_single (endsOpen : Bool) (start : Nat) (c : Char) (kind : SpanKind) (opens : Bool)
    (rest : Text) :
    ofCells endsOpen start (⟨c, kind, opens⟩ :: rest.map (⟨·, kind, false⟩)) =
      [⟨kind, start, c :: rest, !endsOpen⟩] := by
  induction rest generalizing start c opens with
  | nil => rfl
  | cons d rest ih =>
      rw [List.map_cons, ofCells.eq_def]
      simp [ih]

end Span

namespace Lexeme

variable {row : List Lexeme} {lexeme : Lexeme}

theorem Fine.spans_textOf (hfine : Fine none row) : (textOf row).spans = spansOf 0 row := by
  rw [Text.spans, hfine.endsOpen_textOf, hfine.cells_textOf,
    ofCells_cellsOf fun lexeme hmem => (hfine.isFine lexeme hmem).text_ne_nil]

/-- What is left open behind a row makes a span of its own. -/
theorem LeftOpen.spans_append {kind : SpanKind} {tail : Text} (hopen : LeftOpen kind tail)
    (hfine : Fine tail.head? row) :
    (textOf row ++ tail).spans =
      spansOf 0 row ++ [⟨kind, Text.size (textOf row), tail, false⟩] := by
  obtain ⟨hcells, hends⟩ := hopen.cells_append hfine
  obtain ⟨c, rest, rfl, htail⟩ := hopen.exists_cells
  rw [Text.spans, hends, hcells, htail, Span.ofCells_append true 0 _ _ rfl, Span.ofCells_single,
    ofCells_cellsOf fun lexeme hmem => (hfine.isFine lexeme hmem).text_ne_nil, text_cellsOf,
    Nat.zero_add, Bool.not_true]

/-- A row with a single span that is no code is a single piece. -/
theorem eq_singleton_of_spansOf {start : Nat} {span : Span}
    (hne : ∀ lexeme ∈ row, lexeme.text ≠ []) (hspans : spansOf start row = [span])
    (hkind : span.kind ≠ .code) : ∃ lexeme, row = [lexeme] ∧ lexeme.kind = span.kind := by
  have hother := literals_spansOf start row
  have hcode := code_spansOf start row
  rw [hspans] at hother hcode
  have hall : ∀ lexeme ∈ row, lexeme.isCode = false := by
    intro lexeme hmem
    by_contra hlexeme
    have hmem := List.mem_filter.mpr ⟨hmem, Bool.of_not_eq_false hlexeme⟩
    have hnil : textOf (row.filter isCode) = [] := by
      rw [← hcode]
      simp [hkind]
    exact hne lexeme (List.mem_filter.mp hmem).1 (List.flatMap_eq_nil_iff.mp hnil lexeme hmem)
  have hfilter : row.filter (fun lexeme => !lexeme.isCode) = row := by
    apply List.filter_eq_self.mpr
    intro lexeme hmem
    rw [hall lexeme hmem]
    rfl
  rw [hfilter] at hother
  cases row with
  | nil => simp [hkind] at hother
  | cons lexeme row =>
      cases row with
      | cons other row => simp [hkind] at hother
      | nil =>
          refine ⟨lexeme, rfl, ?_⟩
          simp [hkind] at hother
          exact hother.1.symm

end Lexeme

/-- A text that is one span of a literal, closed at its end, is that literal. -/
theorem Text.exists_enclose_of_spans {text : Text} {span : Span} {quote : Quote}
    (hspans : text.spans = [span]) (hkind : span.kind = .quoted quote)
    (hterminated : span.terminated = true) : ∃ content, text = quote.enclose content := by
  obtain ⟨row, tail, hfine, rfl, rfl | ⟨kind, hopen⟩⟩ := Lexeme.exists_fine_append text
  · rw [List.append_nil] at hspans ⊢
    rw [Lexeme.Fine.spans_textOf hfine] at hspans
    obtain ⟨lexeme, rfl, hlexeme⟩ := Lexeme.eq_singleton_of_spansOf
      (fun lexeme hmem => (hfine.isFine lexeme hmem).text_ne_nil) hspans (by simp [hkind])
    rw [hkind] at hlexeme
    cases lexeme with
    | literal other content =>
        obtain rfl : other = quote := SpanKind.quoted.inj hlexeme
        exact ⟨content, by simp [Lexeme.text]⟩
    | word _ | mark _ | lineComment _ | blockComment _ => simp [Lexeme.kind] at hlexeme
  · -- What is left open is no terminated span.
    have hlast := congrArg List.getLast? hspans
    rw [hopen.spans_append hfine, List.getLast?_concat] at hlast
    obtain rfl := Option.some.inj hlast
    exact absurd hterminated Bool.false_ne_true

end SelectForm

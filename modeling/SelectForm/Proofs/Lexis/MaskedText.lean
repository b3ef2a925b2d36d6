import Mathlib
import SelectForm.Proofs.Lexis.MaskedRow
import SelectForm.Proofs.Lexis.RowSpans

/-!
# Masked texts

Spaces in the place of comments could join what stands on both sides of a comment, or end a
literal elsewhere.  They do not: a text falls into a finely cut row and at most one literal or
block comment that is left open, and masking keeps this form, piece by piece.  So what is told
about a masked text by its spans is what the spans of the text tell, with code in the place of
comments.
-/

namespace SelectForm

open Lexeme

/-! ## Spans side by side -/

namespace Span

/-- The byte at an offset of the text belongs to the span. -/
def Covers (span : Span) (offset : Nat) : Prop := span.start ≤ offset ∧ offset < span.stop

instance (span : Span) (offset : Nat) : Decidable (span.Covers offset) :=
  inferInstanceAs (Decidable (_ ∧ _))

/-- Spans that stand side by side, the first of them at the given offset. -/
def Adjacent : Nat → List Span → Prop
  | _, [] => True
  | start, span :: rest => span.start = start ∧ Adjacent span.stop rest

theorem adjacent_ofCells (endsOpen : Bool) (start : Nat) (cells : List Cell) :
    Adjacent start (ofCells endsOpen start cells) := by
  induction cells generalizing start with
  | nil => trivial
  | cons cell rest ih =>
      cases rest with
      | nil => exact ⟨rfl, trivial⟩
      | cons next rest =>
          have hrest := ih (start + cell.char.utf8Size)
          obtain ⟨first, spans, hspans, hcases⟩ := ofCells_cases endsOpen start cell next rest
          rw [hspans] at hrest
          rcases hcases with heq | heq
          · rw [heq]
            exact ⟨rfl, hrest⟩
          · have hstop : stop { first with start := start, text := cell.char :: first.text } =
                first.stop := by
              rw [stop, stop, hrest.1, Text.size_cons, Nat.add_assoc]
            rw [heq]
            exact ⟨rfl, hstop ▸ hrest.2⟩

variable {start offset : Nat} {span : Span} {spans : List Span}

theorem Adjacent.start_le (hadjacent : Adjacent start spans) (hmem : span ∈ spans) :
    start ≤ span.start := by
  induction spans generalizing start with
  | nil => simp at hmem
  | cons first rest ih =>
      obtain ⟨rfl, hrest⟩ := hadjacent
      rcases List.mem_cons.mp hmem with rfl | hmem
      · exact le_rfl
      · exact (Nat.le_add_right _ _).trans (ih hrest hmem)

/-- Something that is made of every span and is as long as the span: at the place of a byte
stands what is made of the span of that byte. -/
theorem Adjacent.getElem?_flatMap {α : Type} {pieces : Span → List α}
    (hadjacent : Adjacent start spans)
    (hlength : ∀ span, (pieces span).length = Text.size span.text) (hmem : span ∈ spans)
    (hcovers : span.Covers offset) :
    (spans.flatMap pieces)[offset - start]? = (pieces span)[offset - span.start]? := by
  induction spans generalizing start with
  | nil => simp at hmem
  | cons first rest ih =>
      obtain ⟨rfl, hrest⟩ := hadjacent
      have hfirst : (pieces first).length + first.start = first.stop := by
        rw [hlength, stop, Nat.add_comm]
      obtain ⟨hstart, hstop⟩ := hcovers
      rw [List.flatMap_cons]
      rcases List.mem_cons.mp hmem with rfl | hmem
      · rw [List.getElem?_append_left (by omega)]
      · have hbehind : first.stop ≤ span.start := hrest.start_le hmem
        have hsub : offset - first.start - (pieces first).length = offset - first.stop := by
          omega
        rw [List.getElem?_append_right (by omega), hsub]
        exact ih hrest hmem

theorem Adjacent.exists_covers (hadjacent : Adjacent start spans) (hstart : start ≤ offset)
    (hstop : offset < start + Text.size (spans.flatMap text)) :
    ∃ span ∈ spans, span.Covers offset := by
  induction spans generalizing start with
  | nil =>
      rw [List.flatMap_nil, Text.size_nil] at hstop
      omega
  | cons first rest ih =>
      obtain ⟨rfl, hrest⟩ := hadjacent
      by_cases hfirst : offset < first.stop
      · exact ⟨first, List.mem_cons_self, hstart, hfirst⟩
      · rw [List.flatMap_cons, Text.size_append, ← Nat.add_assoc] at hstop
        obtain ⟨span, hmem, hcovers⟩ := ih hrest (Nat.le_of_not_lt hfirst) hstop
        exact ⟨span, List.mem_cons_of_mem _ hmem, hcovers⟩

theorem Covers.sub_lt (hcovers : span.Covers offset) :
    offset - span.start < Text.size span.text := by
  obtain ⟨hstart, hstop⟩ := hcovers
  rw [stop] at hstop
  omega

/-- The bytes of a span behind masking. -/
def maskedBytes (span : Span) : List UInt8 :=
  if span.kind.isComment then List.replicate (Text.size span.text) 0x20 else Text.bytes span.text

theorem length_maskedBytes (span : Span) : span.maskedBytes.length = Text.size span.text := by
  rw [maskedBytes]
  split
  · exact List.length_replicate
  · exact Text.length_bytes span.text

end Span

/-! ## What is made of a text by the kinds of its characters -/

namespace Lexeme

variable {α : Type} (pick : SpanKind → Char → List α)

theorem flatMap_cells (fresh : Bool) (lexeme : Lexeme) :
    (lexeme.cells fresh).flatMap (fun cell => pick cell.kind cell.char) =
      lexeme.text.flatMap (pick lexeme.kind) := by
  rw [cells]
  cases lexeme.text with
  | nil => rfl
  | cons c rest => rw [List.flatMap_cons, List.flatMap_cons, List.flatMap_map]

theorem flatMap_cellsOf (fresh : Bool) (row : List Lexeme) :
    (cellsOf fresh row).flatMap (fun cell => pick cell.kind cell.char) =
      row.flatMap fun lexeme => lexeme.text.flatMap (pick lexeme.kind) := by
  induction row generalizing fresh with
  | nil => rfl
  | cons lexeme row ih =>
      rw [cellsOf_cons, List.flatMap_append, flatMap_cells, ih, List.flatMap_cons]

theorem flatMap_spansOf (start : Nat) (row : List Lexeme) :
    (spansOf start row).flatMap (fun span => span.text.flatMap (pick span.kind)) =
      row.flatMap fun lexeme => lexeme.text.flatMap (pick lexeme.kind) := by
  induction row generalizing start with
  | nil => rfl
  | cons lexeme row ih =>
      have hrest := ih (start + Text.size lexeme.text)
      rw [List.flatMap_cons, ← hrest]
      rcases spansOf_cons_cases start lexeme row with
        hown | ⟨first, spans, hspans, hlexeme, hfirst, hshared⟩
      · rw [hown, List.flatMap_cons]
      · rw [hshared, hspans, List.flatMap_cons, List.flatMap_cons, List.flatMap_append, hlexeme,
          hfirst, List.append_assoc]


end Lexeme

namespace Text

/-- The characters of the spans are the characters of the cells, with the same kinds. -/
theorem flatMap_spans {α : Type} (pick : SpanKind → Char → List α) (text : Text) :
    text.spans.flatMap (fun span => span.text.flatMap (pick span.kind)) =
      text.cells.flatMap fun cell => pick cell.kind cell.char := by
  obtain ⟨row, tail, hfine, rfl, rfl | ⟨kind, hopen⟩⟩ := exists_fine_append text
  · have hclosed : Fine none row := hfine
    rw [List.append_nil, hclosed.spans_textOf, hclosed.cells_textOf, flatMap_cellsOf,
      flatMap_spansOf]
  · obtain ⟨c, rest, rfl, hcells⟩ := hopen.exists_cells
    rw [hopen.spans_append hfine, (hopen.cells_append hfine).1, hcells, List.flatMap_append,
      List.flatMap_append, flatMap_cellsOf, flatMap_spansOf]
    simp [List.flatMap_map]

theorem flatMap_replicate_utf8Size {α : Type} (entry : α) (text : Text) :
    (text.flatMap fun c => List.replicate c.utf8Size entry) =
      List.replicate (size text) entry := by
  induction text with
  | nil => rfl
  | cons c text ih => rw [List.flatMap_cons, ih, size_cons, List.replicate_append_replicate]

theorem size_spaces (count : Nat) : size (List.replicate count ' ') = count := by
  induction count with
  | zero => rfl
  | succ count ih =>
      have hspace : (' ' : Char).utf8Size = 1 := by decide
      rw [List.replicate_succ, size_cons, ih, hspace, Nat.add_comm]

theorem bytes_spaces (count : Nat) :
    bytes (List.replicate count ' ') = List.replicate count 0x20 := by
  induction count with
  | zero => rfl
  | succ count ih =>
      have hspace : String.utf8EncodeChar ' ' = [0x20] := by decide
      rw [bytes] at ih ⊢
      rw [List.replicate_succ, List.flatMap_cons, ih, hspace]
      rfl

theorem flatMap_text_spans (text : Text) : text.spans.flatMap Span.text = text := by
  have hcells := flatMap_spans (fun _ c => [c]) text
  simp only [List.flatMap_singleton'] at hcells
  have hchars : text.cells.flatMap (fun cell => [cell.char]) = Cell.text text.cells :=
    List.map_eq_flatMap.symm
  rw [hcells, hchars, cells, Mode.text_cells]

theorem maskComments_eq_flatMap (text : Text) :
    text.maskComments = text.spans.flatMap fun span =>
      if span.kind.isComment then List.replicate (size span.text) ' ' else span.text := by
  rw [maskComments, ← flatMap_spans fun kind c =>
    if kind.isComment then List.replicate c.utf8Size ' ' else [c]]
  refine List.flatMap_congr fun span _ => ?_
  split
  · exact flatMap_replicate_utf8Size ' ' span.text
  · exact List.flatMap_singleton' span.text

theorem codeMask_eq_flatMap (text : Text) :
    text.codeMask = text.spans.flatMap fun span =>
      List.replicate (size span.text) (span.kind == .code) := by
  have hcells := flatMap_spans (fun kind c => List.replicate c.utf8Size (kind == .code)) text
  have hcode : text.codeMask =
      text.cells.flatMap fun cell => List.replicate cell.char.utf8Size (cell.kind == .code) := rfl
  rw [hcode, ← hcells]
  exact List.flatMap_congr fun span _ => flatMap_replicate_utf8Size _ span.text

theorem bytes_maskComments (text : Text) :
    bytes text.maskComments = text.spans.flatMap Span.maskedBytes := by
  rw [maskComments_eq_flatMap, bytes, List.flatMap_assoc]
  refine List.flatMap_congr fun span _ => ?_
  rw [Span.maskedBytes, ← bytes_spaces]
  split <;> rfl

theorem length_flatMap_spans {α : Type} {pieces : Span → List α}
    (hlength : ∀ span, (pieces span).length = size span.text) (text : Text) :
    (text.spans.flatMap pieces).length = size text := by
  have hspans : ∀ spans : List Span,
      (spans.flatMap pieces).length = size (spans.flatMap Span.text) := by
    intro spans
    induction spans with
    | nil => rfl
    | cons span spans ih =>
        rw [List.flatMap_cons, List.flatMap_cons, List.length_append, size_append, ih, hlength]
  rw [hspans, flatMap_text_spans]

theorem size_maskComments (text : Text) : size text.maskComments = size text := by
  rw [← length_bytes, bytes_maskComments, length_flatMap_spans Span.length_maskedBytes]

theorem length_codeMask (text : Text) : text.codeMask.length = size text := by
  rw [codeMask_eq_flatMap, length_flatMap_spans fun _ => List.length_replicate]

end Text

/-! ## The spans of a masked text -/

/-- The kinds of literals. -/
def SpanKind.isLiteral : SpanKind → Bool
  | .quoted _ => true
  | _ => false

namespace Lexeme

variable {row : List Lexeme}

/-- The spans of the literals of a row. -/
def literalSpans (start : Nat) : List Lexeme → List Span
  | [] => []
  | lexeme :: rest =>
    (if lexeme.kind.isLiteral then [⟨lexeme.kind, start, lexeme.text, true⟩] else []) ++
      literalSpans (start + Text.size lexeme.text) rest

theorem filter_spansOf (start : Nat) (row : List Lexeme) :
    (spansOf start row).filter (fun span => span.kind.isLiteral) = literalSpans start row := by
  induction row generalizing start with
  | nil => rfl
  | cons lexeme row ih =>
      have hrest := ih (start + Text.size lexeme.text)
      rw [literalSpans, ← hrest]
      rcases spansOf_cons_cases start lexeme row with
        hown | ⟨first, spans, hspans, hlexeme, hfirst, hshared⟩
      · rw [hown, List.filter_cons]
        split <;> rfl
      · rw [hshared, hspans, List.filter_cons, List.filter_cons, hlexeme, hfirst]
        rfl

theorem literalSpans_append (start : Nat) (first second : List Lexeme) :
    literalSpans start (first ++ second) =
      literalSpans start first ++ literalSpans (start + Text.size (textOf first)) second := by
  induction first generalizing start with
  | nil => rfl
  | cons lexeme first ih =>
      rw [List.cons_append, literalSpans, literalSpans, ih, List.append_assoc, textOf_cons,
        Text.size_append, Nat.add_assoc]

theorem literalSpans_marks (start : Nat) (text : Text) : literalSpans start (marks text) = [] := by
  induction text generalizing start with
  | nil => rfl
  | cons c text ih => exact ih _

theorem size_cover (lexeme : Lexeme) :
    Text.size (textOf (cover lexeme)) = Text.size lexeme.text := by
  rw [textOf_cover, masked]
  split
  · exact Text.size_spaces _
  · rfl

theorem literalSpans_covered (start : Nat) (row : List Lexeme) :
    literalSpans start (covered row) = literalSpans start row := by
  induction row generalizing start with
  | nil => rfl
  | cons lexeme row ih =>
      rw [covered, List.flatMap_cons, literalSpans_append, size_cover, literalSpans, ← covered, ih]
      congr 1
      cases lexeme with
      | lineComment _ | blockComment _ => exact literalSpans_marks _ _
      | word _ | mark _ | literal _ _ => rfl

theorem size_textOf_covered (row : List Lexeme) :
    Text.size (textOf (covered row)) = Text.size (textOf row) := by
  induction row with
  | nil => rfl
  | cons lexeme row ih =>
      rw [covered, List.flatMap_cons, textOf_append, textOf_cons, Text.size_append,
        Text.size_append, size_cover, ← covered, ih]

theorem Atomic.isComment_spansOf (hatomic : Atomic row) (start : Nat) :
    ∀ span ∈ spansOf start row, span.kind.isComment = false := by
  intro span hmem
  obtain ⟨lexeme, hlexeme, hkind⟩ := kind_of_mem_spansOf hmem
  have hatom := hatomic lexeme hlexeme
  rw [← hkind]
  cases lexeme with
  | mark _ | literal _ _ => rfl
  | word _ | lineComment _ | blockComment _ => exact hatom.elim

/-- Masking a text masks its row, and what is left open if it is a comment. -/
theorem maskComments_append {kind : SpanKind} {tail : Text} (hopen : LeftOpen kind tail)
    (hfine : Fine tail.head? row) :
    (textOf row ++ tail).maskComments = textOf (covered row) ++
      if kind.isComment then List.replicate (Text.size tail) ' ' else tail := by
  obtain ⟨c, rest, rfl, hcells⟩ := hopen.exists_cells
  have htail : (Text.cells (c :: rest)).flatMap maskedCell =
      if kind.isComment then List.replicate (Text.size (c :: rest)) ' ' else c :: rest := by
    have hkind : ∀ cell ∈ Text.cells (c :: rest), cell.kind = kind := by
      rw [hcells]
      simp
    rw [flatMap_maskedCell hkind, Text.cells, Mode.text_cells]
  rw [Text.maskComments, (hopen.cells_append hfine).1, List.flatMap_append, textOf_covered,
    ← flatMap_maskedCell_cellsOf true row, ← htail]
  rfl

end Lexeme

namespace Text

/-- Behind masking no comment is left, and the literals stand where they stood. -/
theorem spans_maskComments (text : Text) :
    (∀ span ∈ text.maskComments.spans, span.kind.isComment = false) ∧
      text.maskComments.spans.filter (fun span => span.kind.isLiteral) =
        text.spans.filter fun span => span.kind.isLiteral := by
  obtain ⟨row, tail, hfine, rfl, rfl | ⟨kind, hopen⟩⟩ := exists_fine_append text
  · have hclosed : Fine none row := hfine
    have hsound := hclosed.sound_covered
    rw [List.append_nil, hclosed.maskComments_textOf, hsound.fine.spans_textOf,
      hclosed.spans_textOf, filter_spansOf, filter_spansOf, literalSpans_covered]
    exact ⟨hsound.atomic.isComment_spansOf 0, rfl⟩
  · have hatomic := atomic_covered hfine.isFine
    rw [maskComments_append hopen hfine, hopen.spans_append hfine, List.filter_append,
      filter_spansOf]
    cases hcomment : kind.isComment with
    | true =>
        -- The spaces in the place of the comment are read one by one.
        have hspaces : Fine none (marks (List.replicate (size tail) ' ')) := by
          generalize size tail = count
          induction count with
          | zero => trivial
          | succ count ih => exact ⟨rfl, by simp [EndsBefore], ih⟩
        have hhead : (textOf (marks (List.replicate (size tail) ' '))).head?.or none = some ' ' := by
          obtain ⟨c, rest, rfl, -⟩ := hopen.exists_cells
          obtain ⟨count, hcount⟩ := Nat.exists_eq_succ_of_ne_zero
            (Nat.add_pos_left c.utf8Size_pos (size rest)).ne'
          rw [size_cons, hcount, textOf_marks]
          rfl
        have hrow : Fine none (covered row ++ marks (List.replicate (size tail) ' ')) :=
          Fine.append_iff.mpr ⟨hhead ▸ hfine.fine_covered (.inr rfl), hspaces⟩
        have hliteral : kind.isLiteral = false := by
          cases kind with
          | quoted _ => simp [SpanKind.isComment] at hcomment
          | code | lineComment | blockComment => rfl
        have htext : textOf (covered row) ++ List.replicate (size tail) ' ' =
            textOf (covered row ++ marks (List.replicate (size tail) ' ')) := by
          rw [textOf_append, textOf_marks]
        rw [if_pos rfl, htext, hrow.spans_textOf, filter_spansOf, literalSpans_append,
          literalSpans_covered, literalSpans_marks]
        refine ⟨(atomic_append.mpr ⟨hatomic, atomic_marks _⟩).isComment_spansOf 0, ?_⟩
        simp [hliteral]
    | false =>
        rw [if_neg Bool.false_ne_true, hopen.spans_append (hfine.fine_covered (.inl rfl)),
          List.filter_append, filter_spansOf, literalSpans_covered, size_textOf_covered]
        refine ⟨List.forall_mem_append.mpr ⟨hatomic.isComment_spansOf 0, ?_⟩, rfl⟩
        exact List.forall_mem_singleton.mpr hcomment

variable {text : Text} {span : Span} {offset : Nat}

theorem adjacent_spans (text : Text) : Span.Adjacent 0 text.spans :=
  Span.adjacent_ofCells _ _ _

theorem exists_covers (hoffset : offset < size text) :
    ∃ span ∈ text.spans, span.Covers offset := by
  refine text.adjacent_spans.exists_covers (Nat.zero_le _) ?_
  rwa [flatMap_text_spans, Nat.zero_add]

/-- What is made of the spans of a text, at the place of a byte. -/
theorem getElem?_flatMap_spans {α : Type} {pieces : Span → List α}
    (hlength : ∀ span, (pieces span).length = size span.text) (hmem : span ∈ text.spans)
    (hcovers : span.Covers offset) :
    (text.spans.flatMap pieces)[offset]? = (pieces span)[offset - span.start]? :=
  text.adjacent_spans.getElem?_flatMap hlength hmem hcovers

theorem getElem?_codeMask (hmem : span ∈ text.spans) (hcovers : span.Covers offset) :
    text.codeMask[offset]? = some (span.kind == .code) := by
  rw [codeMask_eq_flatMap, getElem?_flatMap_spans (fun _ => List.length_replicate) hmem hcovers,
    List.getElem?_replicate, if_pos hcovers.sub_lt]

theorem byteAt?_eq (hmem : span ∈ text.spans) (hcovers : span.Covers offset) :
    text.byteAt? offset = (bytes span.text)[offset - span.start]? := by
  have hbytes : bytes text = text.spans.flatMap fun span => bytes span.text := by
    conv_lhs => rw [← flatMap_text_spans text, bytes, List.flatMap_assoc]
    rfl
  rw [byteAt?, hbytes, getElem?_flatMap_spans (fun span => length_bytes span.text) hmem hcovers]

theorem exists_byteAt? {byte : UInt8} (hmem : span ∈ text.spans) (hbyte : byte ∈ bytes span.text) :
    ∃ offset, span.Covers offset ∧ text.byteAt? offset = some byte := by
  obtain ⟨place, hplace, hget⟩ := List.mem_iff_getElem.mp hbyte
  have hcovers : span.Covers (span.start + place) := by
    rw [length_bytes] at hplace
    exact ⟨Nat.le_add_right _ _, Nat.add_lt_add_left hplace _⟩
  refine ⟨_, hcovers, ?_⟩
  rw [byteAt?_eq hmem hcovers, Nat.add_sub_cancel_left]
  exact List.getElem?_eq_some_iff.mpr ⟨hplace, hget⟩

theorem byteAt?_maskComments (hmem : span ∈ text.spans) (hcovers : span.Covers offset) :
    text.maskComments.byteAt? offset =
      if span.kind.isComment then some 0x20 else text.byteAt? offset := by
  rw [byteAt?, bytes_maskComments, getElem?_flatMap_spans Span.length_maskedBytes hmem hcovers,
    Span.maskedBytes]
  split
  · rw [List.getElem?_replicate, if_pos hcovers.sub_lt]
  · exact (byteAt?_eq hmem hcovers).symm

theorem eq_of_covers {other : Span} (hmem : span ∈ text.spans) (hother : other ∈ text.spans)
    (hcovers : span.Covers offset) (hothers : other.Covers offset) : span = other := by
  have hpiece : ∀ {span : Span}, span ∈ text.spans → span.Covers offset →
      (text.spans.flatMap fun span => List.replicate (size span.text) span)[offset]? =
        some span := by
    intro span hmem hcovers
    rw [getElem?_flatMap_spans (fun _ => List.length_replicate) hmem hcovers,
      List.getElem?_replicate, if_pos hcovers.sub_lt]
  exact Option.some.inj ((hpiece hmem hcovers).symm.trans (hpiece hother hothers))

theorem lt_size_of_covers (hmem : span ∈ text.spans) (hcovers : span.Covers offset) :
    offset < size text := by
  rw [← length_codeMask]
  exact (List.getElem?_eq_some_iff.mp (getElem?_codeMask hmem hcovers)).1

/-- The bytes of code of a masked text are those of the code and of the comments of the
text. -/
theorem getElem?_codeMask_maskComments (text : Text) (offset : Nat) :
    text.maskComments.codeMask[offset]? = some true ↔
      ∃ span ∈ text.spans, (span.kind = .code ∨ span.kind.isComment = true) ∧
        span.Covers offset := by
  obtain ⟨hcomments, hliterals⟩ := text.spans_maskComments
  have hliteral : ∀ span : Span, span.kind.isLiteral = true →
      (span ∈ text.maskComments.spans ↔ span ∈ text.spans) := by
    intro span hkind
    have hmem : span ∈ text.maskComments.spans.filter (fun span => span.kind.isLiteral) ↔
        span ∈ text.spans.filter fun span => span.kind.isLiteral := by rw [hliterals]
    rwa [List.mem_filter, List.mem_filter, and_iff_left hkind, and_iff_left hkind] at hmem
  constructor
  · intro hcode
    have hoffset : offset < size text := by
      rw [← size_maskComments, ← length_codeMask]
      exact (List.getElem?_eq_some_iff.mp hcode).1
    obtain ⟨span, hmem, hcovers⟩ := exists_covers hoffset
    refine ⟨span, hmem, ?_, hcovers⟩
    cases hkind : span.kind with
    | code => exact .inl rfl
    | lineComment | blockComment => exact .inr rfl
    | quoted quote =>
        have hmasked := (hliteral span (by rw [hkind]; rfl)).mpr hmem
        rw [getElem?_codeMask hmasked hcovers, hkind] at hcode
        exact absurd hcode (by simp)
  · rintro ⟨span, hmem, hkind, hcovers⟩
    have hoffset : offset < size text.maskComments := by
      rw [size_maskComments]
      exact lt_size_of_covers hmem hcovers
    obtain ⟨other, hother, hothers⟩ := exists_covers hoffset
    rw [getElem?_codeMask hother hothers]
    cases hotherKind : other.kind with
    | code => rfl
    | lineComment | blockComment =>
        have hnone := hcomments other hother
        rw [hotherKind] at hnone
        exact absurd hnone (by decide)
    | quoted quote =>
        have hsame := eq_of_covers hmem ((hliteral other (by rw [hotherKind]; rfl)).mp hother)
          hcovers hothers
        rw [hsame, hotherKind] at hkind
        exact absurd hkind (by simp [SpanKind.isComment])

theorem maskComments_eq_self (hcomments : ∀ span ∈ text.spans, span.kind.isComment = false) :
    text.maskComments = text := by
  have hspans : text.maskComments = text.spans.flatMap Span.text := by
    rw [maskComments_eq_flatMap]
    refine List.flatMap_congr fun span hmem => if_neg ?_
    rw [hcomments span hmem]
    exact Bool.false_ne_true
  rw [hspans, flatMap_text_spans]

/-- Masking puts spaces in the place of comments and changes nothing else: the bytes outside
comments and the spans of the literals stay, no comment is left, what was code or a comment is
code, and there is nothing more to mask. -/
theorem maskComments_keeps_rest (text : Text) :
    size text.maskComments = size text ∧
      (∀ offset, text.maskComments.byteAt? offset =
        if ∃ span ∈ text.spans, span.kind.isComment = true ∧ span.Covers offset then some 0x20
        else text.byteAt? offset) ∧
      (∀ span ∈ text.maskComments.spans, span.kind.isComment = false) ∧
      text.maskComments.spans.filter (fun span => span.kind.isLiteral) =
        text.spans.filter (fun span => span.kind.isLiteral) ∧
      text.maskComments.codeMask.length = size text ∧
      (∀ offset, text.maskComments.codeMask[offset]? = some true ↔
        ∃ span ∈ text.spans, (span.kind = .code ∨ span.kind.isComment = true) ∧
          span.Covers offset) ∧
      text.maskComments.maskComments = text.maskComments := by
  obtain ⟨hcomments, hliterals⟩ := text.spans_maskComments
  refine ⟨text.size_maskComments, fun offset => ?_, hcomments, hliterals, ?_,
    text.getElem?_codeMask_maskComments, maskComments_eq_self hcomments⟩
  · split
    next hcomment =>
      obtain ⟨span, hmem, hkind, hcovers⟩ := hcomment
      rw [byteAt?_maskComments hmem hcovers, if_pos hkind]
    next hnone =>
      by_cases hoffset : offset < size text
      · obtain ⟨span, hmem, hcovers⟩ := exists_covers hoffset
        rw [byteAt?_maskComments hmem hcovers]
        exact if_neg fun hkind => hnone ⟨span, hmem, hkind, hcovers⟩
      · rw [byteAt?, byteAt?, List.getElem?_eq_none, List.getElem?_eq_none]
        · rw [length_bytes]
          exact Nat.le_of_not_lt hoffset
        · rw [length_bytes, size_maskComments]
          exact Nat.le_of_not_lt hoffset
  · rw [length_codeMask, size_maskComments]

/-- A comment between two hyphens, and a literal that is left open. -/
example :
    String.ofList (maskComments "a-/*'é*/-b '--".toList) = "a-       -b '--" := by
  decide +kernel

end Text

end SelectForm

import Mathlib
import SelectForm.Proofs.Lexis.MaskedText
import SelectForm.Proofs.Lexis.PhrasePlaces
import SelectForm.Proofs.Lexis.Recut

/-!
# Scanning the parts of a text

Each reader scans the part that it is given from the beginning, and still finds the classes that
the characters have in the whole statement, because statements are cut at code.  Behind the place of
a code character nothing is pending: what is read there is read as it is at a beginning.  And no
character in front of it was read together with it, for a quotation mark, a hyphen, a slash or a star
that a text is read together with belongs to a literal or a comment.
-/

namespace SelectForm

/-! ## Cuts at code -/

namespace Mode

variable {mode : Mode} {text : Text}

theorem text_run (next : Option Char) (mode : Mode) (text : Text) :
    Cell.text (mode.run next text).1 = text := by
  induction text generalizing mode with
  | nil => rfl
  | cons c rest ih =>
      have hrest := ih (mode.step c (rest.head?.or next)).2
      rw [Cell.text] at hrest ⊢
      rw [run_cons, List.map_cons, char_step, hrest]

/-- Where code stands, the character in front of it is read without looking at it. -/
theorem step_before_code {c d : Char} {next : Option Char}
    (hcode : ((mode.step c (some d)).2.step d next).1.isCode = true) :
    mode.step c (some d) = mode.step c none := by
  have henter : ∀ fresh, ((enter fresh c (some d)).2.step d next).1.isCode = true →
      enter fresh c (some d) = enter fresh c none := by
    intro fresh hcode
    unfold enter at hcode ⊢
    cases hquote : Quote.ofChar? c with
    | some quote => rfl
    | none =>
        simp only [hquote] at hcode ⊢
        split at hcode
        · rename_i hdash
          obtain rfl := Option.some.inj hdash.2
          exact absurd hcode (by simp [step, Cell.isCode])
        · split at hcode
          · exact absurd hcode (by simp [step, Cell.isCode])
          · rename_i hdash hslash
            rw [if_neg hdash, if_neg hslash]
            simp
  cases mode with
  | between => exact henter true hcode
  | code => exact henter false hcode
  | quoted quote =>
      have hne : d ≠ quote.char ∨ c ≠ quote.char := by
        by_contra hboth
        simp only [not_or, not_not] at hboth
        simp [step, hboth.1, hboth.2, Cell.isCode] at hcode
      rcases hne with hne | hne <;> simp [step, hne]
  | block =>
      have hne : d ≠ '/' ∨ c ≠ '*' := by
        by_contra hboth
        simp only [not_or, not_not] at hboth
        simp [step, hboth.1, hboth.2, Cell.isCode] at hcode
      rcases hne with hne | hne <;> simp [step, hne]
  | doubled _ | line | blockHead | blockTail => rfl

/-- In front of code a text is read as it is at its end. -/
theorem run_before_code {d : Char} {next : Option Char}
    (hcode : ((mode.run (some d) text).2.step d next).1.isCode = true) :
    mode.run (some d) text = mode.run none text := by
  induction text generalizing mode with
  | nil => rfl
  | cons c rest ih =>
      rw [run_cons] at hcode
      rw [run_cons, run_cons, ih hcode]
      cases rest with
      | cons e rest => rfl
      | nil =>
          rw [List.head?_nil, Option.none_or] at hcode
          rw [List.head?_nil, Option.none_or, Option.none_or, step_before_code hcode]

/-- From code on a text is read as it is at its beginning. -/
theorem faces_of_code {c : Char} (hcode : (mode.step c text.head?).1.isCode = true) :
    (mode.cells (c :: text)).map Cell.face = (Text.cells (c :: text)).map Cell.face := by
  cases mode with
  | between => rfl
  | code => exact faces_eq (.inr rfl) (c :: text)
  | line =>
      obtain rfl : c = '\n' := by
        by_contra hline
        simp [step, hline, Cell.isCode] at hcode
      rfl
  | quoted _ | doubled _ | blockHead | block | blockTail =>
      exact absurd hcode (by simp [step, Cell.isCode])

end Mode

theorem Cell.mask_congr {cells cells' : List Cell} (hfaces : cells.map face = cells'.map face) :
    mask cells = mask cells' := by
  have hmask : ∀ cells, mask cells = (cells.map face).flatMap fun face =>
      List.replicate face.1.utf8Size (face.2 == .code) := by
    intro cells
    rw [List.flatMap_map]
    rfl
  rw [hmask, hmask, hfaces]

namespace Text

/-- A byte that belongs to a span of code. -/
def CodeAt (text : Text) (place : Nat) : Prop :=
  ∃ span ∈ text.spans, span.kind = .code ∧ span.Covers place

variable {text front back : Text} {place : Nat}

theorem codeAt_iff : text.CodeAt place ↔ text.codeMask[place]? = some true := by
  constructor
  · rintro ⟨span, hmem, hkind, hcovers⟩
    rw [getElem?_codeMask hmem hcovers, hkind]
    rfl
  · intro hmask
    have hplace : place < size text := by
      rw [← length_codeMask]
      exact (List.getElem?_eq_some_iff.mp hmask).1
    obtain ⟨span, hmem, hcovers⟩ := exists_covers hplace
    rw [getElem?_codeMask hmem hcovers] at hmask
    exact ⟨span, hmem, by simpa using hmask, hcovers⟩

/-- The characters of a text that is cut at code have the same classes in the part where they
stand. -/
theorem faces_append (hcode : CodeAt (front ++ back) (size front)) :
    (cells (front ++ back)).map Cell.face =
      front.cells.map Cell.face ++ back.cells.map Cell.face := by
  cases back with
  | nil =>
      rw [List.append_nil]
      exact (List.append_nil _).symm
  | cons c rest =>
      have hrun := @Mode.run_append none .between front (c :: rest)
      rw [List.head?_cons, Option.some_or, Mode.run_none, Mode.run_none, Prod.mk.injEq] at hrun
      have hcells : cells (front ++ c :: rest) = (Mode.between.run (some c) front).1 ++
          (Mode.between.run (some c) front).2.cells (c :: rest) := hrun.1
      have hfirst : ((Mode.between.run (some c) front).2.step c rest.head?).1.isCode = true := by
        have hmask : codeMask (front ++ c :: rest) = Cell.mask (cells (front ++ c :: rest)) := rfl
        have hplace := Cell.getElem?_mask (Mode.between.run (some c) front).1
          (((Mode.between.run (some c) front).2.step c rest.head?).2.cells rest)
          ((Mode.between.run (some c) front).2.step c rest.head?).1
        rw [codeAt_iff, hmask, hcells, Mode.cells] at hcode
        rw [Mode.text_run] at hplace
        exact Option.some.inj (hplace.symm.trans hcode)
      rw [hcells, List.map_append, Mode.faces_of_code hfirst, Mode.run_before_code hfirst,
        Mode.run_none]
      rfl

/-- So the code mask of a text that is cut at code is that of its parts. -/
theorem codeMask_append (hcode : CodeAt (front ++ back) (size front)) :
    codeMask (front ++ back) = codeMask front ++ codeMask back := by
  have hfaces : (front ++ back).cells.map Cell.face =
      (front.cells ++ back.cells).map Cell.face :=
    (faces_append hcode).trans List.map_append.symm
  have hmask := Cell.mask_congr hfaces
  rwa [Cell.mask_append] at hmask

end Text

/-! ## Neighbours -/

/-- Two neighbouring spans are not both code. -/
def Span.Alternate (spans : List Span) : Prop :=
  spans.IsChain fun one other => ¬ (one.kind = .code ∧ other.kind = .code)

theorem Lexeme.alternate_spansOf (start : Nat) (row : List Lexeme) :
    Span.Alternate (spansOf start row) := by
  induction row generalizing start with
  | nil => exact .nil
  | cons lexeme rest ih =>
      have hrest := ih (start + Text.size lexeme.text)
      have hhead := head?_spansOf (start + Text.size lexeme.text) rest
      rw [spansOf]
      cases hspans : spansOf (start + Text.size lexeme.text) rest with
      | nil => exact .singleton _
      | cons span spans =>
          rw [hspans] at hrest hhead
          rw [Span.join]
          split
          · -- The first span grows, its kind stays.
            cases spans with
            | nil => exact .singleton _
            | cons next spans =>
                obtain ⟨hfirst, hothers⟩ := List.isChain_cons_cons.mp hrest
                exact List.isChain_cons_cons.mpr ⟨hfirst, hothers⟩
          · rename_i hjoins
            refine List.isChain_cons_cons.mpr ⟨fun hcode => hjoins ?_, hrest⟩
            obtain ⟨hkind, hspan⟩ := hcode
            cases rest with
            | nil => simp at hhead
            | cons next rest =>
                have hnext : next.kind = .code := by simpa [hspan] using hhead.symm
                simp only at hkind
                simp [isCode, hkind, hnext]

namespace Span

variable {start : Nat} {cells : List Cell} {spans : List Span}

theorem text_ne_nil_of_mem {endsOpen : Bool} {span : Span}
    (hmem : span ∈ ofCells endsOpen start cells) : span.text ≠ [] := by
  induction cells generalizing start span with
  | nil => simp [ofCells] at hmem
  | cons cell rest ih =>
      cases rest with
      | nil =>
          rw [List.mem_singleton.mp hmem]
          exact List.cons_ne_nil _ _
      | cons next rest =>
          obtain ⟨first, spans, hspans, hcases⟩ := ofCells_cases endsOpen start cell next rest
          have hrest := fun span => @ih (start + cell.char.utf8Size) span
          rw [hspans] at hrest
          rcases hcases with hcases | hcases
          · rw [hcases] at hmem
            rcases List.mem_cons.mp hmem with rfl | hmem
            · exact List.cons_ne_nil _ _
            · exact hrest span hmem
          · rw [hcases] at hmem
            rcases List.mem_cons.mp hmem with rfl | hmem
            · exact List.cons_ne_nil _ _
            · exact hrest span (List.mem_cons_of_mem _ hmem)

theorem Adjacent.stop_getLast? (hadjacent : Adjacent start spans) :
    (spans.getLast?.map stop).getD start = start + Text.size (spans.flatMap text) := by
  induction spans generalizing start with
  | nil => rfl
  | cons span spans ih =>
      obtain ⟨rfl, hspans⟩ := hadjacent
      have hlast := ih hspans
      rw [List.flatMap_cons, Text.size_append, ← Nat.add_assoc, ← stop, ← hlast]
      cases spans with
      | nil => rfl
      | cons next spans =>
          rw [List.getLast?_cons_cons, List.getLast?_eq_some_getLast (List.cons_ne_nil _ _)]
          rfl

end Span

namespace Text

open Lexeme

/-- The spans of a text are those of a row, and behind them is at most one literal or comment that
is left open. -/
theorem exists_spansOf (text : Text) :
    ∃ row behind, text.spans = spansOf 0 row ++ behind ∧
      (behind = [] ∨ ∃ span : Span, behind = [span] ∧ span.kind ≠ .code) := by
  obtain ⟨row, tail, hfine, rfl, rfl | ⟨kind, hopen⟩⟩ := exists_fine_append text
  · have hclosed : Fine none row := hfine
    exact ⟨row, [], by rw [List.append_nil, List.append_nil, hclosed.spans_textOf], .inl rfl⟩
  · exact ⟨row, _, hopen.spans_append hfine, .inr ⟨_, rfl, hopen.kind_ne⟩⟩

theorem alternate_spans (text : Text) : Span.Alternate text.spans := by
  obtain ⟨row, behind, hspans, rfl | ⟨span, rfl, hkind⟩⟩ := exists_spansOf text
  · rw [hspans, List.append_nil]
    exact alternate_spansOf 0 row
  · rw [hspans]
    refine List.isChain_append.mpr ⟨alternate_spansOf 0 row, .singleton _, ?_⟩
    rintro one - other hother ⟨-, hcode⟩
    obtain rfl : span = other := by simpa using hother
    exact hkind hcode

theorem terminated_of_mem_dropLast (text : Text) :
    ∀ span ∈ text.spans.dropLast, span.terminated = true := by
  obtain ⟨row, behind, hspans, rfl | ⟨span, rfl, -⟩⟩ := exists_spansOf text
  · rw [hspans, List.append_nil]
    exact fun span hmem => terminated_spansOf 0 row span (List.mem_of_mem_dropLast hmem)
  · rw [hspans, List.dropLast_concat]
    exact terminated_spansOf 0 row

/-! ## Parts -/

/-- A part of a text is cut out at code if each of its two ends is an end of the text or a place
where code stands. -/
theorem codeMask_middle {text front middle back : Text} (htext : text = front ++ (middle ++ back))
    (hfront : front = [] ∨ text.CodeAt (size front))
    (hback : back = [] ∨ text.CodeAt (size (front ++ middle))) :
    text.codeMask = front.codeMask ++ (middle.codeMask ++ back.codeMask) := by
  rw [← List.append_assoc] at htext
  subst htext
  have hlast : codeMask (front ++ middle ++ back) =
      codeMask (front ++ middle) ++ codeMask back := by
    rcases hback with rfl | hback
    · rw [List.append_nil]
      exact (List.append_nil _).symm
    · exact codeMask_append hback
  have hfirst : codeMask (front ++ middle) = codeMask front ++ codeMask middle := by
    rcases hfront with rfl | hfront
    · rfl
    · cases middle with
      | nil =>
          rw [List.append_nil]
          exact (List.append_nil _).symm
      | cons c middle =>
          have hpos := c.utf8Size_pos
          refine codeMask_append (codeAt_iff.mpr ?_)
          rw [codeAt_iff, hlast, List.getElem?_append_left] at hfront
          · exact hfront
          · rw [length_codeMask, size_append, size_cons]
            omega
  rw [hlast, hfirst, List.append_assoc]

/-- The spans of a text are not empty, stand side by side, cover the text and alternate between
code and other classes, and at most the last one is not terminated.  A text that is cut where code
stands is scanned part by part as it is as a whole, and so is a part that is cut out of it there. -/
theorem scan_composes (text : Text) :
    (∀ span ∈ text.spans, span.text ≠ []) ∧
      Span.Adjacent 0 text.spans ∧
      (text.spans.getLast?.map Span.stop).getD 0 = size text ∧
      text.spans.flatMap Span.text = text ∧
      text.spans.IsChain (fun one other => ¬ (one.kind = .code ∧ other.kind = .code)) ∧
      (∀ span ∈ text.spans.dropLast, span.terminated = true) ∧
      (∀ front back, text = front ++ back → text.CodeAt (size front) →
        front.codeMask ++ back.codeMask = text.codeMask) ∧
      ∀ front middle back, text = front ++ (middle ++ back) →
        (front = [] ∨ text.CodeAt (size front)) →
        (back = [] ∨ text.CodeAt (size (front ++ middle))) →
        middle.codeMask = (text.codeMask.drop (size front)).take (size middle) := by
  refine ⟨fun span => Span.text_ne_nil_of_mem, adjacent_spans text, ?_, flatMap_text_spans text,
    alternate_spans text, terminated_of_mem_dropLast text, ?_, ?_⟩
  · rw [text.adjacent_spans.stop_getLast?, flatMap_text_spans, Nat.zero_add]
  · rintro front back rfl hcode
    exact (codeMask_append hcode).symm
  · intro front middle back htext hfront hback
    rw [codeMask_middle htext hfront hback, List.drop_left' (length_codeMask front),
      List.take_left' (length_codeMask middle)]

/-- A part between two hyphens of code, of which the first stands behind a closed comment, with a
literal that is left open behind the part. -/
theorem scan_composes_hyphens :
    let text : Text := "a/* ' */- 'it''s' --\n-'b".toList
    let middle : Text := "- 'it''s' --\n".toList
    text.spans.map Span.kind = [.code, .blockComment, .code, .quoted .single, .code,
      .lineComment, .code, .quoted .single] ∧
      text.CodeAt 8 ∧ text.CodeAt 21 ∧
      middle.codeMask = (text.codeMask.drop 8).take 13 := by
  intro text middle
  have hfront : text.CodeAt 8 := codeAt_iff.mpr (by decide +kernel)
  have hback : text.CodeAt 21 := codeAt_iff.mpr (by decide +kernel)
  obtain ⟨-, -, -, -, -, -, -, hmiddle⟩ := scan_composes text
  refine ⟨by decide +kernel, hfront, hback, ?_⟩
  exact hmiddle "a/* ' */".toList middle "-'b".toList rfl (.inr hfront) (.inr hback)

end Text

end SelectForm

import Mathlib
import SelectForm.Proofs.Lexis.KeywordMatch

/-!
# Cutting lexed text at marks

Every list and every chain of a statement is cut at marks.  This file computes
the cuts of a text from its pieces.  Pieces whose labels announce no mark stay
together, whatever their nesting; a mark with its keyword in front of the rest
is cut off.  From these two steps follow the cuts of a text that is written as a
head and a row of marked bodies.

Cutting loses nothing, so the part behind the first mark is known without
looking at the marks in it.
-/

namespace SelectForm

namespace Text

theorem getLast?_cons_or (c : Char) (rest : Text) (before : Option Char) :
    (c :: rest).getLast?.or before = rest.getLast?.or (some c) := by
  cases rest with
  | nil => rfl
  | cons d rest => simp [List.getLast?_cons]

end Text

namespace Lexeme

/-- The change of nesting at a piece. -/
def nesting : Lexeme → Int
  | mark c => if c = '(' then 1 else if c = ')' then -1 else 0
  | _ => 0

/-- The change of nesting over some pieces. -/
def nestingOf (lexemes : List Lexeme) : Int := (lexemes.map nesting).sum

@[simp] theorem nestingOf_nil : nestingOf [] = 0 := rfl

@[simp] theorem nestingOf_cons (lexeme : Lexeme) (rest : List Lexeme) :
    nestingOf (lexeme :: rest) = lexeme.nesting + nestingOf rest := by
  simp [nestingOf]

@[simp] theorem nestingOf_append (first second : List Lexeme) :
    nestingOf (first ++ second) = nestingOf first + nestingOf second := by
  simp [nestingOf]

/-- No piece has one of the labels. -/
def Quiet (stops : List Text) (lexemes : List Lexeme) : Prop :=
  ∀ lexeme ∈ lexemes, lexeme.label ∉ stops

@[simp] theorem quiet_nil (stops : List Text) : Quiet stops [] := by
  simp [Quiet]

@[simp] theorem quiet_cons {stops : List Text} {lexeme : Lexeme} {rest : List Lexeme} :
    Quiet stops (lexeme :: rest) ↔ lexeme.label ∉ stops ∧ Quiet stops rest := by
  simp [Quiet]

@[simp] theorem quiet_append {stops : List Text} {first second : List Lexeme} :
    Quiet stops (first ++ second) ↔ Quiet stops first ∧ Quiet stops second := by
  simp [Quiet, or_imp, forall_and]

theorem lastOf_eq (before : Option Char) (lexemes : List Lexeme) :
    lastOf before lexemes = (textOf lexemes).getLast?.or before := by
  induction lexemes generalizing before with
  | nil => rfl
  | cons lexeme rest ih => rw [lastOf, ih, textOf_cons, List.getLast?_append, Option.or_assoc]

theorem Quiet.mono {stops others : List Text} {lexemes : List Lexeme}
    (hquiet : Quiet others lexemes) (hsubset : stops ⊆ others) : Quiet stops lexemes :=
  fun lexeme hmem hlabel => hquiet lexeme hmem (hsubset hlabel)

end Lexeme

namespace Cell

theorem nesting_mark (c : Char) (fresh : Bool) :
    nesting ⟨c, .code, fresh⟩ = (Lexeme.mark c).nesting := by
  simp [nesting, isCodeChar, isCode, Lexeme.nesting]

theorem nesting_of_not_isCode {cell : Cell} (hcode : cell.isCode = false) :
    cell.nesting = 0 := by
  simp [nesting, isCodeChar, hcode]

theorem nesting_of_isWordChar {c : Char} (kind : SpanKind) (opens : Bool)
    (hword : Text.isWordChar c = true) : nesting ⟨c, kind, opens⟩ = 0 := by
  have hopen : c ≠ '(' := by
    rintro rfl
    exact absurd hword (by decide)
  have hclose : c ≠ ')' := by
    rintro rfl
    exact absurd hword (by decide)
  simp [nesting, isCodeChar, hopen, hclose]

end Cell

/-! ## Steps of the cutting -/

namespace Cut

/-- The cuts of a text that has some more characters before its first mark. -/
def inFront {α : Type} (front : Text) (cuts : Text × List (Cut α)) : Text × List (Cut α) :=
  (front ++ cuts.1, cuts.2)

@[simp] theorem inFront_nil {α : Type} (cuts : Text × List (Cut α)) :
    inFront [] cuts = cuts := rfl

@[simp] theorem inFront_inFront {α : Type} (first second : Text)
    (cuts : Text × List (Cut α)) :
    inFront first (inFront second cuts) = inFront (first ++ second) cuts := by
  simp [inFront]

end Cut

section

variable {α : Type} {find : Finder α}

/-- A character at which nothing is found. -/
theorem cutCells_cons {depth : Int} {before : Option Char} {cell : Cell} {rest : List Cell}
    (hfind : cell.isTopLevel depth = true → find before (cell :: rest) = none) :
    cutCells find 0 depth before (cell :: rest) =
      Cut.inFront [cell.char]
        (cutCells find 0 (depth + cell.nesting) (some cell.char) rest) := by
  rw [cutCells]
  cases htop : cell.isTopLevel depth with
  | true => simp [hfind htop, Cut.inFront]
  | false => simp [Cut.inFront]

theorem cutCells_of_not_isCode {depth : Int} {before : Option Char} {front rest : List Cell}
    (hcode : ∀ cell ∈ front, cell.isCode = false) :
    cutCells find 0 depth before (front ++ rest) =
      Cut.inFront (Cell.text front)
        (cutCells find 0 depth ((Cell.text front).getLast?.or before) rest) := by
  induction front generalizing before with
  | nil => rfl
  | cons cell front ih =>
      have hcell := hcode cell (by simp)
      rw [List.cons_append,
        cutCells_cons (by simp [Cell.isTopLevel, hcell]), Cell.nesting_of_not_isCode hcell,
        add_zero, ih fun other hmem => hcode other (by simp [hmem]), Cut.inFront_inFront]
      simp only [Cell.text, List.map_cons, Text.getLast?_cons_or, List.singleton_append]

theorem cutCells_inside {stops : List Text} {depth : Int} {before : Option Char}
    {front : Text} {rest : List Cell} (hstops : find.StopsAt stops)
    (hbefore : before.any Text.isWordChar = true)
    (hfront : ∀ c ∈ front, Text.isWordChar c = true) :
    cutCells find 0 depth before (front.map (⟨·, .code, false⟩) ++ rest) =
      Cut.inFront front (cutCells find 0 depth (front.getLast?.or before) rest) := by
  induction front generalizing before with
  | nil => rfl
  | cons c front ih =>
      have hc := hfront c (by simp)
      have hbehind : (some c).any Text.isWordChar = true := hc
      rw [List.map_cons, List.cons_append,
        cutCells_cons fun _ => hstops.inside before ⟨c, .code, false⟩ _ hbefore hc,
        Cell.nesting_of_isWordChar .code false hc, add_zero,
        ih hbehind fun d hd => hfront d (List.mem_cons_of_mem c hd), Cut.inFront_inFront]
      rw [Text.getLast?_cons_or, List.singleton_append]

theorem cutCells_skip {depth : Int} {before : Option Char} (front rest : List Cell) :
    cutCells find front.length depth before (front ++ rest) =
      cutCells find 0 depth ((Cell.text front).getLast?.or before) rest := by
  induction front generalizing before with
  | nil => rfl
  | cons cell front ih =>
      rw [List.length_cons, List.cons_append, cutCells, ih]
      simp only [Cell.text, List.map_cons, Text.getLast?_cons_or]

/-! ## Quiet pieces -/

/-- A piece whose label announces no mark. -/
theorem cutCells_lexeme {stops : List Text} {depth : Int} {before : Option Char} {fresh : Bool}
    {lexeme : Lexeme} {rest : List Lexeme} (hstops : find.StopsAt stops)
    (hlexed : Lexeme.Lexed none (lexeme :: rest)) (hquiet : lexeme.label ∉ stops) :
    cutCells find 0 depth before (Lexeme.cellsOf fresh (lexeme :: rest)) =
      Cut.inFront lexeme.text
        (cutCells find 0 (depth + lexeme.nesting) (lexeme.text.getLast?.or before)
          (Lexeme.cellsOf (!lexeme.isCode) rest)) := by
  have hfirst := hstops.silent before fresh (lexeme :: rest) hlexed (by simpa using hquiet)
  cases lexeme with
  | word text =>
      obtain ⟨hne, hword⟩ := hlexed.1
      cases text with
      | nil => exact absurd rfl hne
      | cons c front =>
          have hc := hword c (by simp)
          have hbehind : (some c).any Text.isWordChar = true := hc
          have hcells : Lexeme.cellsOf fresh (.word (c :: front) :: rest) =
              ⟨c, .code, fresh⟩ :: (front.map (⟨·, .code, false⟩) ++
                Lexeme.cellsOf false rest) := by
            simp [Lexeme.cellsOf_cons, Lexeme.cells, Lexeme.text, Lexeme.kind, Lexeme.isCode]
          rw [hcells] at hfirst ⊢
          rw [cutCells_cons fun _ => hfirst, Cell.nesting_of_isWordChar .code fresh hc,
            cutCells_inside hstops hbehind fun d hd => hword d (List.mem_cons_of_mem c hd),
            Cut.inFront_inFront, Lexeme.text, Text.getLast?_cons_or]
          rfl
  | mark c =>
      rw [Lexeme.cellsOf_mark] at hfirst ⊢
      rw [cutCells_cons fun _ => hfirst, Cell.nesting_mark]
      rfl
  | literal _ _ | lineComment _ | blockComment _ =>
      rw [Lexeme.cellsOf_cons, cutCells_of_not_isCode, Lexeme.text_cells]
      · simp [Lexeme.nesting]
      · intro cell hmem
        simp [Cell.isCode, Lexeme.kind_of_mem_cells hmem, Lexeme.kind]

/-- Pieces whose labels announce no mark stay together. -/
theorem cutCells_quiet {stops : List Text} {depth : Int} {before : Option Char} {fresh : Bool}
    {front rest : List Lexeme} (hstops : find.StopsAt stops)
    (hlexed : Lexeme.Lexed none (front ++ rest)) (hquiet : Lexeme.Quiet stops front) :
    cutCells find 0 depth before (Lexeme.cellsOf fresh (front ++ rest)) =
      Cut.inFront (Lexeme.textOf front)
        (cutCells find 0 (depth + Lexeme.nestingOf front) (Lexeme.lastOf before front)
          (Lexeme.cellsOf (Lexeme.freshBehind fresh front) rest)) := by
  induction front generalizing depth before fresh with
  | nil => simp [Lexeme.lastOf, Lexeme.freshBehind]
  | cons lexeme front ih =>
      rw [Lexeme.quiet_cons] at hquiet
      rw [List.cons_append] at hlexed ⊢
      rw [cutCells_lexeme hstops hlexed hquiet.1, ih hlexed.2.2 hquiet.2, Cut.inFront_inFront,
        Lexeme.nestingOf_cons, add_assoc, Lexeme.textOf_cons]
      rfl

theorem cutCells_eq_of_quiet {stops : List Text} {before : Option Char} {fresh : Bool}
    {lexemes : List Lexeme} (hstops : find.StopsAt stops)
    (hlexed : Lexeme.Lexed none lexemes) (hquiet : Lexeme.Quiet stops lexemes) :
    cutCells find 0 0 before (Lexeme.cellsOf fresh lexemes) = (Lexeme.textOf lexemes, []) := by
  rw [← List.append_nil lexemes] at hlexed ⊢
  rw [cutCells_quiet hstops hlexed hquiet]
  simp [cutCells, Cut.inFront]

/-! ## Marks -/

/-- A mark is found wherever its pieces stand, if a blank or nothing is behind it. -/
structure Finder.Announces (find : Finder α) (mark : List Lexeme) (label : α) : Prop where
  opens : ∃ first others, mark = first :: others ∧ first.isCode = true ∧ first.nesting = 0
  found : ∀ (before : Option Char) (fresh : Bool) (rest : List Lexeme),
    Lexeme.StartsBehind before (mark ++ rest) → Lexeme.Lexed none (mark ++ rest) →
      rest.head?.all Lexeme.isGap = true →
        find before (Lexeme.cellsOf fresh (mark ++ rest)) =
          some (label, (Lexeme.textOf mark).length)

theorem Finder.ofKeywords_announces {keywords : List (Keyword × α)} {mark : List Lexeme}
    {label : α} (hplain : ∀ entry ∈ keywords, entry.1.isPlain = true)
    (hopens : ∃ first others, mark = first :: others ∧ first.isCode = true ∧ first.nesting = 0)
    (hfound : ∀ rest : List Lexeme, rest.head?.all Lexeme.isGap = true →
      behindAny? keywords (mark ++ rest) = some (label, rest)) :
    (ofKeywords keywords).Announces mark label := by
  constructor
  · exact hopens
  · intro before fresh rest hbefore hlexed hgap
    exact ofKeywords_append fresh hplain hbefore hlexed (hfound rest hgap)

theorem Finder.comma_announces : comma.Announces [.mark ','] () := by
  constructor
  · exact ⟨.mark ',', [], rfl, rfl, rfl⟩
  · intro before fresh rest _ _ _
    rw [List.singleton_append, Lexeme.cellsOf_mark]
    rfl

/-- A mark may begin at the first character of a piece of code that is no
parenthesis. -/
theorem Lexeme.IsProper.isTopLevel_first {lexeme : Lexeme} {c : Char} {text : Text}
    (opens : Bool) (hproper : lexeme.IsProper) (htext : lexeme.text = c :: text)
    (hcode : lexeme.isCode = true) (hnesting : lexeme.nesting = 0) :
    Cell.isTopLevel 0 ⟨c, lexeme.kind, opens⟩ = true := by
  cases lexeme with
  | word word =>
      rw [Lexeme.text] at htext
      have hc := hproper.2 c (by simp [htext])
      simp [Cell.isTopLevel, Cell.isCode, kind, Cell.nesting_of_isWordChar _ _ hc]
  | mark d =>
      obtain ⟨rfl, -⟩ : d = c ∧ [] = text := by simpa [Lexeme.text] using htext
      simp [Cell.isTopLevel, Cell.isCode, kind, Cell.nesting_mark, hnesting]
  | literal _ _ | lineComment _ | blockComment _ => simp [isCode, kind] at hcode

/-- A mark is cut off from what is behind it. -/
theorem cutCells_mark {before : Option Char} {fresh : Bool} {mark rest : List Lexeme}
    {label : α} (hmark : find.Announces mark label)
    (hbefore : Lexeme.StartsBehind before (mark ++ rest))
    (hlexed : Lexeme.Lexed none (mark ++ rest))
    (hgap : rest.head?.all Lexeme.isGap = true) :
    cutCells find 0 0 before (Lexeme.cellsOf fresh (mark ++ rest)) =
      let behind := cutCells find 0 0 (Lexeme.lastOf before mark)
        (Lexeme.cellsOf (Lexeme.freshBehind fresh mark) rest)
      ([], ⟨label, Lexeme.textOf mark, behind.1⟩ :: behind.2) := by
  obtain ⟨first, others, rfl, hcode, hnesting⟩ := hmark.opens
  have hfound := hmark.found before fresh rest hbefore hlexed hgap
  obtain ⟨c, text, htext, hcells⟩ := hlexed.1.exists_cells_eq_cons fresh
  have htop := hlexed.1.isTopLevel_first (fresh || !first.isCode) htext hcode hnesting
  have hmarkCells : Lexeme.cellsOf fresh (first :: others) =
      ⟨c, first.kind, fresh || !first.isCode⟩ ::
        (text.map (⟨·, first.kind, false⟩) ++ Lexeme.cellsOf (!first.isCode) others) := by
    rw [Lexeme.cellsOf_cons, hcells, List.cons_append]
  have hmarkText := Lexeme.text_cellsOf fresh (first :: others)
  have hlength := Lexeme.length_cellsOf fresh (first :: others)
  generalize text.map (⟨·, first.kind, false⟩) ++ Lexeme.cellsOf (!first.isCode) others =
    cells at hmarkCells
  rw [hmarkCells] at hmarkText hlength
  rw [Lexeme.cellsOf_append, hmarkCells, List.cons_append, ← hlength,
    List.length_cons] at hfound
  rw [Lexeme.cellsOf_append, hmarkCells, List.cons_append, cutCells]
  simp only [htop, if_true, hfound]
  rw [cutCells_skip, Lexeme.lastOf_eq, ← hmarkText]
  simp [Cell.text, Text.getLast?_cons_or]

/-! ## A head and a row of marked bodies -/

/-- A mark with the body behind it; `lead` stands in front of the mark and belongs to
the part before it. -/
structure Marked (α : Type) where
  lead : List Lexeme
  label : α
  mark : List Lexeme
  body : List Lexeme

namespace Marked

def lexemes (marked : Marked α) : List Lexeme := marked.lead ++ marked.mark ++ marked.body

/-- What stands in front of the first of some marks, or of the end. -/
def leadOf (trail : List Lexeme) (row : List (Marked α)) : List Lexeme :=
  match row with
  | [] => trail
  | marked :: _ => marked.lead

/-- The text of a row of marks. -/
def lexemesOf (trail : List Lexeme) (row : List (Marked α)) : List Lexeme :=
  row.flatMap lexemes ++ trail

/-- The cuts at a row of marks. -/
def cuts (trail : List Lexeme) (row : List (Marked α)) : List (Cut α) :=
  match row with
  | [] => []
  | marked :: rest =>
    ⟨marked.label, Lexeme.textOf marked.mark,
      Lexeme.textOf (marked.body ++ leadOf trail rest)⟩ :: cuts trail rest

theorem lexemesOf_cons (trail : List Lexeme) (marked : Marked α) (row : List (Marked α)) :
    lexemesOf trail (marked :: row) =
      marked.lead ++ (marked.mark ++ (marked.body ++ lexemesOf trail row)) := by
  simp [lexemesOf, lexemes]

/-- A mark that a finder finds, and nothing else around it. -/
structure IsCutBy (find : Finder α) (stops : List Text) (marked : Marked α) : Prop where
  announces : find.Announces marked.mark marked.label
  gap : marked.body.head?.any Lexeme.isGap = true
  quietLead : Lexeme.Quiet stops marked.lead
  quietBody : Lexeme.Quiet stops marked.body
  closedLead : Lexeme.nestingOf marked.lead = 0
  closedBody : Lexeme.nestingOf marked.body = 0

/-- The cuts of a text that is written as a head and a row of marked bodies. -/
theorem cutCells_row {stops : List Text} {before : Option Char} {head trail : List Lexeme}
    {row : List (Marked α)} (fresh : Bool) (hstops : find.StopsAt stops)
    (hlexed : Lexeme.Lexed none (head ++ lexemesOf trail row))
    (hbefore : Lexeme.StartsBehind before (head ++ lexemesOf trail row))
    (hquiet : Lexeme.Quiet stops head) (hclosed : Lexeme.nestingOf head = 0)
    (hrow : ∀ marked ∈ row, marked.IsCutBy find stops) (htrail : Lexeme.Quiet stops trail) :
    cutCells find 0 0 before (Lexeme.cellsOf fresh (head ++ lexemesOf trail row)) =
      (Lexeme.textOf (head ++ leadOf trail row), cuts trail row) := by
  induction row generalizing head before fresh with
  | nil => exact cutCells_eq_of_quiet hstops hlexed (Lexeme.quiet_append.mpr ⟨hquiet, htrail⟩)
  | cons marked row ih =>
      have hmarked := hrow marked (by simp)
      rw [lexemesOf_cons, ← List.append_assoc] at hlexed hbefore ⊢
      have hfront := (Lexeme.Lexed.append_iff.mp hlexed).2
      have hstarts := hlexed.startsBehind hbefore
      have hgap : (marked.body ++ lexemesOf trail row).head?.all Lexeme.isGap = true := by
        have hbody := hmarked.gap
        cases hhead : marked.body with
        | nil => simp [hhead] at hbody
        | cons lexeme body => simpa [hhead] using hbody
      rw [cutCells_quiet hstops hlexed (Lexeme.quiet_append.mpr ⟨hquiet, hmarked.quietLead⟩),
        Lexeme.nestingOf_append, hclosed, hmarked.closedLead, add_zero, add_zero,
        cutCells_mark hmarked.announces hstarts hfront hgap,
        ih _ (Lexeme.Lexed.append_iff.mp hfront).2 (hfront.startsBehind hstarts)
          hmarked.quietBody hmarked.closedBody
          fun other hmem => hrow other (List.mem_cons_of_mem marked hmem)]
      simp [Cut.inFront, leadOf, cuts]

end Marked

/-! ## The first mark -/

/-- The text of a part and of the cuts behind it. -/
def Cut.textOf (cuts : List (Cut α)) : Text := cuts.flatMap fun cut => cut.mark ++ cut.body

/-- Cutting loses nothing. -/
theorem text_cutCells (find : Finder α) (skip : Nat) (depth : Int) (before : Option Char)
    (cells : List Cell) :
    (cutCells find skip depth before cells).1 ++
        Cut.textOf (cutCells find skip depth before cells).2 =
      Cell.text (cells.drop skip) := by
  induction cells generalizing skip depth before with
  | nil => simp [cutCells, Cut.textOf, Cell.text]
  | cons cell rest ih =>
      cases skip with
      | succ count =>
          rw [cutCells, List.drop_succ_cons]
          exact ih count depth (some cell.char)
      | zero =>
          rw [cutCells]
          split
          · rename_i label count hfound
            have hrest := ih count depth (some cell.char)
            simp only [Cut.textOf, Cell.text, List.flatMap_cons, List.nil_append,
              List.take_succ_cons, List.map_cons, List.cons_append, List.append_assoc,
              List.drop_zero] at hrest ⊢
            rw [hrest, ← List.map_append, List.take_append_drop]
          · have hrest := ih 0 (depth + cell.nesting) (some cell.char)
            simpa [Cell.text] using hrest

namespace Segment

/-- The cut of a segment, without offsets. -/
def cut (segment : Segment α) : Cut α := ⟨segment.label, segment.mark.text, segment.body.text⟩

end Segment

namespace Segmentation

theorem map_cut_place (start : Nat) (cuts : List (Cut α)) :
    (place start cuts).map Segment.cut = cuts := by
  induction cuts generalizing start with
  | nil => rfl
  | cons cut cuts ih => simp [place, Segment.cut, ih]

theorem head_text_ofCells (before : Option Char) (cells : List Cell) (start : Nat) :
    (ofCells find before cells start).head.text = (cutCells find 0 0 before cells).1 := rfl

theorem map_cut_tail_ofCells (before : Option Char) (cells : List Cell) (start : Nat) :
    (ofCells find before cells start).tail.map Segment.cut =
      (cutCells find 0 0 before cells).2 :=
  map_cut_place _ _

end Segmentation

namespace Fragment

theorem head_text_segment (find : Finder α) {lexemes : List Lexeme} (hlexed : Lexeme.Lexed none lexemes)
    (start : Nat) :
    ((mk (Lexeme.textOf lexemes) start).segment find).head.text =
      (cutCells find 0 0 none (Lexeme.cellsOf true lexemes)).1 := by
  rw [segment, Segmentation.head_text_ofCells, hlexed.cells_textOf]

theorem map_cut_segment (find : Finder α) {lexemes : List Lexeme} (hlexed : Lexeme.Lexed none lexemes)
    (start : Nat) :
    ((mk (Lexeme.textOf lexemes) start).segment find).tail.map Segment.cut =
      (cutCells find 0 0 none (Lexeme.cellsOf true lexemes)).2 := by
  rw [segment, Segmentation.map_cut_tail_ofCells, hlexed.cells_textOf]

/-- The segments of a text that is written as a head and a row of marked bodies. -/
theorem segment_row {stops : List Text} {head trail : List Lexeme} {row : List (Marked α)}
    (hstops : find.StopsAt stops)
    (hlexed : Lexeme.Lexed none (head ++ Marked.lexemesOf trail row))
    (hquiet : Lexeme.Quiet stops head) (hclosed : Lexeme.nestingOf head = 0)
    (hrow : ∀ marked ∈ row, marked.IsCutBy find stops) (htrail : Lexeme.Quiet stops trail)
    (start : Nat) :
    ((mk (Lexeme.textOf (head ++ Marked.lexemesOf trail row)) start).segment find).head =
        ⟨Lexeme.textOf (head ++ Marked.leadOf trail row), start⟩ ∧
      ((mk (Lexeme.textOf (head ++ Marked.lexemesOf trail row)) start).segment find).tail.map
          Segment.cut =
        Marked.cuts trail row := by
  have hcuts := Marked.cutCells_row true hstops hlexed
    (Lexeme.startsBehind_none _) hquiet hclosed hrow htrail
  have hhead := head_text_segment find hlexed start
  have htail := map_cut_segment find hlexed start
  rw [hcuts] at hhead htail
  exact ⟨congrArg (mk · start) hhead, htail⟩

theorem text_segment (find : Finder α) (fragment : Fragment) :
    (fragment.segment find).head.text ++
        (fragment.segment find).tail.flatMap (fun s => s.mark.text ++ s.body.text) =
      fragment.text := by
  have htext := text_cutCells find 0 0 none fragment.text.cells
  have hcells : Cell.text (fragment.text.cells.drop 0) = fragment.text :=
    Mode.text_cells .between fragment.text
  rw [hcells, ← Segmentation.map_cut_tail_ofCells none fragment.text.cells fragment.start,
    Cut.textOf, List.flatMap_map] at htext
  exact htext

theorem splitFirst?_of_quiet {stops : List Text} {lexemes : List Lexeme}
    (hstops : find.StopsAt stops) (hlexed : Lexeme.Lexed none lexemes)
    (hquiet : Lexeme.Quiet stops lexemes) (start : Nat) :
    (mk (Lexeme.textOf lexemes) start).splitFirst? find = none := by
  have hcuts := map_cut_segment find hlexed start
  rw [cutCells_eq_of_quiet hstops hlexed hquiet] at hcuts
  rw [splitFirst?, List.map_eq_nil_iff.mp hcuts]

/-- A text is split at its first mark, whatever is behind the mark. -/
theorem splitFirst?_of_mark {stops : List Text} {front mark rest : List Lexeme} {label : α}
    (hstops : find.StopsAt stops) (hmark : find.Announces mark label)
    (hlexed : Lexeme.Lexed none (front ++ (mark ++ rest)))
    (hquiet : Lexeme.Quiet stops front) (hclosed : Lexeme.nestingOf front = 0)
    (hgap : rest.head?.all Lexeme.isGap = true) (start : Nat) :
    ∃ split, (mk (Lexeme.textOf (front ++ (mark ++ rest))) start).splitFirst? find = some split ∧
      split.label = label ∧ split.before = ⟨Lexeme.textOf front, start⟩ ∧
      split.mark.text = Lexeme.textOf mark ∧ split.after.text = Lexeme.textOf rest := by
  have hfront := (Lexeme.Lexed.append_iff.mp hlexed).2
  have hstarts := hlexed.startsBehind (Lexeme.startsBehind_none _)
  have hhead := head_text_segment find hlexed start
  have hcuts := map_cut_segment find hlexed start
  have htext := text_segment find (mk (Lexeme.textOf (front ++ (mark ++ rest))) start)
  rw [cutCells_quiet hstops hlexed hquiet, hclosed, add_zero,
    cutCells_mark hmark hstarts hfront hgap] at hhead hcuts
  simp only [Cut.inFront, List.append_nil] at hhead hcuts
  have hwhole : Lexeme.textOf (front ++ (mark ++ rest)) =
      Lexeme.textOf front ++ (Lexeme.textOf mark ++ Lexeme.textOf rest) := by simp
  generalize Lexeme.textOf (front ++ (mark ++ rest)) = whole at *
  rw [hhead, hwhole] at htext
  cases htail : ((mk whole start).segment find).tail with
  | nil => simp [htail] at hcuts
  | cons first others =>
      simp only [htail, List.map_cons, List.cons.injEq, Segment.cut, Cut.mk.injEq] at hcuts
      obtain ⟨⟨hlabel, hmarkText, -⟩, -⟩ := hcuts
      refine ⟨_, by rw [splitFirst?, htail], hlabel, ?_, hmarkText, ?_⟩
      · exact congrArg (Fragment.mk · start) hhead
      · simp only [← hwhole, htail, List.flatMap_cons, hmarkText, List.append_assoc] at htext
        rw [hwhole] at htext
        exact List.append_cancel_left (List.append_cancel_left htext)

end Fragment

end

/-! ## Places of a keyword -/

namespace Keyword

theorem length?_of_not_isCode {keyword : Keyword} {before : Option Char} {cell : Cell}
    {cells : List Cell} (hplain : keyword.isPlain = true) (hcode : cell.isCode = false) :
    keyword.length? before (cell :: cells) = none := by
  cases hform : keyword.form with
  | phrase words =>
      rw [isPlain, hform] at hplain
      cases words with
      | nil => simp at hplain
      | cons word words =>
          cases word with
          | nil => simp at hplain
          | cons c word => simp [length?, after?, hform, afterPhrase?, afterWord?, hcode]
  | symbol text =>
      rw [isPlain, hform] at hplain
      cases text with
      | nil => simp at hplain
      | cons c text => simp [length?, after?, hform, afterSymbol?, Cell.isCodeChar, hcode]

end Keyword

namespace Fragment

variable {keyword : Keyword}

theorem occurrences_go_skip {before : Option Char} {start : Nat} (front rest : List Cell) :
    occurrences.go keyword front.length before start (front ++ rest) =
      occurrences.go keyword 0 ((Cell.text front).getLast?.or before)
        (start + Text.size (Cell.text front)) rest := by
  induction front generalizing before start with
  | nil => rfl
  | cons cell front ih =>
      rw [List.length_cons, List.cons_append, occurrences.go, ih]
      simp only [Cell.text, List.map_cons, Text.getLast?_cons_or, Text.size_cons, Nat.add_assoc]

theorem occurrences_go_cons {before : Option Char} {start : Nat} {cell : Cell}
    {rest : List Cell} (hnone : keyword.length? before (cell :: rest) = none) :
    occurrences.go keyword 0 before start (cell :: rest) =
      occurrences.go keyword 0 (some cell.char) (start + cell.char.utf8Size) rest := by
  rw [occurrences.go, hnone]

theorem occurrences_go_of_not_isCode (hplain : keyword.isPlain = true) {before : Option Char}
    {start : Nat} {front rest : List Cell} (hcode : ∀ cell ∈ front, cell.isCode = false) :
    occurrences.go keyword 0 before start (front ++ rest) =
      occurrences.go keyword 0 ((Cell.text front).getLast?.or before)
        (start + Text.size (Cell.text front)) rest := by
  induction front generalizing before start with
  | nil => rfl
  | cons cell front ih =>
      rw [List.cons_append,
        occurrences_go_cons (Keyword.length?_of_not_isCode hplain (hcode cell (by simp))),
        ih fun other hmem => hcode other (by simp [hmem])]
      simp only [Cell.text, List.map_cons, Text.getLast?_cons_or, Text.size_cons, Nat.add_assoc]

theorem occurrences_go_inside (hplain : keyword.isPlain = true) {before : Option Char}
    {start : Nat} {front : Text} {rest : List Cell}
    (hbefore : before.any Text.isWordChar = true)
    (hfront : ∀ c ∈ front, Text.isWordChar c = true) :
    occurrences.go keyword 0 before start (front.map (⟨·, .code, false⟩) ++ rest) =
      occurrences.go keyword 0 (front.getLast?.or before) (start + Text.size front) rest := by
  induction front generalizing before start with
  | nil => rfl
  | cons c front ih =>
      have hc := hfront c (by simp)
      have hbehind : (some c).any Text.isWordChar = true := hc
      have hnone := @Keyword.length?_inside keyword before ⟨c, .code, false⟩
        (front.map (⟨·, .code, false⟩) ++ rest) hplain hbefore hc
      rw [List.map_cons, List.cons_append, occurrences_go_cons hnone,
        ih hbehind fun d hd => hfront d (List.mem_cons_of_mem c hd),
        Text.getLast?_cons_or, Text.size_cons, Nat.add_assoc]

/-- Pieces with other labels hold no place of a keyword. -/
theorem occurrences_go_quiet (hplain : keyword.isPlain = true) {before : Option Char}
    {start : Nat} {fresh : Bool} {front rest : List Lexeme}
    (hlexed : Lexeme.Lexed none (front ++ rest))
    (hquiet : Lexeme.Quiet [keyword.firstLabel] front) :
    occurrences.go keyword 0 before start (Lexeme.cellsOf fresh (front ++ rest)) =
      occurrences.go keyword 0 (Lexeme.lastOf before front)
        (start + Text.size (Lexeme.textOf front))
        (Lexeme.cellsOf (Lexeme.freshBehind fresh front) rest) := by
  induction front generalizing before start fresh with
  | nil => rfl
  | cons lexeme front ih =>
      rw [Lexeme.quiet_cons] at hquiet
      rw [List.cons_append] at hlexed ⊢
      have hnone := Keyword.length?_eq_none before fresh hplain hlexed
        (by simpa using hquiet.1)
      have hrest := @ih (lexeme.text.getLast?.or before) (start + Text.size lexeme.text)
        (!lexeme.isCode) hlexed.2.2 hquiet.2
      rw [Lexeme.lastOf, Lexeme.freshBehind, Lexeme.textOf_cons, Text.size_append,
        ← Nat.add_assoc, ← hrest]
      cases lexeme with
      | word text =>
          obtain ⟨hne, hword⟩ := hlexed.1
          cases text with
          | nil => exact absurd rfl hne
          | cons c text =>
              have hbehind : (some c).any Text.isWordChar = true := hword c (by simp)
              have hcells : Lexeme.cellsOf fresh (.word (c :: text) :: (front ++ rest)) =
                  ⟨c, .code, fresh⟩ :: (text.map (⟨·, .code, false⟩) ++
                    Lexeme.cellsOf false (front ++ rest)) := by
                simp [Lexeme.cellsOf_cons, Lexeme.cells, Lexeme.text, Lexeme.kind,
                  Lexeme.isCode]
              rw [hcells] at hnone ⊢
              rw [occurrences_go_cons hnone, occurrences_go_inside hplain hbehind
                fun d hd => hword d (List.mem_cons_of_mem c hd)]
              rw [Lexeme.text, Text.getLast?_cons_or, Text.size_cons, Nat.add_assoc]
              rfl
      | mark c =>
          rw [Lexeme.cellsOf_mark] at hnone ⊢
          rw [occurrences_go_cons hnone]
          rfl
      | literal _ _ | lineComment _ | blockComment _ =>
          rw [Lexeme.cellsOf_cons, occurrences_go_of_not_isCode hplain, Lexeme.text_cells]
          intro cell hmem
          simp [Cell.isCode, Lexeme.kind_of_mem_cells hmem, Lexeme.kind]

theorem occurrences_of_quiet (hplain : keyword.isPlain = true) {lexemes : List Lexeme}
    (hlexed : Lexeme.Lexed none lexemes)
    (hquiet : Lexeme.Quiet [keyword.firstLabel] lexemes) (start : Nat) :
    (mk (Lexeme.textOf lexemes) start).occurrences keyword = [] := by
  rw [occurrences, hlexed.cells_textOf]
  rw [← List.append_nil lexemes] at hlexed ⊢
  rw [occurrences_go_quiet hplain hlexed hquiet]
  rfl

/-- A keyword that stands once in a text has one place. -/
theorem occurrences_of_mark (hplain : keyword.isPlain = true) {front mark rest : List Lexeme}
    (hlexed : Lexeme.Lexed none (front ++ (mark ++ rest)))
    (hfront : Lexeme.Quiet [keyword.firstLabel] front) (hne : Lexeme.textOf mark ≠ [])
    (hmark : keyword.behind? (mark ++ rest) = some rest)
    (hrest : Lexeme.Quiet [keyword.firstLabel] rest) (start : Nat) :
    (mk (Lexeme.textOf (front ++ (mark ++ rest))) start).occurrences keyword =
      [⟨Lexeme.textOf mark, start + Text.size (Lexeme.textOf front)⟩] := by
  have hbehind := (Lexeme.Lexed.append_iff.mp hlexed).2
  have hlast := (Lexeme.Lexed.append_iff.mp hbehind).2
  have hlength := Keyword.length?_cellsOf (Lexeme.freshBehind true front) hplain
    (hlexed.startsBehind (Lexeme.startsBehind_none _)) hbehind
  have hnothing : ∀ (before : Option Char) (place : Nat) (fresh : Bool),
      occurrences.go keyword 0 before place (Lexeme.cellsOf fresh rest) = [] := by
    intro before place fresh
    rw [← List.append_nil rest] at hlast ⊢
    rw [occurrences_go_quiet hplain hlast hrest]
    rfl
  rw [occurrences, hlexed.cells_textOf, occurrences_go_quiet hplain hlexed hfront]
  generalize Lexeme.freshBehind true front = fresh at hlength
  rw [hmark, Option.map_some, Lexeme.textOf_append, List.length_append,
    Nat.add_sub_cancel] at hlength
  rw [Lexeme.cellsOf_append] at hlength ⊢
  have htext := Lexeme.text_cellsOf fresh mark
  rw [← htext, Cell.text, List.length_map] at hlength
  cases hcells : Lexeme.cellsOf fresh mark with
  | nil => exact absurd (htext ▸ congrArg Cell.text hcells) hne
  | cons cell cells =>
      rw [hcells] at hlength htext
      rw [List.length_cons] at hlength
      rw [List.cons_append] at hlength ⊢
      rw [occurrences.go]
      simp only [hlength]
      rw [occurrences_go_skip, hnothing, ← htext]
      simp [Cell.text]

end Fragment

end SelectForm

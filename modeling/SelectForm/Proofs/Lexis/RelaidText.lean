import Mathlib
import SelectForm.Proofs.Lexis.MaskedRow
import SelectForm.Proofs.Text.Respelled

/-!
# Texts with another layout

The layout of a statement are its blanks and comments.  A text is relaid if each of its maximal
runs of layout is replaced by some other layout.

Comments are masked by blanks, so a text and the text relaid are alike but for the length of
their gaps.  Only a hyphen must not stand directly in front of layout: with a comment behind it
that begins with two hyphens it would open a comment itself.
-/

namespace SelectForm

open Lexeme

/-- An ASCII blank of code, or a character of a comment. -/
def Cell.isLayout (cell : Cell) : Bool :=
  cell.kind.isComment || cell.isCode && Text.isAsciiBlank cell.char

namespace Text

/-- A text of ASCII blanks and of comments, where the end of the line belongs to a comment that
ends with it. -/
inductive IsLayout : Text → Prop
  | nil : IsLayout []
  | blank {c : Char} {rest : Text} (hc : isAsciiBlank c = true) (hrest : IsLayout rest) :
      IsLayout (c :: rest)
  | lineComment {content rest : Text} (hcontent : '\n' ∉ content) (hrest : IsLayout rest) :
      IsLayout ('-' :: '-' :: content ++ '\n' :: rest)
  | blockComment {content rest : Text} (hcontent : ¬ ['*', '/'] <:+: content)
      (hrest : IsLayout rest) : IsLayout ('/' :: '*' :: content ++ '*' :: '/' :: rest)

end Text

/-- Cells, and a text with other layout in the place of each maximal run of layout. -/
inductive Relaid : List Cell → Text → Prop
  | nil : Relaid [] []
  | keep {cell : Cell} {cells : List Cell} {text : Text} (hcell : cell.isLayout = false)
      (hrest : Relaid cells text) : Relaid (cell :: cells) (cell.char :: text)
  | replace {run cells : List Cell} {gap text : Text} (hne : run ≠ [])
      (hrun : ∀ cell ∈ run, cell.isLayout = true)
      (hmaximal : cells.head?.any Cell.isLayout = false) (hne' : gap ≠ [])
      (hgap : gap.IsLayout) (hrest : Relaid cells text) : Relaid (run ++ cells) (gap ++ text)

/-- A text that is another one with other layout. -/
def Text.Relaid (text text' : Text) : Prop := SelectForm.Relaid text.cells text'

namespace Relaid

variable {cell : Cell} {cells rest : List Cell} {text : Text}

theorem of_keep (hcell : cell.isLayout = false) (hrelaid : Relaid (cell :: cells) text) :
    ∃ behind, text = cell.char :: behind ∧ Relaid cells behind := by
  generalize hall : cell :: cells = all at hrelaid
  cases hrelaid with
  | nil => exact absurd hall (List.cons_ne_nil _ _)
  | keep _ hrest =>
      obtain ⟨rfl, rfl⟩ := List.cons.inj hall
      exact ⟨_, rfl, hrest⟩
  | @replace run _ _ _ hne hrun _ _ _ _ =>
      obtain ⟨first, run, rfl⟩ := List.exists_cons_of_ne_nil hne
      obtain rfl : cell = first := (List.cons.inj hall).1
      rw [hrun cell List.mem_cons_self] at hcell
      exact absurd hcell (by decide)

theorem of_keep_append (hcells : ∀ cell ∈ cells, cell.isLayout = false)
    (hrelaid : Relaid (cells ++ rest) text) :
    ∃ behind, text = Cell.text cells ++ behind ∧ Relaid rest behind := by
  induction cells generalizing text with
  | nil => exact ⟨text, rfl, hrelaid⟩
  | cons cell cells ih =>
      obtain ⟨hcell, hcells⟩ := List.forall_mem_cons.mp hcells
      obtain ⟨behind, rfl, hbehind⟩ := of_keep hcell hrelaid
      obtain ⟨back, rfl, hback⟩ := ih hcells hbehind
      exact ⟨back, rfl, hback⟩

theorem of_replace (hcell : cell.isLayout = true) (hrelaid : Relaid (cell :: cells) text) :
    ∃ gap behind, text = gap ++ behind ∧ gap ≠ [] ∧ gap.IsLayout ∧
      Relaid ((cell :: cells).dropWhile Cell.isLayout) behind := by
  generalize hall : cell :: cells = all at hrelaid ⊢
  cases hrelaid with
  | nil => exact absurd hall (List.cons_ne_nil _ _)
  | keep hkeep _ =>
      obtain ⟨rfl, -⟩ := List.cons.inj hall
      rw [hcell] at hkeep
      exact absurd hkeep (by decide)
  | @replace run cells gap text hne hrun hmaximal hne' hgap hrest =>
      refine ⟨gap, text, rfl, hne', hgap, ?_⟩
      rw [List.dropWhile_append_of_pos hrun]
      cases cells with
      | nil => exact hrest
      | cons next cells =>
          have hnext : next.isLayout = false := hmaximal
          rwa [List.dropWhile_cons_of_neg (by simp [hnext])]

end Relaid

/-! ## Layout as pieces -/

namespace Lexeme

variable {row rest : List Lexeme} {lexeme : Lexeme} {text gap : Text}

/-- A blank of code or a comment. -/
def isLayout (lexeme : Lexeme) : Bool := lexeme.kind.isComment || lexeme.isGap

theorem isLayout_cell (fresh : Bool) {cell : Cell} (hfine : lexeme.IsFine)
    (hmem : cell ∈ lexeme.cells fresh) : cell.isLayout = lexeme.isLayout := by
  have hkind := kind_of_mem_cells hmem
  cases lexeme with
  | word _ => exact hfine.elim
  | mark c =>
      have hcell : cell = ⟨c, .code, fresh⟩ := by simpa [cells, Lexeme.text, kind, isCode] using hmem
      rw [hcell]
      rfl
  | literal _ _ | lineComment _ | blockComment _ =>
      simp [Cell.isLayout, isLayout, Cell.isCode, isGap, hkind, kind, SpanKind.isComment]

theorem exists_cells_of_isFine (fresh : Bool) (hfine : lexeme.IsFine) :
    ∃ cell others, lexeme.cells fresh = cell :: others := by
  apply List.exists_cons_of_ne_nil
  intro hnil
  have htext := text_cells fresh lexeme
  rw [hnil] at htext
  exact hfine.text_ne_nil htext.symm

/-- The cells behind the layout at the front of a row. -/
theorem dropWhile_isLayout_cellsOf (fresh : Bool) (hfine : ∀ lexeme ∈ row, lexeme.IsFine) :
    ∃ fresh', (cellsOf fresh row).dropWhile Cell.isLayout =
      cellsOf fresh' (row.dropWhile isLayout) := by
  induction row generalizing fresh with
  | nil => exact ⟨fresh, rfl⟩
  | cons lexeme row ih =>
      obtain ⟨hlexeme, hrow⟩ := List.forall_mem_cons.mp hfine
      cases hlayout : lexeme.isLayout with
      | true =>
          obtain ⟨fresh', hdrop⟩ := ih (!lexeme.isCode) hrow
          refine ⟨fresh', ?_⟩
          rw [cellsOf_cons, List.dropWhile_append_of_pos fun cell hmem => ?_, hdrop,
            List.dropWhile_cons_of_pos hlayout]
          rw [isLayout_cell fresh hlexeme hmem, hlayout]
      | false =>
          refine ⟨fresh, ?_⟩
          rw [List.dropWhile_cons_of_neg (by simp [hlayout]), cellsOf_cons]
          have hcells : ∀ cell ∈ lexeme.cells fresh, cell.isLayout = false := fun cell hmem => by
            rw [isLayout_cell fresh hlexeme hmem, hlayout]
          obtain ⟨cell, others, hcons⟩ := exists_cells_of_isFine fresh hlexeme
          rw [hcons, List.forall_mem_cons] at hcells
          rw [hcons, List.cons_append, List.dropWhile_cons_of_neg (by simp [hcells.1])]

/-- Masked layout is a gap. -/
theorem exists_covered_layout (hfine : ∀ lexeme ∈ row, lexeme.IsFine)
    (hlayout : ∀ lexeme ∈ row, lexeme.isLayout = true) :
    ∃ gap, covered row = marks gap ∧ (∀ c ∈ gap, Text.isAsciiBlank c = true) ∧
      (row ≠ [] → gap ≠ []) := by
  induction row with
  | nil => exact ⟨[], rfl, List.forall_mem_nil _, fun hne => absurd rfl hne⟩
  | cons lexeme row ih =>
      obtain ⟨hlexeme, hrow⟩ := List.forall_mem_cons.mp hfine
      obtain ⟨hfirst, hrest⟩ := List.forall_mem_cons.mp hlayout
      obtain ⟨gap, hgap, hblank, -⟩ := ih hrow hrest
      have hpiece : ∃ front, cover lexeme = marks front ∧ front ≠ [] ∧
          ∀ c ∈ front, Text.isAsciiBlank c = true := by
        cases hcomment : lexeme.kind.isComment with
        | true =>
            refine ⟨List.replicate (Text.size lexeme.text) ' ', if_pos hcomment, ?_, ?_⟩
            · rw [Ne, List.replicate_eq_nil_iff]
              exact hlexeme.size_pos.ne'
            · intro c hc
              rw [List.eq_of_mem_replicate hc]
              rfl
        | false =>
            rw [isLayout, hcomment, Bool.false_or] at hfirst
            cases lexeme with
            | mark c =>
                exact ⟨[c], rfl, List.cons_ne_nil _ _, List.forall_mem_singleton.mpr hfirst⟩
            | word _ | literal _ _ | lineComment _ | blockComment _ =>
                exact absurd hfirst Bool.false_ne_true
      obtain ⟨front, hfront, hne, hascii⟩ := hpiece
      refine ⟨front ++ gap, ?_, List.forall_mem_append.mpr ⟨hascii, hblank⟩, ?_⟩
      · rw [marks_append, covered, List.flatMap_cons, hfront]
        exact congrArg (marks front ++ ·) hgap
      · exact fun _ hnil => hne (List.append_eq_nil_iff.mp hnil).1

/-- Layout in front of a row, cut into pieces. -/
theorem exists_layout (hgap : gap.IsLayout) (hfine : Fine none rest) :
    ∃ row, textOf row = gap ∧ (∀ lexeme ∈ row, lexeme.isLayout = true) ∧ Fine none (row ++ rest) := by
  induction hgap with
  | nil => exact ⟨[], rfl, List.forall_mem_nil _, hfine⟩
  | @blank c gap hc _ ih =>
      obtain ⟨row, rfl, hlayout, hrow⟩ := ih
      have hne : ∀ d : Char, Text.isAsciiBlank d = false → c ≠ d := by
        rintro d hd rfl
        rw [hc] at hd
        exact absurd hd (by decide)
      have hquote : Quote.ofChar? c = none := by
        simp [Quote.ofChar?, hne '\'' (by decide), hne '"' (by decide)]
      refine ⟨mark c :: row, rfl, List.forall_mem_cons.mpr ⟨hc, hlayout⟩, hquote, ?_, hrow⟩
      simp [EndsBefore, hne '-' (by decide), hne '/' (by decide)]
  | @lineComment content gap hcontent _ ih =>
      obtain ⟨row, rfl, hlayout, hrow⟩ := ih
      refine ⟨.lineComment content :: mark '\n' :: row, by simp [Lexeme.text], ?_, hcontent, .inr rfl,
        rfl, ?_, hrow⟩
      · exact List.forall_mem_cons.mpr ⟨rfl, List.forall_mem_cons.mpr ⟨rfl, hlayout⟩⟩
      · simp [EndsBefore]
  | @blockComment content gap hcontent _ ih =>
      obtain ⟨row, rfl, hlayout, hrow⟩ := ih
      refine ⟨.blockComment content :: row, by simp [Lexeme.text], ?_, hcontent, trivial, hrow⟩
      exact List.forall_mem_cons.mpr ⟨rfl, hlayout⟩

/-! ## Relaid rows -/

/-- No hyphen of code stands directly in front of layout. -/
def Guarded (row : List Lexeme) : Prop :=
  ∀ front back, row = front ++ mark '-' :: back → back.head?.any isLayout = false

theorem IsLayout.head? (hgap : gap.IsLayout) :
    ∀ c ∈ gap.head?, Text.isAsciiBlank c = true ∨ c = '-' ∨ c = '/' := by
  cases hgap <;> simp [*]

theorem Guarded.right {first second : List Lexeme} (hguarded : Guarded (first ++ second)) :
    Guarded second := by
  rintro front back rfl
  exact hguarded (first ++ front) back (List.append_assoc ..).symm

/-- A relaid text begins as the text does, or both begin with layout. -/
theorem head?_relaid {fresh : Bool} (hfine : ∀ lexeme ∈ row, lexeme.IsFine)
    (hrelaid : Relaid (cellsOf fresh row) text) :
    text.head? = (textOf row).head? ∨ row.head?.any isLayout = true ∧
      ∀ c ∈ text.head?, Text.isAsciiBlank c = true ∨ c = '-' ∨ c = '/' := by
  cases row with
  | nil =>
      rw [cellsOf_nil] at hrelaid
      generalize hnil : ([] : List Cell) = cells at hrelaid
      cases hrelaid with
      | nil => exact .inl rfl
      | keep _ _ => exact absurd hnil.symm (List.cons_ne_nil _ _)
      | replace hne _ _ _ _ _ => exact absurd (List.append_eq_nil_iff.mp hnil.symm).1 hne
  | cons lexeme row =>
      have hlexeme := hfine lexeme List.mem_cons_self
      have hcells := fun cell hmem => @isLayout_cell lexeme fresh cell hlexeme hmem
      have htext := text_cells fresh lexeme
      rw [cellsOf_cons] at hrelaid
      cases hlayout : lexeme.isLayout with
      | true =>
          refine .inr ⟨hlayout, ?_⟩
          obtain ⟨cell, others, hfirst⟩ := exists_cells_of_isFine fresh hlexeme
          rw [hfirst, List.cons_append] at hrelaid
          have hcell := hcells cell (by simp [hfirst])
          obtain ⟨gap, behind, rfl, hne, hgap, -⟩ := hrelaid.of_replace (hcell.trans hlayout)
          rw [List.head?_append_of_ne_nil _ hne]
          exact IsLayout.head? hgap
      | false =>
          left
          obtain ⟨behind, rfl, -⟩ := hrelaid.of_keep_append fun cell hmem =>
            (hcells cell hmem).trans hlayout
          rw [htext, textOf_cons, List.head?_append_of_ne_nil _ hlexeme.text_ne_nil,
            List.head?_append_of_ne_nil _ hlexeme.text_ne_nil]

/-- A piece that is kept can be read in front of what is relaid behind it. -/
theorem EndsBefore.relaid {fresh : Bool} (hguarded : Guarded (lexeme :: row))
    (hlayout : lexeme.isLayout = false) (hfine : Fine none (lexeme :: row))
    (hrelaid : Relaid (cellsOf fresh row) text) : lexeme.EndsBefore text.head? := by
  obtain ⟨hlexeme, hends, hrow⟩ := hfine
  rw [Option.or_none] at hends
  rcases head?_relaid hrow.isFine hrelaid with heq | ⟨hbehind, hhead⟩
  · rwa [heq]
  · have hne : ∀ c : Char, Text.isAsciiBlank c = false ∧ c ≠ '-' ∧ c ≠ '/' → text.head? ≠ some c := by
      intro c hc hsome
      rcases hhead c hsome with hblank | rfl | rfl
      · rw [hc.1] at hblank
        exact absurd hblank (by decide)
      · exact hc.2.1 rfl
      · exact hc.2.2 rfl
    cases lexeme with
    | word _ => exact hlexeme.elim
    | mark c =>
        refine ⟨fun hline => ?_, fun hblock => hne '*' (by decide) hblock.2⟩
        obtain ⟨rfl, -⟩ := hline
        rw [hguarded [] row rfl] at hbehind
        exact absurd hbehind (by decide)
    | literal quote content => exact hne quote.char (by cases quote <;> decide)
    | lineComment _ | blockComment _ => exact absurd hlayout (by simp [isLayout, kind, SpanKind.isComment])

theorem covered_append (first second : List Lexeme) :
    covered (first ++ second) = covered first ++ covered second := List.flatMap_append

/-- A piece that is kept is masked as itself. -/
theorem covered_alike_cons {row' : List Lexeme} (hfine : lexeme.IsFine)
    (hlayout : lexeme.isLayout = false)
    (halike : Alike (Respelled id Eq) True (covered row) (covered row')) :
    Alike (Respelled id Eq) True (covered (lexeme :: row)) (covered (lexeme :: row')) := by
  rw [covered, covered, List.flatMap_cons, List.flatMap_cons]
  refine Alike.append ?_ halike
  cases lexeme with
  | mark c => exact .cons rfl .nil
  | literal quote content => exact .cons ⟨rfl, rfl⟩ .nil
  | word _ => exact hfine.elim
  | lineComment _ | blockComment _ => exact absurd hlayout (by simp [isLayout, kind, SpanKind.isComment])

/-- Layout is masked as a gap, whatever it is made of. -/
theorem covered_alike_append {run run' row' : List Lexeme} (hfine : ∀ lexeme ∈ run, lexeme.IsFine)
    (hfine' : ∀ lexeme ∈ run', lexeme.IsFine) (hrun : ∀ lexeme ∈ run, lexeme.isLayout = true)
    (hrun' : ∀ lexeme ∈ run', lexeme.isLayout = true) (hne : run ≠ []) (hne' : run' ≠ [])
    (halike : Alike (Respelled id Eq) True (covered row) (covered row')) :
    Alike (Respelled id Eq) True (covered (run ++ row)) (covered (run' ++ row')) := by
  obtain ⟨gap, hgap, hascii, hnonempty⟩ := exists_covered_layout hfine hrun
  obtain ⟨gap', hgap', hascii', hnonempty'⟩ := exists_covered_layout hfine' hrun'
  rw [covered_append, covered_append, hgap, hgap']
  exact Alike.gap trivial (hnonempty hne) (hnonempty' hne') hascii hascii' halike

/-- The layout at the front of a row is replaced as a whole. -/
theorem exists_run_of_relaid {fresh : Bool} (hfine : ∀ piece ∈ lexeme :: row, piece.IsFine)
    (hlayout : lexeme.isLayout = true) (hrelaid : Relaid (cellsOf fresh (lexeme :: row)) text) :
    ∃ run back fresh' gap behind, lexeme :: row = run ++ back ∧ run ≠ [] ∧
      (∀ piece ∈ run, piece.isLayout = true) ∧ text = gap ++ behind ∧ gap ≠ [] ∧ gap.IsLayout ∧
        Relaid (cellsOf fresh' back) behind := by
  obtain ⟨fresh', hdrop⟩ := dropWhile_isLayout_cellsOf fresh hfine
  obtain ⟨gap, behind, rfl, hne, hgap, hbehind⟩ : ∃ gap behind, text = gap ++ behind ∧
      gap ≠ [] ∧ gap.IsLayout ∧
        Relaid ((cellsOf fresh (lexeme :: row)).dropWhile Cell.isLayout) behind := by
    have hlexeme := hfine lexeme List.mem_cons_self
    rw [cellsOf_cons] at hrelaid ⊢
    obtain ⟨cell, others, hfirst⟩ := exists_cells_of_isFine fresh hlexeme
    have hcell := isLayout_cell fresh hlexeme (hfirst ▸ List.mem_cons_self)
    rw [hfirst, List.cons_append] at hrelaid ⊢
    exact hrelaid.of_replace (hcell.trans hlayout)
  rw [hdrop] at hbehind
  refine ⟨(lexeme :: row).takeWhile isLayout, (lexeme :: row).dropWhile isLayout, fresh', gap,
    behind, List.takeWhile_append_dropWhile.symm, ?_, fun _ hmem => List.mem_takeWhile_imp hmem, rfl,
    hne, hgap, hbehind⟩
  rw [List.takeWhile_cons_of_pos hlayout]
  exact List.cons_ne_nil _ _

/-- The text of a row, relaid, is the text of another row, and both rows are alike once their
comments are masked. -/
theorem exists_relaid {fresh : Bool} (hfine : Fine none row) (hguarded : Guarded row)
    (hrelaid : Relaid (cellsOf fresh row) text) :
    ∃ row', Fine none row' ∧ textOf row' = text ∧
      Alike (Respelled id Eq) True (covered row) (covered row') := by
  -- A run of layout is replaced at once, so a step takes one piece off the row or a whole run.
  induction hlength : row.length using Nat.strong_induction_on generalizing row fresh text with
  | _ length ih =>
      cases row with
      | nil =>
          rcases head?_relaid hfine.isFine hrelaid with hhead | ⟨hhead, -⟩
          · obtain rfl : text = [] := List.head?_eq_none_iff.mp hhead
            exact ⟨[], trivial, rfl, .nil⟩
          · exact absurd hhead Bool.false_ne_true
      | cons lexeme rest =>
          have hlexeme := hfine.1
          cases hlayout : lexeme.isLayout with
          | false =>
              rw [cellsOf_cons] at hrelaid
              obtain ⟨behind, rfl, hbehind⟩ := hrelaid.of_keep_append fun cell hmem =>
                (isLayout_cell fresh hlexeme hmem).trans hlayout
              obtain ⟨row', hrow', rfl, halike⟩ := ih rest.length (by rw [← hlength, List.length_cons]; omega)
                hfine.2.2 (@Guarded.right [lexeme] rest hguarded) hbehind rfl
              refine ⟨lexeme :: row', ⟨hlexeme, ?_, hrow'⟩, by rw [textOf_cons, text_cells],
                covered_alike_cons hlexeme hlayout halike⟩
              rw [Option.or_none]
              exact EndsBefore.relaid hguarded hlayout hfine hbehind
          | true =>
              obtain ⟨run, back, fresh', gap, behind, hrow, hfirst, hrun, rfl, hne, hgap, hbehind⟩ :=
                exists_run_of_relaid hfine.isFine hlayout hrelaid
              have hpos := List.length_pos_of_ne_nil hfirst
              rw [hrow] at hfine hguarded hlength ⊢
              rw [List.length_append] at hlength
              obtain ⟨back', hback', rfl, halike⟩ := ih back.length (by omega) hfine.right
                hguarded.right hbehind rfl
              obtain ⟨run', rfl, hrun', hrow'⟩ := exists_layout hgap hback'
              have hne' : run' ≠ [] := fun hnil => hne (by rw [hnil, textOf_nil])
              exact ⟨run' ++ back', hrow', textOf_append _ _, covered_alike_append
                (fun _ hmem => hfine.isFine _ (List.mem_append_left _ hmem))
                (fun _ hmem => hrow'.isFine _ (List.mem_append_left _ hmem)) hrun hrun' hfirst hne'
                halike⟩

end Lexeme

end SelectForm

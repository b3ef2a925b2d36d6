import Mathlib
import SelectForm.Proofs.Lexis.Piece

/-!
# Finely cut texts

A text that was not written by this library still falls into pieces: characters of
code one by one, and whole literals and comments.  Cut like that, every text is a
row of pieces unless a literal or a block comment is left open at its end.

The readers cut texts at characters of code and read each part alone.  A part of a
finely cut row is finely cut again, so the cells of a part are the cells that it has
in the whole, and no reader can tell whether it reads a part or a whole.
-/

namespace SelectForm

namespace Lexeme

/-- A piece of a finely cut text. -/
def IsFine : Lexeme → Prop
  | word _ => False
  | mark c => Quote.ofChar? c = none
  | literal _ _ => True
  | lineComment content => '\n' ∉ content
  | blockComment content => ¬ ['*', '/'] <:+: content

/-- Fine pieces that can be read one by one, when a given character is behind them. -/
def Fine (next : Option Char) : List Lexeme → Prop
  | [] => True
  | lexeme :: rest =>
    lexeme.IsFine ∧ lexeme.EndsBefore ((textOf rest).head?.or next) ∧ Fine next rest

/-- A character of code or a literal. -/
def IsAtom : Lexeme → Prop
  | mark _ | literal _ _ => True
  | _ => False

/-- Pieces among which there are no comments. -/
def Atomic (row : List Lexeme) : Prop := ∀ lexeme ∈ row, lexeme.IsAtom

variable {lexeme : Lexeme} {row first second : List Lexeme} {next : Option Char}

@[simp] theorem atomic_nil : Atomic [] := List.forall_mem_nil _

@[simp] theorem atomic_cons : Atomic (lexeme :: row) ↔ lexeme.IsAtom ∧ Atomic row :=
  List.forall_mem_cons

@[simp] theorem atomic_append : Atomic (first ++ second) ↔ Atomic first ∧ Atomic second :=
  List.forall_mem_append

theorem atomic_marks (text : Text) : Atomic (marks text) := by
  intro lexeme hmem
  obtain ⟨c, -, rfl⟩ := List.mem_map.mp hmem
  trivial

theorem IsAtom.text_ne_nil (hatom : lexeme.IsAtom) : lexeme.text ≠ [] := by
  cases lexeme with
  | mark c => simp [text]
  | literal quote content => simp [text, Quote.enclose]
  | word _ | lineComment _ | blockComment _ => exact hatom.elim

theorem IsFine.text_ne_nil (hfine : lexeme.IsFine) : lexeme.text ≠ [] := by
  cases lexeme with
  | word _ => exact hfine.elim
  | mark c => simp [text]
  | literal quote content => simp [text, Quote.enclose]
  | lineComment content => simp [text]
  | blockComment content => simp [text]

theorem Atomic.textOf_eq_nil_iff (hatomic : Atomic row) : textOf row = [] ↔ row = [] := by
  cases row with
  | nil => simp
  | cons lexeme row =>
      rw [atomic_cons] at hatomic
      simp [hatomic.1.text_ne_nil]

theorem Atomic.length_le_size (hatomic : Atomic row) : row.length ≤ Text.size (textOf row) := by
  induction row with
  | nil => exact Nat.zero_le _
  | cons lexeme row ih =>
      obtain ⟨hatom, hrow⟩ := atomic_cons.mp hatomic
      obtain ⟨c, rest, htext⟩ := List.exists_cons_of_ne_nil hatom.text_ne_nil
      have hlength := ih hrow
      have hc := c.utf8Size_pos
      rw [List.length_cons, textOf_cons, Text.size_append, htext, Text.size_cons]
      omega

/-! ## Parts of a finely cut row -/

theorem Fine.append_iff :
    Fine next (first ++ second) ↔
      Fine ((textOf second).head?.or next) first ∧ Fine next second := by
  induction first with
  | nil => simp [Fine]
  | cons lexeme rest ih =>
      simp [Fine, ih, List.head?_append, Option.or_assoc, and_assoc]

theorem EndsBefore.at_end (hends : lexeme.EndsBefore next) : lexeme.EndsBefore none := by
  cases lexeme with
  | word _ => rfl
  | mark c => simp [EndsBefore]
  | literal quote content => simp [EndsBefore]
  | lineComment content => exact .inl rfl
  | blockComment content => trivial

theorem Fine.at_end (hfine : Fine next row) : Fine none row := by
  induction row with
  | nil => trivial
  | cons lexeme row ih =>
      obtain ⟨hlexeme, hends, hrow⟩ := hfine
      refine ⟨hlexeme, ?_, ih hrow⟩
      cases hhead : (textOf row).head? with
      | none => exact hends.at_end
      | some c =>
          rw [hhead] at hends
          exact hends

theorem Fine.left (hfine : Fine next (first ++ second)) : Fine none first :=
  (Fine.append_iff.mp hfine).1.at_end

theorem Fine.right (hfine : Fine next (first ++ second)) : Fine next second :=
  (Fine.append_iff.mp hfine).2

theorem Fine.isFine (hfine : Fine next row) : ∀ lexeme ∈ row, lexeme.IsFine := by
  induction row with
  | nil => exact List.forall_mem_nil _
  | cons lexeme row ih => exact List.forall_mem_cons.mpr ⟨hfine.1, ih hfine.2.2⟩

/-! ## Cells -/

/-- The automaton sees a fine piece in a text as the piece alone. -/
theorem IsFine.run_text (fresh : Bool) (hfine : lexeme.IsFine)
    (hends : lexeme.EndsBefore next) :
    (Mode.ofFresh fresh).run next lexeme.text = (lexeme.cells fresh, lexeme.behind) := by
  cases lexeme with
  | word _ => exact hfine.elim
  | mark c =>
      have hquote : Quote.ofChar? c = none := hfine
      simp only [EndsBefore] at hends
      simp [text, cells, behind, kind, isCode, Mode.run_cons, Mode.step_ofFresh, Mode.enter,
        hquote, hends.1, hends.2]
  | literal quote content => exact @Lexeme.run_text next (literal quote content) fresh trivial hends
  | lineComment content => exact @Lexeme.run_text next (lineComment content) fresh hfine hends
  | blockComment content =>
      exact @Lexeme.run_text next (blockComment content) fresh hfine hends

/-- Behind a finely cut row the automaton goes on as if it had read nothing but code, or nothing. -/
theorem Fine.run_append {tail : Text} (fresh : Bool) (hfine : Fine (tail.head?.or next) row) :
    ((Mode.ofFresh fresh).run next (textOf row ++ tail)).1 =
        cellsOf fresh row ++ ((Mode.ofFresh (freshBehind fresh row)).run next tail).1 ∧
      ((Mode.ofFresh fresh).run next (textOf row ++ tail)).2.isOpen =
        ((Mode.ofFresh (freshBehind fresh row)).run next tail).2.isOpen := by
  induction row generalizing fresh with
  | nil => exact ⟨rfl, rfl⟩
  | cons lexeme rest ih =>
      obtain ⟨hlexeme, hends, hrest⟩ := hfine
      rw [← Option.or_assoc, ← List.head?_append] at hends
      have hbehind := run_behind hends
      have htail := ih (!lexeme.isCode) hrest
      rw [textOf_cons, List.append_assoc, Mode.run_append, hlexeme.run_text fresh hends, cellsOf_cons,
        List.append_assoc]
      exact ⟨by rw [hbehind.1, htail.1, freshBehind], by rw [hbehind.2, htail.2, freshBehind]⟩

theorem Fine.run_eq (fresh : Bool) (hfine : Fine next row) :
    ((Mode.ofFresh fresh).run next (textOf row)).1 = cellsOf fresh row ∧
      ((Mode.ofFresh fresh).run next (textOf row)).2.isOpen = false := by
  have hrun := @Fine.run_append row next [] fresh hfine
  rw [List.append_nil] at hrun
  refine ⟨hrun.1.trans (List.append_nil _), hrun.2.trans ?_⟩
  cases freshBehind fresh row <;> rfl

theorem Fine.cells_textOf (hfine : Fine none row) : (textOf row).cells = cellsOf true row := by
  have hrun := (hfine.run_eq true).1
  rwa [Mode.run_none] at hrun

theorem Fine.endsOpen_textOf (hfine : Fine none row) : (textOf row).endsOpen = false := by
  have hrun := (hfine.run_eq true).2
  rwa [Mode.run_none] at hrun

end Lexeme

/-! ## Every text is finely cut -/

theorem Quote.eq_char {c : Char} {quote : Quote} (hquote : ofChar? c = some quote) :
    c = quote.char := by
  unfold ofChar? at hquote
  split_ifs at hquote with hsingle hdouble
  · rw [← Option.some.inj hquote, hsingle]
    rfl
  · rw [← Option.some.inj hquote, hdouble]
    rfl

namespace Mode

/-- A literal is closed somewhere, with its content in front and a text behind it, or it runs on
to the end of the text. -/
theorem literal_cases (quote : Quote) (text : Text) :
    (∃ content back, text = quote.doubleIn content ++ quote.char :: back ∧
      back.head? ≠ some quote.char) ∨
    (quoted quote).cells text = text.map (⟨·, .quoted quote, false⟩) ∧
      ((quoted quote).after text).isOpen = true := by
  induction hlength : text.length using Nat.strong_induction_on generalizing text with
  | _ length ih =>
      cases text with
      | nil => exact .inr ⟨rfl, rfl⟩
      | cons c rest =>
          rw [List.length_cons] at hlength
          by_cases hc : c = quote.char
          · by_cases hnext : rest.head? = some quote.char
            · -- Two quotation marks stand for one, and the literal goes on.
              obtain ⟨others, rfl⟩ : ∃ others, rest = quote.char :: others :=
                ⟨rest.tail, by cases rest <;> simp_all⟩
              rw [List.length_cons] at hlength
              rcases ih _ (by omega) others rfl with ⟨content, back, rfl, hback⟩ | ⟨hcells, hopen⟩
              · refine .inl ⟨quote.char :: content, back, ?_, hback⟩
                simp [Quote.doubleIn, hc]
              · exact .inr ⟨by simp [cells, step, hc, hcells], by simpa [after, step, hc] using hopen⟩
            · exact .inl ⟨[], rest, by simp [Quote.doubleIn, hc], hnext⟩
          · rcases ih _ (by omega) rest rfl with ⟨content, back, rfl, hback⟩ | ⟨hcells, hopen⟩
            · refine .inl ⟨c :: content, back, ?_, hback⟩
              simp [Quote.doubleIn, hc]
            · exact .inr ⟨by simp [cells, step, hc, hcells], by simpa [after, step, hc] using hopen⟩

/-- A block comment is closed somewhere, or it runs on to the end of the text. -/
theorem blockComment_cases (text : Text) :
    (∃ content back, text = content ++ '*' :: '/' :: back ∧ ¬ ['*', '/'] <:+: content) ∨
    block.cells text = text.map (⟨·, .blockComment, false⟩) ∧ (block.after text).isOpen = true := by
  induction text with
  | nil => exact .inr ⟨rfl, rfl⟩
  | cons c rest ih =>
      by_cases hend : c = '*' ∧ rest.head? = some '/'
      · obtain ⟨rfl, hslash⟩ := hend
        obtain ⟨back, rfl⟩ : ∃ back, rest = '/' :: back :=
          ⟨rest.tail, by cases rest <;> simp_all⟩
        exact .inl ⟨[], back, rfl, by simp⟩
      · rcases ih with ⟨content, back, rfl, hcontent⟩ | ⟨hcells, hopen⟩
        · refine .inl ⟨c :: content, back, rfl, ?_⟩
          intro hinfix
          rcases List.infix_cons_iff.mp hinfix with hprefix | hinfix
          · obtain ⟨rfl, hslash⟩ := List.cons_prefix_cons.mp hprefix
            obtain ⟨tail, rfl⟩ := hslash
            exact hend ⟨rfl, rfl⟩
          · exact hcontent hinfix
        · exact .inr ⟨by simp [cells, step, hend, hcells], by simpa [after, step, hend] using hopen⟩

/-- A span that is no code begins in the same way behind code. -/
theorem enter_eq_of_kind {c : Char} {next : Option Char} (fresh : Bool)
    (hkind : (enter true c next).1.kind ≠ .code) : enter fresh c next = enter true c next := by
  unfold enter at hkind ⊢
  split
  · rfl
  · split_ifs with hline hblock
    · rfl
    · rfl
    · simp_all

end Mode

namespace Lexeme

variable {row : List Lexeme} {kind : SpanKind} {tail : Text}

/-- A literal or a block comment that is left open at the end of a text: all its cells are of
its kind. -/
structure LeftOpen (kind : SpanKind) (tail : Text) : Prop where
  kind_ne : kind ≠ .code
  exists_cells : ∃ c rest, tail = c :: rest ∧
    tail.cells = ⟨c, kind, true⟩ :: rest.map (⟨·, kind, false⟩)
  isOpen : tail.endsOpen = true

/-- What is left open is read in the same way behind code. -/
theorem LeftOpen.run_eq (hopen : LeftOpen kind tail) (fresh : Bool) :
    (Mode.ofFresh fresh).run none tail = (tail.cells, Mode.between.after tail) := by
  obtain ⟨c, rest, rfl, hcells⟩ := hopen.exists_cells
  have hfirst : (Mode.enter true c rest.head?).1 = ⟨c, kind, true⟩ := (List.cons.inj hcells).1
  have henter := @Mode.enter_eq_of_kind c rest.head? fresh (by rw [hfirst]; exact hopen.kind_ne)
  rw [Mode.run_none, Mode.cells, Mode.after, Mode.step_ofFresh, henter]
  rfl

/-- The cells of a finely cut row are in front of the cells of what is left open behind it. -/
theorem LeftOpen.cells_append (hopen : LeftOpen kind tail) (hfine : Fine tail.head? row) :
    (textOf row ++ tail).cells = cellsOf true row ++ tail.cells ∧
      (textOf row ++ tail).endsOpen = true := by
  have hrun := @Fine.run_append row none tail true (by rwa [Option.or_none])
  rw [Mode.run_none, hopen.run_eq] at hrun
  exact ⟨hrun.1, hrun.2.trans hopen.isOpen⟩

/-- A text begins with a piece that ends where the rest begins. -/
def BeginsFine (text : Text) : Prop :=
  ∃ (lexeme : Lexeme) (back : Text), text = lexeme.text ++ back ∧ lexeme.IsFine ∧
    lexeme.EndsBefore back.head?

theorem beginsFine_of_quote {c : Char} {quote : Quote} (hquote : Quote.ofChar? c = some quote)
    (rest : Text) : BeginsFine (c :: rest) ∨ LeftOpen (.quoted quote) (c :: rest) := by
  have hc : c = quote.char := Quote.eq_char hquote
  rcases Mode.literal_cases quote rest with ⟨content, back, rfl, hback⟩ | ⟨hcells, hopen⟩
  · exact .inl ⟨literal quote content, back, by simp [text, Quote.enclose, hc], trivial, hback⟩
  · have hstep : Mode.between.step c rest.head? = (⟨c, .quoted quote, true⟩, .quoted quote) := by
      simp [Mode.step, Mode.enter, hquote]
    refine .inr ⟨by simp, ⟨c, rest, rfl, ?_⟩, ?_⟩
    · rw [Text.cells, Mode.cells, hstep, hcells]
    · rwa [Text.endsOpen, Mode.after, hstep]

/-- A line comment is never left open, for the end of the text ends it. -/
theorem beginsFine_line (others : Text) : BeginsFine ('-' :: '-' :: others) := by
  have hback := List.head?_dropWhile_not (· != '\n') others
  refine ⟨lineComment (others.takeWhile (· != '\n')), others.dropWhile (· != '\n'), ?_, ?_, ?_⟩
  · simp [text, List.takeWhile_append_dropWhile]
  · intro hmem
    simpa using List.mem_takeWhile_imp hmem
  · generalize others.dropWhile (· != '\n') = back at hback ⊢
    cases back with
    | nil => exact .inl rfl
    | cons d back => exact .inr (by simpa using hback)

theorem beginsFine_of_block (others : Text) :
    BeginsFine ('/' :: '*' :: others) ∨ LeftOpen .blockComment ('/' :: '*' :: others) := by
  rcases Mode.blockComment_cases others with ⟨content, back, rfl, hcontent⟩ | ⟨hcells, hopen⟩
  · exact .inl ⟨blockComment content, back, by simp [text], hcontent, trivial⟩
  · have hstep : Mode.between.step '/' (some '*') = (⟨'/', .blockComment, true⟩, .blockHead) := rfl
    refine .inr ⟨by simp, ⟨'/', '*' :: others, rfl, ?_⟩, ?_⟩
    · rw [Text.cells, Mode.cells, List.head?_cons, hstep, Mode.cells, List.map_cons]
      exact congrArg (_ :: _ :: ·) hcells
    · rwa [Text.endsOpen, Mode.after, List.head?_cons, hstep, Mode.after]

theorem beginsFine_or_leftOpen (c : Char) (rest : Text) :
    BeginsFine (c :: rest) ∨ ∃ kind, LeftOpen kind (c :: rest) := by
  cases hquote : Quote.ofChar? c with
  | some quote => exact (beginsFine_of_quote hquote rest).imp_right fun hopen => ⟨_, hopen⟩
  | none =>
      by_cases hline : c = '-' ∧ rest.head? = some '-'
      · obtain ⟨rfl, hnext⟩ := hline
        obtain ⟨others, rfl⟩ := List.head?_eq_some_iff.mp hnext
        exact .inl (beginsFine_line others)
      · by_cases hblock : c = '/' ∧ rest.head? = some '*'
        · obtain ⟨rfl, hnext⟩ := hblock
          obtain ⟨others, rfl⟩ := List.head?_eq_some_iff.mp hnext
          exact (beginsFine_of_block others).imp_right fun hopen => ⟨_, hopen⟩
        · exact .inl ⟨mark c, rest, rfl, hquote, hline, hblock⟩

/-- A text is a finely cut row, and behind it is at most a literal or a block comment that is
left open. -/
theorem exists_fine_append (text : Text) : ∃ row tail, Fine tail.head? row ∧
    text = textOf row ++ tail ∧ (tail = [] ∨ ∃ kind, LeftOpen kind tail) := by
  induction hlength : text.length using Nat.strong_induction_on generalizing text with
  | _ length ih =>
      cases text with
      | nil => exact ⟨[], [], trivial, rfl, .inl rfl⟩
      | cons c rest =>
          rcases beginsFine_or_leftOpen c rest with ⟨lexeme, back, htext, hlexeme, hends⟩ | hopen
          · rw [htext, List.length_append] at hlength
            have hpos := List.length_pos_of_ne_nil hlexeme.text_ne_nil
            obtain ⟨row, tail, hfine, rfl, htail⟩ := ih back.length (by omega) back rfl
            rw [List.head?_append] at hends
            exact ⟨lexeme :: row, tail, ⟨hlexeme, hends, hfine⟩, by simp [htext], htail⟩
          · exact ⟨[], c :: rest, trivial, rfl, .inr hopen⟩

/-- A text in which nothing is left open is a finely cut row. -/
theorem exists_fine {text : Text} (hclosed : text.endsOpen = false) :
    ∃ row, Fine none row ∧ textOf row = text := by
  obtain ⟨row, tail, hfine, rfl, rfl | ⟨kind, hopen⟩⟩ := exists_fine_append text
  · exact ⟨row, hfine, (List.append_nil _).symm⟩
  · rw [(hopen.cells_append hfine).2] at hclosed
    exact absurd hclosed (by decide)

end Lexeme

end SelectForm

import Mathlib
import SelectForm.Text.Blank
import SelectForm.Text.Letter
import SelectForm.Lexis.Quoted
import SelectForm.Lexis.Span

/-!
# Lexemes

The lexical automaton reads a text character by character.  This file describes
what it sees when the text is put together from larger pieces: words, single
marks, literals and comments.  A list of such pieces is lexed if no piece runs
on into the next one, and then the cells of the whole text are the cells of the
pieces, one after the other.

The condition on neighbours only looks at one character behind a piece, so a
part of a lexed list is lexed again.  That is what lets a clause, a condition or
a list item be read alone, as the readers do, with the same cells that it has
inside the whole statement.
-/

namespace SelectForm

/-- A piece of a text. -/
inductive Lexeme
  /-- A run of characters to which a keyword must not be glued. -/
  | word (text : Text)
  /-- Any other character of code. -/
  | mark (c : Char)
  | literal (quote : Quote) (content : Text)
  | lineComment (content : Text)
  | blockComment (content : Text)
deriving DecidableEq, Repr

namespace Lexeme

/-- The piece as it is written. -/
def text : Lexeme → Text
  | word text => text
  | mark c => [c]
  | literal quote content => quote.enclose content
  | lineComment content => '-' :: '-' :: content
  | blockComment content => '/' :: '*' :: content ++ ['*', '/']

def kind : Lexeme → SpanKind
  | word _ | mark _ => .code
  | literal quote _ => .quoted quote
  | lineComment _ => .lineComment
  | blockComment _ => .blockComment

def isCode (lexeme : Lexeme) : Bool := lexeme.kind == .code

def isWord : Lexeme → Bool
  | word _ => true
  | _ => false

/-- The cells of a piece; `fresh` tells that a span has just ended before it. -/
def cells (fresh : Bool) (lexeme : Lexeme) : List Cell :=
  match lexeme.text with
  | [] => []
  | c :: rest =>
    ⟨c, lexeme.kind, fresh || !lexeme.isCode⟩ :: rest.map (⟨·, lexeme.kind, false⟩)

/-- The text of some pieces. -/
def textOf (lexemes : List Lexeme) : Text := lexemes.flatMap text

/-- The cells of some pieces. -/
def cellsOf (fresh : Bool) : List Lexeme → List Cell
  | [] => []
  | lexeme :: rest => lexeme.cells fresh ++ cellsOf (!lexeme.isCode) rest

/-- Whether a span has just ended behind some pieces. -/
def freshBehind (fresh : Bool) : List Lexeme → Bool
  | [] => fresh
  | lexeme :: rest => freshBehind (!lexeme.isCode) rest

/-- The last character of some pieces. -/
def lastOf (before : Option Char) : List Lexeme → Option Char
  | [] => before
  | lexeme :: rest => lastOf (lexeme.text.getLast?.or before) rest

/-- A piece that can be read as what it is. -/
def IsProper : Lexeme → Prop
  | word text => text ≠ [] ∧ ∀ c ∈ text, Text.isWordChar c = true
  | mark c => Text.isWordChar c = false ∧ Quote.ofChar? c = none
  | literal _ _ => True
  | lineComment content => '\n' ∉ content
  | blockComment content => ¬ ['*', '/'] <:+: content

/-- The character behind a piece does not change how the piece is read. -/
def EndsBefore (next : Option Char) : Lexeme → Prop
  | word _ => next.any Text.isWordChar = false
  | mark c => ¬ (c = '-' ∧ next = some '-') ∧ ¬ (c = '/' ∧ next = some '*')
  | literal quote _ => next ≠ some quote.char
  | lineComment _ => next = none ∨ next = some '\n'
  | blockComment _ => True

/-- Pieces that can be read one by one, when a given character is behind them. -/
def Lexed (next : Option Char) : List Lexeme → Prop
  | [] => True
  | lexeme :: rest =>
    lexeme.IsProper ∧ lexeme.EndsBefore ((textOf rest).head?.or next) ∧ Lexed next rest

@[simp] theorem textOf_nil : textOf [] = [] := rfl

@[simp] theorem textOf_cons (lexeme : Lexeme) (rest : List Lexeme) :
    textOf (lexeme :: rest) = lexeme.text ++ textOf rest := rfl

@[simp] theorem textOf_append (first second : List Lexeme) :
    textOf (first ++ second) = textOf first ++ textOf second :=
  List.flatMap_append

@[simp] theorem cellsOf_nil (fresh : Bool) : cellsOf fresh [] = [] := rfl

theorem cellsOf_cons (fresh : Bool) (lexeme : Lexeme) (rest : List Lexeme) :
    cellsOf fresh (lexeme :: rest) =
      lexeme.cells fresh ++ cellsOf (!lexeme.isCode) rest := rfl

@[simp] theorem cellsOf_mark (fresh : Bool) (c : Char) (rest : List Lexeme) :
    cellsOf fresh (mark c :: rest) = ⟨c, .code, fresh⟩ :: cellsOf false rest := by
  simp [cellsOf_cons, cells, text, kind, isCode]

@[simp] theorem cellsOf_append (fresh : Bool) (first second : List Lexeme) :
    cellsOf fresh (first ++ second) =
      cellsOf fresh first ++ cellsOf (freshBehind fresh first) second := by
  induction first generalizing fresh with
  | nil => rfl
  | cons lexeme rest ih => simp [cellsOf_cons, freshBehind, ih]

@[simp] theorem text_cells (fresh : Bool) (lexeme : Lexeme) :
    Cell.text (lexeme.cells fresh) = lexeme.text := by
  rw [cells]
  split <;> simp_all [Cell.text, Function.comp_def]

@[simp] theorem text_cellsOf (fresh : Bool) (lexemes : List Lexeme) :
    Cell.text (cellsOf fresh lexemes) = textOf lexemes := by
  induction lexemes generalizing fresh with
  | nil => rfl
  | cons lexeme rest ih =>
      have hlexeme := text_cells fresh lexeme
      have hrest := ih (!lexeme.isCode)
      simp only [Cell.text] at hlexeme hrest
      simp [cellsOf_cons, Cell.text, hlexeme, hrest]

theorem kind_of_mem_cells {fresh : Bool} {lexeme : Lexeme} {cell : Cell}
    (hmem : cell ∈ lexeme.cells fresh) : cell.kind = lexeme.kind := by
  rw [cells] at hmem
  split at hmem
  · simp at hmem
  · simp only [List.mem_cons, List.mem_map] at hmem
    rcases hmem with rfl | ⟨c, -, rfl⟩ <;> rfl

theorem lastOf_append (before : Option Char) (first second : List Lexeme) :
    lastOf before (first ++ second) = lastOf (lastOf before first) second := by
  induction first generalizing before with
  | nil => rfl
  | cons lexeme rest ih => simp [lastOf, ih]

theorem Lexed.append_iff {next : Option Char} {first second : List Lexeme} :
    Lexed next (first ++ second) ↔
      Lexed ((textOf second).head?.or next) first ∧ Lexed next second := by
  induction first with
  | nil => simp [Lexed]
  | cons lexeme rest ih =>
      simp [Lexed, ih, List.head?_append, Option.or_assoc, and_assoc]

theorem IsProper.text_ne_nil {lexeme : Lexeme} (hproper : lexeme.IsProper) :
    lexeme.text ≠ [] := by
  cases lexeme with
  | word text => exact hproper.1
  | mark c => simp [text]
  | literal quote content => simp [text, Quote.enclose]
  | lineComment content => simp [text]
  | blockComment content => simp [text]

theorem IsProper.exists_cells_eq_cons {lexeme : Lexeme} (fresh : Bool)
    (hproper : lexeme.IsProper) :
    ∃ c others, lexeme.text = c :: others ∧
      lexeme.cells fresh = ⟨c, lexeme.kind, fresh || !lexeme.isCode⟩ ::
        others.map (⟨·, lexeme.kind, false⟩) := by
  obtain ⟨c, others, htext⟩ := List.exists_cons_of_ne_nil hproper.text_ne_nil
  exact ⟨c, others, htext, by rw [cells, htext]⟩

end Lexeme

/-! ## Runs of the automaton -/

namespace Mode

theorem char_step (mode : Mode) (c : Char) (next : Option Char) : (mode.step c next).1.char = c := by
  have hcells := congrArg List.head? (Mode.text_cells mode (c :: next.toList))
  cases next <;> simpa [cells, Cell.text] using hcells

/-- Reads a text that has a given character behind it: its cells, and the mode
behind it. -/
def run (next : Option Char) (mode : Mode) : Text → List Cell × Mode
  | [] => ([], mode)
  | c :: rest =>
    let here := mode.step c (rest.head?.or next)
    let behind := run next here.2 rest
    (here.1 :: behind.1, behind.2)

@[simp] theorem run_nil (next : Option Char) (mode : Mode) : mode.run next [] = ([], mode) :=
  rfl

theorem run_cons (next : Option Char) (mode : Mode) (c : Char) (rest : Text) :
    mode.run next (c :: rest) =
      ((mode.step c (rest.head?.or next)).1 ::
          ((mode.step c (rest.head?.or next)).2.run next rest).1,
        ((mode.step c (rest.head?.or next)).2.run next rest).2) := rfl

theorem run_none (mode : Mode) (text : Text) :
    mode.run none text = (mode.cells text, mode.after text) := by
  induction text generalizing mode with
  | nil => rfl
  | cons c rest ih => simp [run_cons, cells, after, ih]

theorem length_run (next : Option Char) (mode : Mode) (text : Text) :
    (mode.run next text).1.length = text.length := by
  induction text generalizing mode with
  | nil => rfl
  | cons c rest ih => rw [run_cons, List.length_cons, List.length_cons, ih]

/-- A text that is cut in two is read in two runs. -/
theorem run_append (next : Option Char) (mode : Mode) (first second : Text) :
    mode.run next (first ++ second) =
      ((mode.run (second.head?.or next) first).1 ++
          ((mode.run (second.head?.or next) first).2.run next second).1,
        ((mode.run (second.head?.or next) first).2.run next second).2) := by
  induction first generalizing mode with
  | nil => rfl
  | cons c rest ih => simp [run_cons, ih, List.head?_append, Option.or_assoc]

/-- The mode in which the next span or more code begins. -/
def ofFresh (fresh : Bool) : Mode := if fresh then .between else .code

theorem step_ofFresh (fresh : Bool) (c : Char) (next : Option Char) :
    (ofFresh fresh).step c next = enter fresh c next := by
  cases fresh <;> rfl

/-- Characters that never open a literal or a comment are read as code. -/
theorem run_plain {text : Text} (next : Option Char)
    (hplain : ∀ c ∈ text, Quote.ofChar? c = none ∧ c ≠ '-' ∧ c ≠ '/') :
    code.run next text = (text.map (⟨·, .code, false⟩), code) := by
  induction text with
  | nil => rfl
  | cons c rest ih =>
      have hc := hplain c (by simp)
      have hrest := ih fun d hd => hplain d (by simp [hd])
      simp [run_cons, step, enter, hc, hrest]

theorem run_quoted (next : Option Char) (quote : Quote) (content : Text)
    (hnext : next ≠ some quote.char) :
    (quoted quote).run next (quote.doubleIn content ++ [quote.char]) =
      ((quote.doubleIn content ++ [quote.char]).map (⟨·, .quoted quote, false⟩), between) := by
  induction content with
  | nil => simp [Quote.doubleIn, run_cons, step, hnext]
  | cons c rest ih =>
      by_cases hc : c = quote.char
      · subst hc
        simp only [Quote.doubleIn, List.flatMap_cons, if_true, List.cons_append,
          List.nil_append] at ih ⊢
        simp only [run_cons, List.head?_cons, Option.some_or, step, if_true, List.map_cons]
        rw [ih]
      · simp only [Quote.doubleIn, List.flatMap_cons, if_neg hc, List.cons_append,
          List.nil_append] at ih ⊢
        simp only [run_cons, step, if_neg hc, List.map_cons]
        rw [ih]

theorem run_line (next : Option Char) (content : Text) (hcontent : '\n' ∉ content) :
    line.run next content = (content.map (⟨·, .lineComment, false⟩), line) := by
  induction content with
  | nil => rfl
  | cons c rest ih =>
      obtain ⟨hc, hrest⟩ := not_or.mp (mt List.mem_cons.mpr hcontent)
      simp [run_cons, step, Ne.symm hc, ih hrest]

/-- The rest of a comment between a slash and a star and a star and a slash. -/
theorem run_block (next : Option Char) (content : Text)
    (hcontent : ¬ ['*', '/'] <:+: content) :
    block.run next (content ++ ['*', '/']) =
      ((content ++ ['*', '/']).map (⟨·, .blockComment, false⟩), between) := by
  induction content with
  | nil => simp [run_cons, step]
  | cons c rest ih =>
      have hrest : ¬ ['*', '/'] <:+: rest := fun h =>
        hcontent (h.trans (List.suffix_cons c rest).isInfix)
      have hstay : ¬ (c = '*' ∧ (rest ++ ['*', '/']).head?.or next = some '/') := by
        rintro ⟨rfl, hslash⟩
        cases rest with
        | nil => simp at hslash
        | cons d others =>
            simp only [List.cons_append, List.head?_cons, Option.some_or,
              Option.some.injEq] at hslash
            subst hslash
            exact hcontent ⟨[], others, rfl⟩
      simp only [List.cons_append, run_cons, step, if_neg hstay, List.map_cons]
      rw [ih hrest]

end Mode

/-! ## Lexed text -/

namespace Text

theorem plain_of_isWordChar {c : Char} (hword : isWordChar c = true) :
    Quote.ofChar? c = none ∧ c ≠ '-' ∧ c ≠ '/' := by
  have hne : ∀ d : Char, isWordChar d = false → c ≠ d := by
    rintro d hd rfl
    simp [hword] at hd
  refine ⟨?_, hne '-' (by decide), hne '/' (by decide)⟩
  simp [Quote.ofChar?, hne '\'' (by decide), hne '"' (by decide)]

end Text

namespace Lexeme

/-- The mode behind a piece. -/
def behind : Lexeme → Mode
  | word _ | mark _ => .code
  | literal _ _ | blockComment _ => .between
  | lineComment _ => .line

/-- The automaton sees a piece in a text as the piece alone. -/
theorem run_text {next : Option Char} {lexeme : Lexeme} (fresh : Bool)
    (hproper : lexeme.IsProper) (hends : lexeme.EndsBefore next) :
    (Mode.ofFresh fresh).run next lexeme.text = (lexeme.cells fresh, lexeme.behind) := by
  cases lexeme with
  | word text =>
      obtain ⟨hne, hword⟩ := hproper
      cases text with
      | nil => exact absurd rfl hne
      | cons c rest =>
          have hc := Text.plain_of_isWordChar (hword c (by simp))
          have hrest := Mode.run_plain next fun d hd =>
            Text.plain_of_isWordChar (hword d (List.mem_cons_of_mem c hd))
          simp [Lexeme.text, cells, behind, kind, isCode, Mode.run_cons, Mode.step_ofFresh,
            Mode.enter, hc, hrest]
  | mark c =>
      simp only [EndsBefore] at hends
      simp [Lexeme.text, cells, behind, kind, isCode, Mode.run_cons, Mode.step_ofFresh,
        Mode.enter, hproper.2, hends.1, hends.2]
  | literal quote content =>
      have hquote : Quote.ofChar? quote.char = some quote := by cases quote <;> rfl
      have hrest := Mode.run_quoted next quote content hends
      simp only [Lexeme.text, Quote.enclose, List.cons_append, Mode.run_cons,
        Mode.step_ofFresh, Mode.enter, hquote, hrest]
      simp [cells, Lexeme.text, Quote.enclose, kind, isCode, behind]
  | lineComment content =>
      have hrest := Mode.run_line next content hproper
      simp only [Lexeme.text, Mode.run_cons, Mode.step_ofFresh, Mode.enter]
      simp [cells, Lexeme.text, kind, isCode, behind, Quote.ofChar?, Mode.step, hrest]
  | blockComment content =>
      have hrest := Mode.run_block next content hproper
      simp only [Lexeme.text, List.cons_append, Mode.run_cons, Mode.step_ofFresh, Mode.enter]
      simp [cells, Lexeme.text, kind, isCode, behind, Quote.ofChar?, Mode.step, hrest]

/-- The mode behind a piece reads what is behind it like the mode between spans or
the mode inside code. -/
theorem run_behind {next : Option Char} {lexeme : Lexeme} {text : Text}
    (hends : lexeme.EndsBefore (text.head?.or next)) :
    (lexeme.behind.run next text).1 = ((Mode.ofFresh (!lexeme.isCode)).run next text).1 ∧
      (lexeme.behind.run next text).2.isOpen =
        ((Mode.ofFresh (!lexeme.isCode)).run next text).2.isOpen := by
  cases lexeme with
  | word _ | mark _ | literal _ _ | blockComment _ => exact ⟨rfl, rfl⟩
  | lineComment _ =>
      cases text with
      | nil => exact ⟨rfl, rfl⟩
      | cons c rest =>
          have hc : c = '\n' := by simpa [EndsBefore] using hends
          subst hc
          exact ⟨rfl, rfl⟩

/-- The cells of a lexed text are the cells of its pieces, and nothing is left open
at its end. -/
theorem Lexed.run_eq {next : Option Char} {lexemes : List Lexeme} (fresh : Bool)
    (hlexed : Lexed next lexemes) :
    ((Mode.ofFresh fresh).run next (textOf lexemes)).1 = cellsOf fresh lexemes ∧
      ((Mode.ofFresh fresh).run next (textOf lexemes)).2.isOpen = false := by
  induction lexemes generalizing fresh with
  | nil => cases fresh <;> exact ⟨rfl, rfl⟩
  | cons lexeme rest ih =>
      obtain ⟨hproper, hends, hrest⟩ := hlexed
      have hbehind := run_behind hends
      have htail := ih (!lexeme.isCode) hrest
      rw [textOf_cons, Mode.run_append, run_text fresh hproper hends, cellsOf_cons]
      exact ⟨by rw [hbehind.1, htail.1], by rw [hbehind.2, htail.2]⟩

theorem Lexed.cells_textOf {lexemes : List Lexeme} (hlexed : Lexed none lexemes) :
    (textOf lexemes).cells = cellsOf true lexemes := by
  have hrun := (hlexed.run_eq true).1
  rwa [Mode.run_none] at hrun

theorem Lexed.endsOpen_textOf {lexemes : List Lexeme} (hlexed : Lexed none lexemes) :
    (textOf lexemes).endsOpen = false := by
  have hrun := (hlexed.run_eq true).2
  rwa [Mode.run_none] at hrun

end Lexeme

end SelectForm

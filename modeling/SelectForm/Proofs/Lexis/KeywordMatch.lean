import Mathlib
import SelectForm.Lexis.Segment
import SelectForm.Proofs.Lexis.Lexeme

/-!
# Keywords in lexed text

A keyword is looked for among the cells of a text.  In a lexed text it can be
looked for among the pieces instead: a phrase consists of whole words with
blanks between them, and a symbol of marks.  The two searches agree wherever no
character of a name stands in front, and where one does, only a symbol could
match, which a name never contains.

The first label of a keyword decides most searches.  A piece whose label begins
none of the keywords is passed over, whatever is behind it.
-/

namespace SelectForm

namespace Text

theorem isWordChar_of_isAlpha {c : Char} (hletter : c.isAlpha = true) : isWordChar c = true := by
  simp [isWordChar, Char.isAlphanum, hletter]

theorem isWordChar_of_isUpper_toUpper {c : Char} (hupper : c.toUpper.isUpper = true) :
    isWordChar c = true :=
  isWordChar_of_isAlpha ((Char.isUpper_toUpper_eq_isAlpha c).symm.trans hupper)

theorem not_isWordChar_of_isAsciiBlank {c : Char} (hblank : isAsciiBlank c = true) :
    isWordChar c = false := by
  simp only [isAsciiBlank, Bool.or_eq_true, beq_iff_eq] at hblank
  rcases hblank with (((rfl | rfl) | rfl) | rfl) | rfl <;> decide

theorem isAsciiBlank_eq_false_of_isWordChar {c : Char} (hc : isWordChar c = true) :
    isAsciiBlank c = false := by
  by_contra hblank
  rw [not_isWordChar_of_isAsciiBlank (Bool.of_not_eq_false hblank)] at hc
  exact Bool.false_ne_true hc

end Text

namespace Cell

/-- Whether the cell is code and holds a character of words. -/
def isWordCode (cell : Cell) : Bool := cell.isCode && Text.isWordChar cell.char

/-- Whether no character of words stands at the front of some cells. -/
def Bounded (cells : List Cell) : Prop :=
  cells.head?.any (fun cell => Text.isWordChar cell.char) = false

instance (cells : List Cell) : Decidable (Bounded cells) :=
  inferInstanceAs (Decidable (_ = false))

end Cell

/-! ## The front of lexed text -/

namespace Lexeme

/-- A blank that may stand between the words of a phrase. -/
def isGap : Lexeme → Bool
  | mark c => Text.isAsciiBlank c
  | _ => false

/-- What a keyword may begin with: a word in capitals or a mark. -/
def label : Lexeme → Text
  | word text => text.map Char.toUpper
  | mark c => [c]
  | _ => []

theorem map_toUpper_cells (fresh : Bool) (lexeme : Lexeme) :
    (lexeme.cells fresh).map (·.char.toUpper) = lexeme.text.map Char.toUpper := by
  rw [← text_cells fresh lexeme, Cell.text, List.map_map, Function.comp_def]

theorem length_cellsOf (fresh : Bool) (lexemes : List Lexeme) :
    (cellsOf fresh lexemes).length = (textOf lexemes).length := by
  rw [← text_cellsOf fresh lexemes, Cell.text, List.length_map]

theorem head?_textOf_cellsOf (fresh : Bool) (lexemes : List Lexeme) :
    (cellsOf fresh lexemes).head?.map Cell.char = (textOf lexemes).head? := by
  rw [← text_cellsOf fresh, Cell.text, List.head?_map]

theorem bounded_cellsOf_iff (fresh : Bool) (lexemes : List Lexeme) :
    Cell.Bounded (cellsOf fresh lexemes) ↔
      (textOf lexemes).head?.any Text.isWordChar = false := by
  rw [Cell.Bounded, ← head?_textOf_cellsOf fresh, Option.any_map]

theorem IsProper.head?_text {lexeme : Lexeme} (hproper : lexeme.IsProper) :
    lexeme.text.head?.any Text.isWordChar = lexeme.isWord := by
  cases lexeme with
  | word text =>
      obtain ⟨hne, hword⟩ := hproper
      cases text with
      | nil => exact absurd rfl hne
      | cons c rest => simpa [text, isWord] using hword c (by simp)
  | mark c => simpa [text, isWord] using hproper.1
  | literal quote content => cases quote <;> simp [text, Quote.enclose, isWord, Quote.char] <;> rfl
  | lineComment content => rfl
  | blockComment content => rfl

theorem IsProper.head?_textOf {lexeme : Lexeme} (hproper : lexeme.IsProper)
    (rest : List Lexeme) :
    (textOf (lexeme :: rest)).head?.any Text.isWordChar = lexeme.isWord := by
  rw [← hproper.head?_text, textOf_cons, List.head?_append_of_ne_nil _ hproper.text_ne_nil]

theorem Lexed.bounded_behind_word {text : Text} {rest : List Lexeme} (fresh : Bool)
    (hlexed : Lexed none (word text :: rest)) : Cell.Bounded (cellsOf fresh rest) := by
  rw [bounded_cellsOf_iff]
  simpa [EndsBefore] using hlexed.2.1

theorem Lexed.bounded_of_head {lexeme : Lexeme} {rest : List Lexeme} (fresh : Bool)
    (hlexed : Lexed none (lexeme :: rest)) (hword : lexeme.isWord = false) :
    Cell.Bounded (cellsOf fresh (lexeme :: rest)) := by
  rw [bounded_cellsOf_iff, hlexed.1.head?_textOf, hword]

theorem isWordCode_of_mem_cells_word {text : Text} {fresh : Bool} {cell : Cell}
    (hproper : (word text).IsProper) (hmem : cell ∈ (word text).cells fresh) :
    cell.isWordCode = true := by
  have hkind := kind_of_mem_cells hmem
  have hchar : cell.char ∈ text := by
    have hmap : cell.char ∈ Cell.text ((word text).cells fresh) := List.mem_map_of_mem hmem
    rwa [text_cells] at hmap
  simp [Cell.isWordCode, Cell.isCode, hkind, kind, hproper.2 _ hchar]

/-- No word stands at the front of some pieces if a character of words is before
them. -/
def StartsBehind (before : Option Char) (lexemes : List Lexeme) : Prop :=
  lexemes.head?.any isWord = true → before.any Text.isWordChar = false

theorem startsBehind_none (lexemes : List Lexeme) : StartsBehind none lexemes :=
  fun _ => rfl

theorem startsBehind_of_any {before : Option Char}
    (hbefore : before.any Text.isWordChar = false) (lexemes : List Lexeme) :
    StartsBehind before lexemes :=
  fun _ => hbefore

/-- Only a word, or a comment that ends with its line, ends with a character of
words. -/
theorem Lexed.startsBehind_cons {lexeme next : Lexeme} {rest : List Lexeme}
    (before : Option Char) (hlexed : Lexed none (lexeme :: next :: rest)) :
    StartsBehind (lexeme.text.getLast?.or before) (next :: rest) := by
  intro hword
  have hword : next.isWord = true := by simpa using hword
  have hfirst : (textOf (next :: rest)).head?.any Text.isWordChar = true := by
    rw [hlexed.2.2.1.head?_textOf, hword]
  cases lexeme with
  | word text =>
      have hends := hlexed.2.1
      rw [EndsBefore, Option.or_none, hfirst] at hends
      exact absurd hends (by simp)
  | mark c => simpa [text] using hlexed.1.1
  | literal quote content =>
      have hlast : (literal quote content).text.getLast? = some quote.char :=
        List.getLast?_concat ..
      rw [hlast]
      cases quote <;> rfl
  | lineComment content =>
      have hends := hlexed.2.1
      simp only [EndsBefore, Option.or_none] at hends
      rcases hends with hends | hends <;> rw [hends] at hfirst <;> simp at hfirst
      exact absurd hfirst (by decide)
  | blockComment content =>
      have hlast : (blockComment content).text.getLast? = some '/' := by
        have htext : (blockComment content).text = ('/' :: '*' :: content ++ ['*']) ++ ['/'] := by
          simp [text]
        rw [htext, List.getLast?_concat]
      rw [hlast]
      rfl

theorem Lexed.startsBehind {before : Option Char} {front rest : List Lexeme}
    (hlexed : Lexed none (front ++ rest)) (hbefore : StartsBehind before (front ++ rest)) :
    StartsBehind (lastOf before front) rest := by
  induction front generalizing before with
  | nil => exact hbefore
  | cons lexeme front ih =>
      rw [lastOf]
      cases hnext : front ++ rest with
      | nil =>
          obtain ⟨rfl, rfl⟩ := List.append_eq_nil_iff.mp hnext
          intro hword
          simp at hword
      | cons next others =>
          refine ih hlexed.2.2 ?_
          rw [List.cons_append, hnext] at hlexed
          rw [hnext]
          exact hlexed.startsBehind_cons before

theorem IsProper.isGap_first {lexeme : Lexeme} {c : Char} {others : Text} (opens : Bool)
    (hproper : lexeme.IsProper) (htext : lexeme.text = c :: others) :
    Keyword.isGap ⟨c, lexeme.kind, opens⟩ = lexeme.isGap := by
  cases lexeme with
  | word text =>
      have hmem : c ∈ text := by
        simp only [Lexeme.text] at htext
        simp [htext]
      have hblank := Text.isAsciiBlank_eq_false_of_isWordChar (hproper.2 c hmem)
      simp [Keyword.isGap, isGap, hblank]
  | mark d =>
      simp only [Lexeme.text, List.cons.injEq] at htext
      simp [Keyword.isGap, isGap, Cell.isCode, kind, htext.1]
  | literal _ _ | lineComment _ | blockComment _ => rfl

theorem Lexed.head?_isGap {lexemes : List Lexeme} {next : Option Char} (fresh : Bool)
    (hlexed : Lexed next lexemes) :
    (cellsOf fresh lexemes).head?.any Keyword.isGap = lexemes.head?.any isGap := by
  cases lexemes with
  | nil => rfl
  | cons lexeme rest =>
      obtain ⟨c, others, htext, hcells⟩ := hlexed.1.exists_cells_eq_cons fresh
      simp [cellsOf_cons, hcells, hlexed.1.isGap_first _ htext]

theorem Lexed.dropWhile_isGap {lexemes : List Lexeme} {next : Option Char}
    (hlexed : Lexed next lexemes) :
    (cellsOf false lexemes).dropWhile Keyword.isGap =
      cellsOf false (lexemes.dropWhile isGap) := by
  induction lexemes with
  | nil => rfl
  | cons lexeme rest ih =>
      cases hgap : lexeme.isGap with
      | true =>
          cases lexeme with
          | mark c =>
              have hc : Keyword.isGap ⟨c, .code, false⟩ = true := hgap
              simp [hc, hgap, ih hlexed.2.2]
          | word _ | literal _ _ | lineComment _ | blockComment _ => simp [isGap] at hgap
      | false =>
          obtain ⟨c, others, htext, hcells⟩ := hlexed.1.exists_cells_eq_cons false
          have hfirst := hlexed.1.isGap_first (false || !lexeme.isCode) htext
          rw [List.dropWhile_cons_of_neg (by simp [hgap]), cellsOf_cons, hcells,
            List.cons_append, List.dropWhile_cons_of_neg (by rw [hfirst, hgap]; exact Bool.false_ne_true)]

theorem Lexed.dropWhile {lexemes : List Lexeme} {next : Option Char} (skip : Lexeme → Bool)
    (hlexed : Lexed next lexemes) : Lexed next (lexemes.dropWhile skip) := by
  induction lexemes with
  | nil => exact hlexed
  | cons lexeme rest ih =>
      rw [List.dropWhile_cons]
      split
      · exact ih hlexed.2.2
      · exact hlexed

/-- The word at the front of lexed text is its longest run of characters of words. -/
theorem Lexed.takeWhile_isWordCode {text : Text} {rest : List Lexeme} {fresh : Bool}
    (hlexed : Lexed none (word text :: rest)) :
    (cellsOf fresh (word text :: rest)).takeWhile Cell.isWordCode =
      (word text).cells fresh := by
  have hrest : (cellsOf false rest).takeWhile Cell.isWordCode = [] := by
    have hbounded := hlexed.bounded_behind_word false
    cases hcells : cellsOf false rest with
    | nil => rfl
    | cons cell others =>
        rw [Cell.Bounded, hcells] at hbounded
        have hchar : Text.isWordChar cell.char = false := by simpa using hbounded
        rw [List.takeWhile_cons_of_neg (by simp [Cell.isWordCode, hchar])]
  rw [cellsOf_cons, List.takeWhile_append_of_pos fun cell hmem =>
    isWordCode_of_mem_cells_word hlexed.1 hmem]
  simp only [isCode, kind, beq_self_eq_true, Bool.not_true, hrest, List.append_nil]

theorem Lexed.takeWhile_isWordCode_of_head {lexeme : Lexeme} {rest : List Lexeme}
    {fresh : Bool} (hlexed : Lexed none (lexeme :: rest)) (hword : lexeme.isWord = false) :
    (cellsOf fresh (lexeme :: rest)).takeWhile Cell.isWordCode = [] := by
  have hbounded := hlexed.bounded_of_head fresh hword
  cases hcells : cellsOf fresh (lexeme :: rest) with
  | nil => rfl
  | cons cell others =>
      rw [Cell.Bounded, hcells] at hbounded
      have hchar : Text.isWordChar cell.char = false := by simpa using hbounded
      rw [List.takeWhile_cons_of_neg (by simp [Cell.isWordCode, hchar])]

end Lexeme

/-! ## Matching a keyword with pieces -/

namespace Keyword

/-- A phrase of words in capitals, or a symbol of marks. -/
def isPlain (keyword : Keyword) : Bool :=
  match keyword.form with
  | .phrase words =>
    !words.isEmpty && words.all fun word => !word.isEmpty && word.all Char.isUpper
  | .symbol text =>
    !text.isEmpty &&
      text.all fun c => !Text.isWordChar c && (Quote.ofChar? c).isNone

/-- What a piece must be labelled with for a keyword to begin there. -/
def firstLabel (keyword : Keyword) : Text :=
  match keyword.form with
  | .phrase words => words.headD []
  | .symbol text => text.take 1

/-- What is behind a word. -/
def behindWord? (word : Text) : List Lexeme → Option (List Lexeme)
  | .word text :: rest => if text.map Char.toUpper = word then some rest else none
  | _ => none

/-- What is behind some words, each with a gap in front of it. -/
def behindWords? : List Text → List Lexeme → Option (List Lexeme)
  | [], lexemes => some lexemes
  | word :: words, lexemes =>
    if lexemes.head?.any Lexeme.isGap then
      (behindWord? word (lexemes.dropWhile Lexeme.isGap)).bind (behindWords? words)
    else
      none

/-- What is behind a phrase. -/
def behindPhrase? : List Text → List Lexeme → Option (List Lexeme)
  | [], lexemes => some lexemes
  | word :: words, lexemes => (behindWord? word lexemes).bind (behindWords? words)

/-- What is behind a symbol. -/
def behindSymbol? : Text → List Lexeme → Option (List Lexeme)
  | [], lexemes => some lexemes
  | c :: symbol, .mark d :: rest => if d = c then behindSymbol? symbol rest else none
  | _ :: _, _ => none

/-- What is behind a keyword that stands at the front of some pieces. -/
def behind? (keyword : Keyword) (lexemes : List Lexeme) : Option (List Lexeme) :=
  match keyword.form with
  | .phrase words => behindPhrase? words lexemes
  | .symbol text => behindSymbol? text lexemes

/-! ### Words -/

theorem afterWord?_eq_some_iff {word : Text} {cells rest : List Cell} :
    afterWord? word cells = some rest ↔
      ∃ front, cells = front ++ rest ∧ front.map (·.char.toUpper) = word ∧
        ∀ cell ∈ front, cell.isCode = true := by
  induction word generalizing cells with
  | nil => simp [afterWord?]
  | cons c word ih =>
      cases cells with
      | nil => simp [afterWord?]
      | cons cell cells =>
          rw [afterWord?]
          constructor
          · intro h
            split at h
            · rename_i hcell
              rw [Bool.and_eq_true, beq_iff_eq] at hcell
              obtain ⟨front, rfl, hmap, hcode⟩ := ih.mp h
              exact ⟨cell :: front, rfl, by simp [hcell.2, hmap], by simpa [hcell.1] using hcode⟩
            · exact absurd h (by simp)
          · rintro ⟨front, hfront, hmap, hcode⟩
            cases front with
            | nil => simp at hmap
            | cons first front =>
                obtain ⟨rfl, rfl⟩ := List.cons.inj hfront
                simp only [List.map_cons, List.cons.injEq] at hmap
                rw [if_pos (by simp [hmap.1, hcode cell (by simp)])]
                exact ih.mpr ⟨front, rfl, hmap.2, fun d hd => hcode d (by simp [hd])⟩

theorem behindWord?_eq_some_iff {word : Text} {lexemes others : List Lexeme} :
    behindWord? word lexemes = some others ↔
      ∃ text, lexemes = .word text :: others ∧ text.map Char.toUpper = word := by
  cases lexemes with
  | nil => simp [behindWord?]
  | cons lexeme lexemes =>
      cases lexeme with
      | word text => simp [behindWord?, and_comm]
      | mark _ | literal _ _ | lineComment _ | blockComment _ => simp [behindWord?]

/-- Letters of code with a boundary behind them are all the word characters at the front. -/
theorem takeWhile_isWordCode_eq {front rest : List Cell}
    (hupper : (front.map (·.char.toUpper)).all Char.isUpper = true)
    (hcode : ∀ cell ∈ front, cell.isCode = true) (hbounded : Cell.Bounded rest) :
    (front ++ rest).takeWhile Cell.isWordCode = front := by
  have hall : ∀ cell ∈ front, cell.isWordCode = true := by
    intro cell hmem
    have hletter : cell.char.toUpper.isUpper = true := by
      rw [List.all_eq_true] at hupper
      exact hupper _ (List.mem_map_of_mem hmem)
    simp [Cell.isWordCode, hcode cell hmem, Text.isWordChar_of_isUpper_toUpper hletter]
  have hrest : rest.takeWhile Cell.isWordCode = [] := by
    cases rest with
    | nil => rfl
    | cons cell rest =>
        have hchar : Text.isWordChar cell.char = false := by simpa [Cell.Bounded] using hbounded
        rw [List.takeWhile_cons_of_neg (by simp [Cell.isWordCode, hchar])]
  rw [List.takeWhile_append_of_pos hall, hrest, List.append_nil]

/-- The word characters at the front of a text are its first piece. -/
theorem exists_word_of_takeWhile {lexemes : List Lexeme} (fresh : Bool)
    (hlexed : Lexeme.Lexed none lexemes)
    (hne : (Lexeme.cellsOf fresh lexemes).takeWhile Cell.isWordCode ≠ []) :
    ∃ text others, lexemes = .word text :: others ∧
      (Lexeme.cellsOf fresh lexemes).takeWhile Cell.isWordCode = (Lexeme.word text).cells fresh := by
  cases lexemes with
  | nil => exact absurd rfl hne
  | cons lexeme others =>
      cases hword : lexeme.isWord with
      | false => exact absurd (hlexed.takeWhile_isWordCode_of_head hword) hne
      | true =>
          cases lexeme with
          | word text => exact ⟨text, others, rfl, hlexed.takeWhile_isWordCode⟩
          | mark _ | literal _ _ | lineComment _ | blockComment _ =>
              simp [Lexeme.isWord] at hword

/-- A word of capitals with a boundary behind it is a whole word of the text. -/
theorem afterWord?_cellsOf_iff {word : Text} {lexemes : List Lexeme} {rest : List Cell}
    (fresh : Bool) (hne : word ≠ []) (hupper : word.all Char.isUpper = true)
    (hlexed : Lexeme.Lexed none lexemes) :
    (afterWord? word (Lexeme.cellsOf fresh lexemes) = some rest ∧ Cell.Bounded rest) ↔
      ∃ others, behindWord? word lexemes = some others ∧ rest = Lexeme.cellsOf false others := by
  simp only [afterWord?_eq_some_iff, behindWord?_eq_some_iff]
  constructor
  · rintro ⟨⟨front, hcells, rfl, hcode⟩, hbounded⟩
    have hfront := takeWhile_isWordCode_eq hupper hcode hbounded
    rw [← hcells] at hfront
    obtain ⟨text, others, rfl, hword⟩ := exists_word_of_takeWhile fresh hlexed fun hnil =>
      hne (by rw [← hfront, hnil, List.map_nil])
    obtain rfl : front = (Lexeme.word text).cells fresh := hfront.symm.trans hword
    refine ⟨others, ⟨text, rfl, ?_⟩, ?_⟩
    · rw [Lexeme.map_toUpper_cells, Lexeme.text]
    · have hsplit := Lexeme.cellsOf_cons fresh (.word text) others
      rw [hcells] at hsplit
      exact List.append_cancel_left hsplit
  · rintro ⟨others, ⟨text, rfl, rfl⟩, rfl⟩
    refine ⟨⟨(Lexeme.word text).cells fresh, rfl, ?_, fun cell hmem => ?_⟩,
      hlexed.bounded_behind_word _⟩
    · rw [Lexeme.map_toUpper_cells, Lexeme.text]
    · have hcode := Lexeme.isWordCode_of_mem_cells_word hlexed.1 hmem
      simp only [Cell.isWordCode, Bool.and_eq_true] at hcode
      exact hcode.1

theorem lexed_of_behindWord? {word : Text} {lexemes others : List Lexeme}
    (hlexed : Lexeme.Lexed none lexemes) (hbehind : behindWord? word lexemes = some others) :
    Lexeme.Lexed none others := by
  cases lexemes with
  | nil => simp [behindWord?] at hbehind
  | cons lexeme lexemes =>
      cases lexeme with
      | word text =>
          simp only [behindWord?, Option.ite_none_right_eq_some, Option.some.injEq] at hbehind
          exact hbehind.2 ▸ hlexed.2.2
      | mark _ | literal _ _ | lineComment _ | blockComment _ =>
          simp [behindWord?] at hbehind

/-! ### Phrases -/

/-- No word of a phrase begins where a word of the text goes on. -/
theorem filter_afterWords?_of_not_bounded {words : List Text} {cells : List Cell}
    (hgoes : ¬ Cell.Bounded cells) :
    (afterWords? words cells).filter (fun rest => decide (Cell.Bounded rest)) = none := by
  cases words with
  | nil => simp [afterWords?, hgoes]
  | cons word words =>
      have hnogap : cells.head?.any isGap = false := by
        cases cells with
        | nil => rfl
        | cons cell rest =>
            have hchar : Text.isWordChar cell.char = true := by simpa [Cell.Bounded] using hgoes
            simp [isGap, Text.isAsciiBlank_eq_false_of_isWordChar hchar]
      simp [afterWords?, hnogap]

/-- One word of a phrase, and then the others. -/
theorem filter_bind_afterWord? {word : Text} {lexemes : List Lexeme} (words : List Text)
    (fresh : Bool) (hne : word ≠ []) (hupper : word.all Char.isUpper = true)
    (hlexed : Lexeme.Lexed none lexemes)
    (hothers : ∀ others, behindWord? word lexemes = some others →
      (afterWords? words (Lexeme.cellsOf false others)).filter
          (fun rest => decide (Cell.Bounded rest)) =
        (behindWords? words others).map (Lexeme.cellsOf false)) :
    ((afterWord? word (Lexeme.cellsOf fresh lexemes)).bind (afterWords? words)).filter
        (fun rest => decide (Cell.Bounded rest)) =
      ((behindWord? word lexemes).bind (behindWords? words)).map (Lexeme.cellsOf false) := by
  cases hbehind : behindWord? word lexemes with
  | some others =>
      obtain ⟨hafter, -⟩ :=
        (afterWord?_cellsOf_iff fresh hne hupper hlexed).mpr ⟨others, hbehind, rfl⟩
      rw [hafter, Option.bind_some, Option.bind_some, hothers others hbehind]
  | none =>
      cases hafter : afterWord? word (Lexeme.cellsOf fresh lexemes) with
      | none => rfl
      | some rest =>
          have hgoes : ¬ Cell.Bounded rest := by
            intro hbounded
            obtain ⟨others, hsome, -⟩ :=
              (afterWord?_cellsOf_iff _ hne hupper hlexed).mp ⟨hafter, hbounded⟩
            simp [hbehind] at hsome
          rw [Option.bind_some, filter_afterWords?_of_not_bounded hgoes]
          rfl

theorem filter_afterWords?_cellsOf {words : List Text} {lexemes : List Lexeme}
    (hwords : ∀ word ∈ words, word ≠ [] ∧ word.all Char.isUpper = true)
    (hlexed : Lexeme.Lexed none lexemes)
    (hbounded : Cell.Bounded (Lexeme.cellsOf false lexemes)) :
    (afterWords? words (Lexeme.cellsOf false lexemes)).filter
        (fun rest => decide (Cell.Bounded rest)) =
      (behindWords? words lexemes).map (Lexeme.cellsOf false) := by
  induction words generalizing lexemes with
  | nil => simp [afterWords?, behindWords?, hbounded]
  | cons word words ih =>
      obtain ⟨hne, hupper⟩ := hwords word (by simp)
      have hdrop := hlexed.dropWhile Lexeme.isGap
      rw [afterWords?, behindWords?, hlexed.head?_isGap, hlexed.dropWhile_isGap]
      split
      · have hone := filter_bind_afterWord? words false hne hupper hdrop
          fun others hothers => by
            obtain ⟨-, hbehind⟩ := (afterWord?_cellsOf_iff false hne hupper hdrop).mpr
              ⟨others, hothers, rfl⟩
            exact ih (fun other hmem => hwords other (by simp [hmem]))
              (lexed_of_behindWord? hdrop hothers) hbehind
        rw [← hone]
        cases afterWord? word (Lexeme.cellsOf false (lexemes.dropWhile Lexeme.isGap)) <;> rfl
      · rfl

theorem filter_afterPhrase?_cellsOf {words : List Text} {lexemes : List Lexeme}
    (fresh : Bool) (hnonempty : words ≠ [])
    (hwords : ∀ word ∈ words, word ≠ [] ∧ word.all Char.isUpper = true)
    (hlexed : Lexeme.Lexed none lexemes) :
    (afterPhrase? words (Lexeme.cellsOf fresh lexemes)).filter
        (fun rest => decide (Cell.Bounded rest)) =
      (behindPhrase? words lexemes).map (Lexeme.cellsOf false) := by
  cases words with
  | nil => exact absurd rfl hnonempty
  | cons word words =>
      obtain ⟨hne, hupper⟩ := hwords word (by simp)
      have hone := filter_bind_afterWord? words fresh hne hupper hlexed
        fun others hothers => by
          obtain ⟨-, hbehind⟩ := (afterWord?_cellsOf_iff fresh hne hupper hlexed).mpr
            ⟨others, hothers, rfl⟩
          exact filter_afterWords?_cellsOf (fun other hmem => hwords other (by simp [hmem]))
            (lexed_of_behindWord? hlexed hothers) hbehind
      rw [behindPhrase?, ← hone, afterPhrase?]
      cases afterWord? word (Lexeme.cellsOf fresh lexemes) <;> rfl

/-! ### Symbols -/

/-- One mark of a symbol, and then the others. -/
theorem afterSymbol?_cons_cellsOf {c : Char} {symbol : Text} {lexemes : List Lexeme}
    {fresh : Bool} (hmark : Text.isWordChar c = false)
    (hlexed : Lexeme.Lexed none lexemes)
    (hothers : ∀ rest, lexemes = .mark c :: rest →
      afterSymbol? symbol (Lexeme.cellsOf false rest) =
        (behindSymbol? symbol rest).map (Lexeme.cellsOf false)) :
    afterSymbol? (c :: symbol) (Lexeme.cellsOf fresh lexemes) =
      (behindSymbol? (c :: symbol) lexemes).map (Lexeme.cellsOf false) := by
  cases lexemes with
  | nil => rfl
  | cons lexeme rest =>
      obtain ⟨d, others, htext, hcells⟩ := hlexed.1.exists_cells_eq_cons fresh
      cases lexeme with
      | mark d =>
          have hcode : Cell.isCodeChar c ⟨d, .code, fresh⟩ = (d == c) := by
            simp [Cell.isCodeChar, Cell.isCode]
          rw [Lexeme.cellsOf_mark, afterSymbol?, hcode, behindSymbol?]
          by_cases hd : d = c
          · simpa [hd] using hothers rest (by rw [hd])
          · simp [hd]
      | word text =>
          have hword : Text.isWordChar d = true :=
            hlexed.1.2 d (by simp only [Lexeme.text] at htext; simp [htext])
          have hne : d ≠ c := by
            rintro rfl
            simp [hmark] at hword
          simp [Lexeme.cellsOf_cons, hcells, afterSymbol?, behindSymbol?, Cell.isCodeChar, hne]
      | literal _ _ | lineComment _ | blockComment _ =>
          simp [Lexeme.cellsOf_cons, hcells, afterSymbol?, behindSymbol?, Cell.isCodeChar,
            Cell.isCode, Lexeme.kind]

theorem afterSymbol?_cellsOf_false {symbol : Text} {lexemes : List Lexeme}
    (hmarks : ∀ c ∈ symbol, Text.isWordChar c = false)
    (hlexed : Lexeme.Lexed none lexemes) :
    afterSymbol? symbol (Lexeme.cellsOf false lexemes) =
      (behindSymbol? symbol lexemes).map (Lexeme.cellsOf false) := by
  induction symbol generalizing lexemes with
  | nil => rfl
  | cons c symbol ih =>
      refine afterSymbol?_cons_cellsOf (hmarks c (by simp)) hlexed fun rest hrest => ?_
      rw [hrest] at hlexed
      exact ih (fun d hd => hmarks d (by simp [hd])) hlexed.2.2

theorem afterSymbol?_cellsOf {symbol : Text} {lexemes : List Lexeme} {fresh : Bool}
    (hnonempty : symbol ≠ []) (hmarks : ∀ c ∈ symbol, Text.isWordChar c = false)
    (hlexed : Lexeme.Lexed none lexemes) :
    afterSymbol? symbol (Lexeme.cellsOf fresh lexemes) =
      (behindSymbol? symbol lexemes).map (Lexeme.cellsOf false) := by
  cases symbol with
  | nil => exact absurd rfl hnonempty
  | cons c symbol =>
      refine afterSymbol?_cons_cellsOf (hmarks c (by simp)) hlexed fun rest hrest => ?_
      rw [hrest] at hlexed
      exact afterSymbol?_cellsOf_false (fun d hd => hmarks d (by simp [hd])) hlexed.2.2

/-! ### Keywords -/

theorem behindPhrase?_eq_none {words : List Text} {lexemes : List Lexeme}
    (hnonempty : words ≠ []) (hword : lexemes.head?.any Lexeme.isWord = false) :
    behindPhrase? words lexemes = none := by
  cases words with
  | nil => exact absurd rfl hnonempty
  | cons word words =>
      cases lexemes with
      | nil => rfl
      | cons lexeme rest =>
          cases lexeme with
          | word text => simp [Lexeme.isWord] at hword
          | mark _ | literal _ _ | lineComment _ | blockComment _ => rfl

/-- A keyword is found among the cells of a text where it is found among its
pieces. -/
theorem after?_cellsOf {keyword : Keyword} {before : Option Char} {lexemes : List Lexeme}
    (fresh : Bool) (hplain : keyword.isPlain = true)
    (hbefore : Lexeme.StartsBehind before lexemes) (hlexed : Lexeme.Lexed none lexemes) :
    keyword.after? before (Lexeme.cellsOf fresh lexemes) =
      (keyword.behind? lexemes).map (Lexeme.cellsOf false) := by
  cases hform : keyword.form with
  | symbol text =>
      simp only [isPlain, hform, Bool.and_eq_true, Bool.not_eq_true', List.isEmpty_eq_false_iff,
        List.all_eq_true] at hplain
      rw [after?, behind?, hform]
      exact afterSymbol?_cellsOf hplain.1 (fun c hc => by simpa using (hplain.2 c hc).1) hlexed
  | phrase words =>
      simp only [isPlain, hform, Bool.and_eq_true, Bool.not_eq_true', List.isEmpty_eq_false_iff,
        List.all_eq_true] at hplain
      have hphrase := filter_afterPhrase?_cellsOf fresh hplain.1
        (fun word hmem => by simpa [List.all_eq_true] using hplain.2 word hmem) hlexed
      rw [after?, behind?, hform]
      cases hchar : before.any Text.isWordChar with
      | true =>
          have hword : lexemes.head?.any Lexeme.isWord = false := by
            by_contra hword
            have hnot := hbefore (by simpa using hword)
            simp [hchar] at hnot
          simp [behindPhrase?_eq_none hplain.1 hword]
      | false =>
          simp only [Bool.false_eq_true, if_false, ← hphrase]
          cases afterPhrase? words (Lexeme.cellsOf fresh lexemes) with
          | none => rfl
          | some rest =>
              by_cases hrest : Cell.Bounded rest
              · rw [Option.filter_some, if_pos (decide_eq_true hrest)]
                rw [Cell.Bounded] at hrest
                simp [hrest]
              · rw [Option.filter_some, if_neg (by simpa using hrest)]
                rw [Cell.Bounded, Bool.not_eq_false] at hrest
                simp [hrest]

theorem length?_cellsOf {keyword : Keyword} {before : Option Char} {lexemes : List Lexeme}
    (fresh : Bool) (hplain : keyword.isPlain = true)
    (hbefore : Lexeme.StartsBehind before lexemes) (hlexed : Lexeme.Lexed none lexemes) :
    keyword.length? before (Lexeme.cellsOf fresh lexemes) =
      (keyword.behind? lexemes).map fun rest =>
        (Lexeme.textOf lexemes).length - (Lexeme.textOf rest).length := by
  rw [length?, after?_cellsOf fresh hplain hbefore hlexed, Option.map_map]
  simp only [Function.comp_def, Lexeme.length_cellsOf]

/-- A keyword only begins at a piece with its first label. -/
theorem behind?_eq_none {keyword : Keyword} {lexemes : List Lexeme}
    (hplain : keyword.isPlain = true)
    (hlabel : ∀ lexeme ∈ lexemes.head?, lexeme.label ≠ keyword.firstLabel) :
    keyword.behind? lexemes = none := by
  cases hform : keyword.form with
  | phrase words =>
      rw [behind?, hform]
      rw [firstLabel, hform] at hlabel
      rw [isPlain, hform] at hplain
      cases words with
      | nil => simp at hplain
      | cons word words =>
          have hword : behindWord? word lexemes = none := by
            cases lexemes with
            | nil => rfl
            | cons lexeme rest =>
                cases lexeme with
                | word text => simpa [behindWord?, Lexeme.label] using hlabel
                | mark _ | literal _ _ | lineComment _ | blockComment _ => rfl
          simp [behindPhrase?, hword]
  | symbol text =>
      rw [behind?, hform]
      rw [firstLabel, hform] at hlabel
      rw [isPlain, hform] at hplain
      cases text with
      | nil => simp at hplain
      | cons c text =>
          cases lexemes with
          | nil => rfl
          | cons lexeme rest =>
              cases lexeme with
              | mark d =>
                  have hne : d ≠ c := by simpa [Lexeme.label] using hlabel
                  simp [behindSymbol?, hne]
              | word _ | literal _ _ | lineComment _ | blockComment _ => rfl

/-- No keyword stands at a piece whose label it does not begin with, whatever is in
front of it. -/
theorem length?_eq_none {keyword : Keyword} {lexemes : List Lexeme} (before : Option Char)
    (fresh : Bool) (hplain : keyword.isPlain = true) (hlexed : Lexeme.Lexed none lexemes)
    (hlabel : ∀ lexeme ∈ lexemes.head?, lexeme.label ≠ keyword.firstLabel) :
    keyword.length? before (Lexeme.cellsOf fresh lexemes) = none := by
  have hnone := length?_cellsOf fresh hplain (Lexeme.startsBehind_none lexemes) hlexed
  rw [behind?_eq_none hplain hlabel, Option.map_none] at hnone
  cases hform : keyword.form with
  | symbol text =>
      rw [length?, after?, hform] at hnone ⊢
      exact hnone
  | phrase words =>
      cases hbefore : before.any Text.isWordChar with
      | true => simp [length?, after?, hform, hbefore]
      | false =>
          rw [length?_cellsOf fresh hplain (fun _ => hbefore) hlexed,
            behind?_eq_none hplain hlabel]
          rfl

/-- No keyword stands inside a word. -/
theorem length?_inside {keyword : Keyword} {before : Option Char} {cell : Cell}
    {cells : List Cell} (hplain : keyword.isPlain = true)
    (hbefore : before.any Text.isWordChar = true)
    (hcell : Text.isWordChar cell.char = true) :
    keyword.length? before (cell :: cells) = none := by
  cases hform : keyword.form with
  | phrase words => simp [length?, after?, hform, hbefore]
  | symbol text =>
      rw [isPlain, hform] at hplain
      cases text with
      | nil => simp at hplain
      | cons c text =>
          have hne : cell.char ≠ c := by
            rintro rfl
            simp [hcell] at hplain
          simp [length?, after?, hform, afterSymbol?, Cell.isCodeChar, hne]

end Keyword

/-! ## Finders -/

namespace Finder

/-- Labels that a finder stops at: it passes over every other piece. -/
structure StopsAt {α : Type} (find : Finder α) (stops : List Text) : Prop where
  silent : ∀ (before : Option Char) (fresh : Bool) (lexemes : List Lexeme),
    Lexeme.Lexed none lexemes → (∀ lexeme ∈ lexemes.head?, lexeme.label ∉ stops) →
      find before (Lexeme.cellsOf fresh lexemes) = none
  inside : ∀ (before : Option Char) (cell : Cell) (cells : List Cell),
    before.any Text.isWordChar = true → Text.isWordChar cell.char = true →
      find before (cell :: cells) = none

theorem StopsAt.mono {α : Type} {find : Finder α} {stops more : List Text}
    (hstops : find.StopsAt stops) (hsubset : stops ⊆ more) : find.StopsAt more where
  silent before fresh lexemes hlexed hlabel :=
    hstops.silent before fresh lexemes hlexed fun lexeme hmem hstop =>
      hlabel lexeme hmem (hsubset hstop)
  inside := hstops.inside

theorem ofKeywords_apply {α : Type} (keywords : List (Keyword × α)) (before : Option Char)
    (cells : List Cell) :
    ofKeywords keywords before cells =
      keywords.findSome? fun entry =>
        (entry.1.length? before cells).map fun count => (entry.2, count) := rfl

theorem ofKeywords_stopsAt {α : Type} {keywords : List (Keyword × α)}
    (hplain : ∀ entry ∈ keywords, entry.1.isPlain = true) :
    (ofKeywords keywords).StopsAt (keywords.map fun entry => entry.1.firstLabel) := by
  constructor
  · intro before fresh lexemes hlexed hlabel
    rw [ofKeywords_apply, List.findSome?_eq_none_iff]
    intro entry hentry
    rw [Keyword.length?_eq_none before fresh (hplain entry hentry) hlexed]
    · rfl
    · intro lexeme hmem heq
      exact hlabel lexeme hmem (heq ▸ List.mem_map_of_mem hentry)
  · intro before cell cells hbefore hcell
    rw [ofKeywords_apply, List.findSome?_eq_none_iff]
    intro entry hentry
    rw [Keyword.length?_inside (hplain entry hentry) hbefore hcell]
    rfl

theorem ofKeyword_stopsAt {keyword : Keyword} (hplain : keyword.isPlain = true) :
    (ofKeyword keyword).StopsAt [keyword.firstLabel] :=
  ofKeywords_stopsAt (by simpa using hplain)

theorem comma_stopsAt : comma.StopsAt [[',']] := by
  constructor
  · intro before fresh lexemes hlexed hlabel
    cases lexemes with
    | nil => rfl
    | cons lexeme rest =>
        obtain ⟨c, others, htext, hcells⟩ := hlexed.1.exists_cells_eq_cons fresh
        have hne : c ≠ ',' := by
          rintro rfl
          have hlabel := hlabel lexeme rfl
          cases lexeme with
          | word text =>
              rw [Lexeme.text] at htext
              have hword := hlexed.1.2 ',' (by simp [htext])
              exact absurd hword (by decide)
          | mark d => simp_all [Lexeme.text, Lexeme.label]
          | literal quote content => cases quote <;> simp [Lexeme.text, Quote.enclose, Quote.char] at htext
          | lineComment content => simp [Lexeme.text] at htext
          | blockComment content => simp [Lexeme.text] at htext
        simp [Lexeme.cellsOf_cons, hcells, comma, hne]
  · intro before cell cells hbefore hcell
    have hne : cell.char ≠ ',' := by
      intro heq
      rw [heq] at hcell
      exact absurd hcell (by decide)
    simp [comma, hne]

/-- The first of some keywords that stands at the front of some pieces, and what is
behind it. -/
def behindAny? {α : Type} (keywords : List (Keyword × α)) (lexemes : List Lexeme) :
    Option (α × List Lexeme) :=
  keywords.findSome? fun entry => (entry.1.behind? lexemes).map fun rest => (entry.2, rest)

theorem ofKeywords_cellsOf {α : Type} {keywords : List (Keyword × α)}
    {before : Option Char} {lexemes : List Lexeme} (fresh : Bool)
    (hplain : ∀ entry ∈ keywords, entry.1.isPlain = true)
    (hbefore : Lexeme.StartsBehind before lexemes) (hlexed : Lexeme.Lexed none lexemes) :
    ofKeywords keywords before (Lexeme.cellsOf fresh lexemes) =
      (behindAny? keywords lexemes).map fun found =>
        (found.1, (Lexeme.textOf lexemes).length - (Lexeme.textOf found.2).length) := by
  induction keywords with
  | nil => rfl
  | cons entry keywords ih =>
      have hrest := ih fun other hmem => hplain other (List.mem_cons_of_mem entry hmem)
      have hentry := Keyword.length?_cellsOf fresh (hplain entry (by simp)) hbefore hlexed
      rw [ofKeywords_apply, behindAny?] at hrest ⊢
      rw [List.findSome?_cons, List.findSome?_cons, hentry]
      cases entry.1.behind? lexemes with
      | none => exact hrest
      | some rest => rfl

theorem ofKeywords_append {α : Type} {keywords : List (Keyword × α)} {before : Option Char}
    {mark rest : List Lexeme} {label : α} (fresh : Bool)
    (hplain : ∀ entry ∈ keywords, entry.1.isPlain = true)
    (hbefore : Lexeme.StartsBehind before (mark ++ rest))
    (hlexed : Lexeme.Lexed none (mark ++ rest))
    (hfound : behindAny? keywords (mark ++ rest) = some (label, rest)) :
    ofKeywords keywords before (Lexeme.cellsOf fresh (mark ++ rest)) =
      some (label, (Lexeme.textOf mark).length) := by
  rw [ofKeywords_cellsOf fresh hplain hbefore hlexed, hfound]
  simp

end Finder

end SelectForm

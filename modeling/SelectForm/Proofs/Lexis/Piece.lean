import Mathlib
import SelectForm.Proofs.Lexis.Cutting
import SelectForm.Proofs.Text.Name
import SelectForm.Proofs.Text.Trim

/-!
# Solid pieces of a statement

The columns, operands, conditions and items of a statement are written from
words, marks and literals, and put together with blanks, commas and parentheses.
A solid piece can be put anywhere between such delimiters: it is lexed whatever
delimiter follows, its parentheses are balanced, and it neither begins nor ends
with a blank.  Solid pieces with delimiters between them are solid again.
-/

namespace SelectForm

namespace Lexeme

/-! ## Delimiters -/

/-- A mark that opens no literal and no comment, whatever is behind it. -/
def isPlainMark (c : Char) : Bool :=
  !Text.isWordChar c && (Quote.ofChar? c).isNone && c != '-' && c != '/'

/-- A plain mark that touches no piece before it. -/
def isDelimiter (c : Char) : Bool := isPlainMark c && c != '*'

/-- Whether a delimiter, or nothing, is behind some pieces. -/
def Delimits (next : Option Char) : Prop := next.all isDelimiter = true

/-- Pieces that are read one by one before every delimiter. -/
def Clean (lexemes : List Lexeme) : Prop := ∀ next, Delimits next → Lexed next lexemes

theorem Clean.lexed {lexemes : List Lexeme} (hclean : Clean lexemes) : Lexed none lexemes :=
  hclean none rfl

theorem clean_nil : Clean [] := fun _ _ => trivial

theorem clean_mark {c : Char} {rest : List Lexeme} (hc : isPlainMark c = true)
    (hrest : Clean rest) : Clean (mark c :: rest) := by
  intro next hnext
  simp only [isPlainMark, Bool.and_eq_true, Bool.not_eq_true', Option.isNone_iff_eq_none,
    bne_iff_ne] at hc
  refine ⟨⟨hc.1.1.1, hc.1.1.2⟩, ?_, hrest next hnext⟩
  exact ⟨fun h => hc.1.2 h.1, fun h => hc.2 h.1⟩

/-- Pieces with a delimiter behind them and more pieces behind it. -/
theorem Clean.append_mark {first rest : List Lexeme} {c : Char} (hfirst : Clean first)
    (hc : isDelimiter c = true) (hrest : Clean (mark c :: rest)) :
    Clean (first ++ mark c :: rest) := by
  intro next hnext
  rw [Lexed.append_iff]
  exact ⟨hfirst (some c) hc, hrest next hnext⟩

theorem clean_word {text : Text} (hne : text ≠ []) (hword : ∀ c ∈ text, Text.isWordChar c = true) :
    Clean [word text] := by
  intro next hnext
  refine ⟨⟨hne, hword⟩, ?_, trivial⟩
  cases next with
  | none => rfl
  | some c =>
      rw [Delimits, Option.all_some, isDelimiter, isPlainMark] at hnext
      simp only [Bool.and_eq_true, Bool.not_eq_true'] at hnext
      exact hnext.1.1.1.1

theorem clean_literal (quote : Quote) (content : Text) : Clean [literal quote content] := by
  intro next hnext
  refine ⟨trivial, ?_, trivial⟩
  rintro heq
  rw [textOf_nil, List.head?_nil, Option.none_or] at heq
  rw [heq, Delimits] at hnext
  cases quote <;> exact absurd hnext (by decide)

/-! ## Balance -/

/-- The number of groups that are open behind a piece, unless it closes a group that
was not opened. -/
def openedBy (depth : Nat) : Lexeme → Option Nat
  | mark c =>
    if c = '(' then some (depth + 1)
    else if c = ')' then if depth = 0 then none else some (depth - 1)
    else some depth
  | _ => some depth

/-- The number of groups that are open behind some pieces. -/
def balance (depth : Nat) : List Lexeme → Option Nat
  | [] => some depth
  | lexeme :: rest => (openedBy depth lexeme).bind fun depth => balance depth rest

theorem balance_append (depth : Nat) (first second : List Lexeme) :
    balance depth (first ++ second) =
      (balance depth first).bind fun depth => balance depth second := by
  induction first generalizing depth with
  | nil => rfl
  | cons lexeme first ih =>
      rw [List.cons_append, balance, balance, Option.bind_assoc]
      simp only [ih]

theorem openedBy_add {depth behind : Nat} {lexeme : Lexeme} (more : Nat)
    (hopened : openedBy depth lexeme = some behind) :
    openedBy (depth + more) lexeme = some (behind + more) := by
  cases lexeme with
  | mark c =>
      simp only [openedBy] at hopened ⊢
      split_ifs at hopened ⊢ <;> simp only [Option.some.injEq] at hopened ⊢ <;> omega
  | word _ | literal _ _ | lineComment _ | blockComment _ =>
      simp only [openedBy, Option.some.injEq] at hopened ⊢
      omega

/-- Groups that are open around some pieces stay open behind them. -/
theorem balance_add {depth behind : Nat} {lexemes : List Lexeme} (more : Nat)
    (hbalance : balance depth lexemes = some behind) :
    balance (depth + more) lexemes = some (behind + more) := by
  induction lexemes generalizing depth with
  | nil =>
      rw [balance, Option.some.injEq] at hbalance
      rw [balance, hbalance]
  | cons lexeme rest ih =>
      rw [balance, Option.bind_eq_some_iff] at hbalance
      obtain ⟨inner, hopened, hrest⟩ := hbalance
      rw [balance, openedBy_add more hopened]
      exact ih hrest

theorem nesting_of_openedBy {depth behind : Nat} {lexeme : Lexeme}
    (hopened : openedBy depth lexeme = some behind) :
    (depth : Int) + lexeme.nesting = behind := by
  cases lexeme with
  | mark c =>
      simp only [openedBy, nesting] at hopened ⊢
      split_ifs at hopened ⊢ <;> simp only [Option.some.injEq] at hopened <;> omega
  | word _ | literal _ _ | lineComment _ | blockComment _ =>
      simp only [openedBy, Option.some.injEq] at hopened
      simp [nesting, hopened]

theorem nestingOf_of_balance {depth behind : Nat} {lexemes : List Lexeme}
    (hbalance : balance depth lexemes = some behind) :
    (depth : Int) + nestingOf lexemes = behind := by
  induction lexemes generalizing depth with
  | nil =>
      rw [balance, Option.some.injEq] at hbalance
      simp [hbalance]
  | cons lexeme rest ih =>
      rw [balance, Option.bind_eq_some_iff] at hbalance
      obtain ⟨inner, hopened, hrest⟩ := hbalance
      rw [nestingOf_cons, ← add_assoc, nesting_of_openedBy hopened]
      exact ih hrest

/-! ## Gaps -/

/-- The marks of a gap between two pieces. -/
def marks (text : Text) : List Lexeme := text.map mark

@[simp] theorem textOf_marks (text : Text) : textOf (marks text) = text := by
  induction text with
  | nil => rfl
  | cons c rest ih =>
      rw [marks, List.map_cons, textOf_cons]
      rw [marks] at ih
      rw [ih]
      rfl

/-- A character that may stand in a gap: a comma or a blank. -/
def isSpacer (c : Char) : Bool := c == ',' || c == ' ' || c == '\n'

theorem isDelimiter_of_isSpacer {c : Char} (hc : isSpacer c = true) :
    isDelimiter c = true ∧ isPlainMark c = true ∧ c ≠ '(' ∧ c ≠ ')' := by
  simp only [isSpacer, Bool.or_eq_true, beq_iff_eq] at hc
  rcases hc with (rfl | rfl) | rfl <;> decide

theorem clean_marks_append {gap : Text} {rest : List Lexeme}
    (hgap : ∀ c ∈ gap, isSpacer c = true) (hrest : Clean rest) :
    Clean (marks gap ++ rest) := by
  induction gap with
  | nil => exact hrest
  | cons c gap ih =>
      have hc := isDelimiter_of_isSpacer (hgap c (by simp))
      exact clean_mark hc.2.1 (ih fun d hd => hgap d (List.mem_cons_of_mem c hd))

theorem balance_marks {gap : Text} (depth : Nat) (hgap : ∀ c ∈ gap, isSpacer c = true) :
    balance depth (marks gap) = some depth := by
  induction gap with
  | nil => rfl
  | cons c gap ih =>
      have hc := isDelimiter_of_isSpacer (hgap c (by simp))
      have hrest := ih fun d hd => hgap d (List.mem_cons_of_mem c hd)
      rw [marks] at hrest ⊢
      rw [List.map_cons, balance, openedBy, if_neg hc.2.2.1, if_neg hc.2.2.2,
        Option.bind_some, hrest]

/-! ## Characters of code -/

/-- Pieces whose code is ASCII, apart from the digits of other scripts. -/
def Narrow (lexemes : List Lexeme) : Prop :=
  ∀ lexeme ∈ lexemes, lexeme.isCode = true →
    ∀ c ∈ lexeme.text, c.toNat < 0x80 ∨ Text.isDecimal c = true

@[simp] theorem narrow_nil : Narrow [] := List.forall_mem_nil _

@[simp] theorem narrow_append {first second : List Lexeme} :
    Narrow (first ++ second) ↔ Narrow first ∧ Narrow second := List.forall_mem_append

theorem narrow_word {text : Text} (htext : ∀ c ∈ text, c.toNat < 0x80) : Narrow [word text] :=
  List.forall_mem_singleton.mpr fun _ c hc => .inl (htext c hc)

theorem toNat_lt_of_isPlainMark {c : Char} (hc : isPlainMark c = true) : c.toNat < 0x80 := by
  simp only [isPlainMark, Text.isWordChar, Bool.and_eq_true, Bool.not_eq_true', Bool.or_eq_false_iff,
    decide_eq_false_iff_not, Nat.not_le] at hc
  exact hc.1.1.1.2

theorem narrow_marks_iff {text : Text} :
    Narrow (marks text) ↔ ∀ c ∈ text, c.toNat < 0x80 ∨ Text.isDecimal c = true := by
  rw [Narrow, marks, List.forall_mem_map]
  exact forall₂_congr fun c _ =>
    ⟨fun hnarrow => hnarrow rfl c (List.mem_singleton_self c),
      fun hnarrow _ => List.forall_mem_singleton.mpr hnarrow⟩

theorem narrow_mark {c : Char} (hc : c.toNat < 0x80) : Narrow [mark c] :=
  narrow_marks_iff.mpr (List.forall_mem_singleton.mpr (.inl hc))

theorem narrow_marks {text : Text} (htext : ∀ c ∈ text, isPlainMark c = true) :
    Narrow (marks text) :=
  narrow_marks_iff.mpr fun c hc => .inl (toNat_lt_of_isPlainMark (htext c hc))

/-! ## Comments -/

/-- Pieces without comments. -/
def Uncommented (lexemes : List Lexeme) : Prop :=
  ∀ lexeme ∈ lexemes, lexeme.kind.isComment = false

theorem uncommented_append {first second : List Lexeme} :
    Uncommented (first ++ second) ↔ Uncommented first ∧ Uncommented second := List.forall_mem_append

theorem uncommented_word (text : Text) : Uncommented [word text] :=
  List.forall_mem_singleton.mpr rfl

theorem uncommented_marks (text : Text) : Uncommented (marks text) :=
  List.forall_mem_map.mpr fun _ _ => rfl

/-! ## Solid pieces -/

/-- Pieces that can be put between delimiters. -/
structure Solid (lexemes : List Lexeme) : Prop where
  clean : Clean lexemes
  balanced : balance 0 lexemes = some 0
  tight : Text.Tight (textOf lexemes)
  narrow : Narrow lexemes
  uncommented : Uncommented lexemes

namespace Solid

theorem ne_nil {lexemes : List Lexeme} (hsolid : Solid lexemes) : lexemes ≠ [] := by
  rintro rfl
  exact hsolid.tight.ne_nil rfl

theorem nestingOf_eq {lexemes : List Lexeme} (hsolid : Solid lexemes) :
    nestingOf lexemes = 0 := by
  have hnesting := nestingOf_of_balance hsolid.balanced
  omega

/-- Two solid pieces with a gap between them. -/
theorem glue {first second : List Lexeme} {gap : Text} (hfirst : Solid first)
    (hsecond : Solid second) (hne : gap ≠ []) (hgap : ∀ c ∈ gap, isSpacer c = true) :
    Solid (first ++ (marks gap ++ second)) := by
  constructor
  · cases gap with
    | nil => exact absurd rfl hne
    | cons c gap =>
        have hc := isDelimiter_of_isSpacer (hgap c (by simp))
        exact hfirst.clean.append_mark hc.1 (clean_marks_append hgap hsecond.clean)
  · rw [balance_append, hfirst.balanced, Option.bind_some, balance_append,
      balance_marks 0 hgap, Option.bind_some, hsecond.balanced]
  · rw [textOf_append, textOf_append]
    exact hfirst.tight.append _ hsecond.tight
  · have hmarks := narrow_marks fun c hc => (isDelimiter_of_isSpacer (hgap c hc)).2.1
    exact narrow_append.mpr ⟨hfirst.narrow, narrow_append.mpr ⟨hmarks, hsecond.narrow⟩⟩
  · exact uncommented_append.mpr ⟨hfirst.uncommented,
      uncommented_append.mpr ⟨uncommented_marks gap, hsecond.uncommented⟩⟩

theorem glue_space {first second : List Lexeme} (hfirst : Solid first) (hsecond : Solid second) :
    Solid (first ++ mark ' ' :: second) := by
  have hspace : ∀ c ∈ [' '], isSpacer c = true := by simp [isSpacer]
  exact hfirst.glue hsecond (List.cons_ne_nil ' ' []) hspace

/-- A solid piece in parentheses behind a word. -/
theorem call {name : Text} {argument : List Lexeme} (hname : Solid [word name])
    (hargument : Solid argument) : Solid (word name :: mark '(' :: (argument ++ [mark ')'])) := by
  constructor
  · refine hname.clean.append_mark (by decide) ?_
    refine clean_mark (by decide) ?_
    exact hargument.clean.append_mark (by decide) (clean_mark (by decide) clean_nil)
  · have hinner := balance_add 1 hargument.balanced
    simp [balance, openedBy, balance_append, hinner]
  · constructor
    · obtain ⟨c, hc, hblank⟩ := hname.tight.head
      refine ⟨c, ?_, hblank⟩
      rw [textOf_cons, List.head?_append_of_ne_nil]
      · simpa using hc
      · simpa using hname.tight.ne_nil
    · have htext : textOf (word name :: mark '(' :: (argument ++ [mark ')'])) =
          (name ++ '(' :: textOf argument) ++ [')'] := by simp [text]
      exact ⟨')', by rw [htext, List.getLast?_concat]; rfl, by decide⟩
  · have hopen : Narrow [mark '('] := narrow_mark (by decide)
    have hclose : Narrow [mark ')'] := narrow_mark (by decide)
    exact narrow_append.mpr ⟨hname.narrow, narrow_append.mpr
      ⟨hopen, narrow_append.mpr ⟨hargument.narrow, hclose⟩⟩⟩
  · exact uncommented_append.mpr ⟨hname.uncommented, uncommented_append.mpr
      ⟨uncommented_marks ['('], uncommented_append.mpr
        ⟨hargument.uncommented, uncommented_marks [')']⟩⟩⟩

theorem group {inner : List Lexeme} (hinner : Solid inner) :
    Solid (mark '(' :: (inner ++ [mark ')'])) := by
  constructor
  · refine clean_mark (by decide) ?_
    exact hinner.clean.append_mark (by decide) (clean_mark (by decide) clean_nil)
  · have hinside := balance_add 1 hinner.balanced
    simp [balance, openedBy, balance_append, hinside]
  · have htext : textOf (mark '(' :: (inner ++ [mark ')'])) =
        ('(' :: textOf inner) ++ [')'] := by simp [text]
    rw [htext]
    exact ⟨⟨'(', rfl, by decide⟩, ⟨')', by rw [List.getLast?_concat]; rfl, by decide⟩⟩
  · have hopen : Narrow [mark '('] := narrow_mark (by decide)
    have hclose : Narrow [mark ')'] := narrow_mark (by decide)
    exact narrow_append.mpr ⟨hopen, narrow_append.mpr ⟨hinner.narrow, hclose⟩⟩
  · exact uncommented_append.mpr ⟨uncommented_marks ['('],
      uncommented_append.mpr ⟨hinner.uncommented, uncommented_marks [')']⟩⟩

end Solid

theorem solid_word {text : Text} (hne : text ≠ [])
    (hword : ∀ c ∈ text, Text.isWordChar c = true)
    (hblank : ∀ c ∈ text, Text.isBlank c = false) (hascii : ∀ c ∈ text, c.toNat < 0x80) :
    Solid [word text] := by
  constructor
  · exact clean_word hne hword
  · rfl
  · have htext : textOf [word text] = text := by simp [Lexeme.text]
    rw [htext]
    exact Text.tight_of_forall hne hblank
  · exact narrow_word hascii
  · exact uncommented_word text

theorem solid_keyword {word : Text} (hne : word ≠ [])
    (hword : word.all (fun c => Text.isNameTail c) = true) : Solid [.word word] := by
  rw [List.all_eq_true] at hword
  exact solid_word hne (fun c hc => Text.isWordChar_of_isNameTail (hword c hc))
    (fun c hc => Text.isBlank_of_isNameTail (hword c hc))
    fun c hc => Text.toNat_lt_of_isNameTail (hword c hc)

/-- Marks that are no parentheses, such as the ones of a comparison. -/
theorem solid_marks {text : Text} (hne : text ≠ [])
    (hmarks : ∀ c ∈ text, isPlainMark c = true ∧ c ≠ '(' ∧ c ≠ ')' ∧ Text.isBlank c = false) :
    Solid (marks text) := by
  constructor
  · clear hne
    induction text with
    | nil => exact clean_nil
    | cons c text ih =>
        exact clean_mark (hmarks c (by simp)).1
          (ih fun d hd => hmarks d (List.mem_cons_of_mem c hd))
  · clear hne
    induction text with
    | nil => rfl
    | cons c text ih =>
        have hc := hmarks c (by simp)
        have hrest := ih fun d hd => hmarks d (List.mem_cons_of_mem c hd)
        rw [marks] at hrest ⊢
        rw [List.map_cons, balance, openedBy, if_neg hc.2.1, if_neg hc.2.2.1, Option.bind_some,
          hrest]
  · rw [textOf_marks]
    exact Text.tight_of_forall hne fun c hc => (hmarks c hc).2.2.2
  · exact narrow_marks fun c hc => (hmarks c hc).1
  · exact uncommented_marks text

theorem solid_literal (quote : Quote) (content : Text) : Solid [literal quote content] := by
  constructor
  · exact clean_literal quote content
  · rfl
  · have htext : textOf [literal quote content] = quote.enclose content := by
      simp [Lexeme.text]
    rw [htext, Quote.enclose]
    refine ⟨⟨quote.char, by simp, ?_⟩, ⟨quote.char, List.getLast?_concat .., ?_⟩⟩
    · cases quote <;> decide
    · cases quote <;> decide
  · exact List.forall_mem_singleton.mpr fun hcode => by simp [isCode, kind] at hcode
  · exact List.forall_mem_singleton.mpr rfl

end Lexeme

end SelectForm

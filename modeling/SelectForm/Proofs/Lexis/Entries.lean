import Mathlib
import SelectForm.Proofs.Lexis.MaskedRow
import SelectForm.Proofs.Lexis.RowSpans
import SelectForm.Proofs.Query.Tokens

/-!
# The words and literals of a text

The entries of a text are the longest runs of characters of names in its code and the
contents of its literals, from left to right.  A row has the entries of its tokens, apart
from reserved words: what a reader takes off a text is all that was there.
-/

namespace SelectForm

/-- The longest runs of characters that pass a test. -/
def Text.runs (test : Char → Bool) : Text → List Text
  | [] => []
  | c :: rest =>
    if test c then
      match rest.head?.any test, runs test rest with
      | true, run :: others => (c :: run) :: others
      | _, others => [c] :: others
    else
      runs test rest

/-- A word in the code of a text, or the content of one of its literals. -/
inductive Entry
  | word (text : Text)
  | literal (content : Text)
deriving DecidableEq, Repr

namespace Entry

/-- The words of code. -/
def ofCode (text : Text) : List Entry := (text.runs Text.isNameTail).map .word

/-- A word in capitals, if it is not reserved, or a literal as it is. -/
def kept? : Entry → Option Entry
  | word text =>
    if Identifier.isReserved (String.ofList text) then none else some (.word (text.map Char.toUpper))
  | literal content => some (.literal content)

/-- A character of a name in front of some entries; `joins` tells that the first of them is a
word to which it belongs. -/
def push (joins : Bool) (c : Char) (entries : List Entry) : List Entry :=
  match joins, entries with
  | true, .word text :: others => .word (c :: text) :: others
  | _, others => .word [c] :: others

end Entry

/-- The words of a span of code, or the content of a literal. -/
def Span.entries (span : Span) : List Entry :=
  match span.kind with
  | .code => Entry.ofCode span.text
  | .quoted _ => [.literal (Text.unquote span.text)]
  | .lineComment | .blockComment => []

/-! ## Rows -/

namespace Lexeme

variable {row first second : List Lexeme} {c : Char} {text : Text}

/-- The words and literals of a row. -/
def entries : List Lexeme → List Entry
  | [] => []
  | mark c :: row =>
    if Text.isNameTail c then Entry.push (row.head?.any (isMark Text.isNameTail)) c (entries row)
    else entries row
  | literal _ content :: row => .literal content :: entries row
  | _ :: row => entries row

theorem entries_mark (hc : Text.isNameTail c = false) : entries (mark c :: row) = entries row := by
  rw [entries, if_neg (by simp [hc])]

theorem exists_entries_mark (hc : Text.isNameTail c = true) (row : List Lexeme) :
    ∃ text others, entries (mark c :: row) = .word text :: others := by
  rw [entries, if_pos hc]
  unfold Entry.push
  split
  · exact ⟨_, _, rfl⟩
  · exact ⟨_, _, rfl⟩

theorem push_append {entries others : List Entry} {joins : Bool}
    (hjoins : joins = true → ∃ text rest, entries = .word text :: rest) :
    Entry.push joins c (entries ++ others) = Entry.push joins c entries ++ others := by
  cases joins with
  | false => cases entries <;> rfl
  | true =>
      obtain ⟨text, rest, rfl⟩ := hjoins rfl
      rfl

theorem entries_marks (text : Text) : entries (marks text) = Entry.ofCode text := by
  induction text with
  | nil => rfl
  | cons c text ih =>
      have hhead : (marks text).head?.any (isMark Text.isNameTail) = text.head?.any Text.isNameTail := by
        cases text <;> rfl
      rw [marks, List.map_cons, ← marks, entries, ih, hhead, Entry.ofCode, Entry.ofCode, Text.runs]
      split
      · cases text.head?.any Text.isNameTail with
        | false => cases Text.runs Text.isNameTail text <;> rfl
        | true => cases Text.runs Text.isNameTail text <;> rfl
      · rfl

/-- No word goes on from one row into the other. -/
theorem entries_append (hfirst : Atomic first)
    (hapart : (lastOf none first).any Text.isNameTail = false ∨
      second.head?.any (isMark Text.isNameTail) = false) :
    entries (first ++ second) = entries first ++ entries second := by
  induction first with
  | nil => rfl
  | cons lexeme rest ih =>
      obtain ⟨hatom, hrest⟩ := atomic_cons.mp hfirst
      have hrows : entries (rest ++ second) = entries rest ++ entries second := by
        refine ih hrest (hapart.imp_left fun hlast => ?_)
        rw [lastOf_eq] at hlast ⊢
        cases hback : (textOf rest).getLast? with
        | none => rfl
        | some c =>
            rw [textOf_cons, List.getLast?_append, hback] at hlast
            exact hlast
      cases lexeme with
      | mark c =>
          cases hc : Text.isNameTail c with
          | false => rw [List.cons_append, entries_mark hc, entries_mark hc, hrows]
          | true =>
              have hhead : (rest ++ second).head?.any (isMark Text.isNameTail) =
                  rest.head?.any (isMark Text.isNameTail) := by
                cases rest with
                | nil =>
                    rcases hapart with hlast | hsecond
                    · have hlast : Text.isNameTail c = false := hlast
                      rw [hc] at hlast
                      exact absurd hlast (by decide)
                    · exact hsecond
                | cons _ _ => rfl
              rw [List.cons_append, entries, if_pos hc, entries, if_pos hc, hhead, hrows]
              apply push_append
              intro hjoins
              cases rest with
              | nil => simp at hjoins
              | cons other rest =>
                  cases other with
                  | mark d => exact exists_entries_mark hjoins rest
                  | literal _ _ | word _ | lineComment _ | blockComment _ =>
                      simp [isMark] at hjoins
      | literal quote content => exact congrArg (Entry.literal content :: ·) hrows
      | word _ | lineComment _ | blockComment _ => exact hatom.elim

/-! ## Spans -/

theorem exists_spansOf_mark (start : Nat) (c : Char) (row : List Lexeme) :
    ∃ text spans, spansOf start (mark c :: row) = ⟨.code, start, c :: text, true⟩ :: spans := by
  have hterminated := terminated_spansOf start (mark c :: row)
  rcases spansOf_cons_cases start (mark c) row with hown | ⟨span, spans, -, -, hspan, hshared⟩
  · exact ⟨[], _, hown⟩
  · rw [hshared, List.forall_mem_cons] at hterminated
    refine ⟨span.text, spans, ?_⟩
    rw [hshared, hspan, hterminated.1]
    rfl

theorem spanEntries_code (start : Nat) (text : Text) :
    Span.entries ⟨.code, start, text, true⟩ = entries (marks text) := (entries_marks text).symm

/-- A piece that begins no span of code with the next one is a span of its own. -/
theorem entries_spansOf_own (start : Nat) {lexeme : Lexeme}
    (hown : (lexeme.isCode && row.head?.any isCode) = false) :
    (spansOf start (lexeme :: row)).flatMap Span.entries =
      Span.entries ⟨lexeme.kind, start, lexeme.text, true⟩ ++
        (spansOf (start + Text.size lexeme.text) row).flatMap Span.entries := by
  rw [spansOf, hown]
  cases spansOf (start + Text.size lexeme.text) row <;> rfl

/-- A character in front of a span of code joins it, as it joins the word at its front. -/
theorem entries_spansOf_mark {d : Char} (start : Nat)
    (hrest : (spansOf (start + Text.size [c]) (mark d :: row)).flatMap Span.entries =
      entries (mark d :: row)) :
    (spansOf start (mark c :: mark d :: row)).flatMap Span.entries =
      entries (mark c :: mark d :: row) := by
  obtain ⟨text, spans, hspans⟩ := exists_spansOf_mark (start + Text.size [c]) d row
  have hjoined : spansOf start (mark c :: mark d :: row) =
      ⟨.code, start, c :: d :: text, true⟩ :: spans := by
    rw [spansOf, show (mark c).text = [c] from rfl, hspans]
    rfl
  rw [hspans, List.flatMap_cons, spanEntries_code] at hrest
  rw [hjoined, List.flatMap_cons, spanEntries_code]
  cases hc : Text.isNameTail c with
  | false =>
      rw [entries_mark hc, ← hrest]
      exact congrArg (· ++ _) (entries_mark hc)
  | true =>
      rw [entries, if_pos hc, ← hrest, marks, List.map_cons, entries, if_pos hc]
      exact (push_append fun hjoins => exists_entries_mark hjoins _).symm

/-- The entries of a row are those of its spans. -/
theorem entries_spansOf (start : Nat) (hfine : ∀ lexeme ∈ row, lexeme.IsFine) :
    (spansOf start row).flatMap Span.entries = entries row := by
  induction row generalizing start with
  | nil => rfl
  | cons lexeme row ih =>
      obtain ⟨hlexeme, hrow⟩ := List.forall_mem_cons.mp hfine
      have hrest := ih (start + Text.size lexeme.text) hrow
      cases lexeme with
      | word _ => exact hlexeme.elim
      | literal quote content =>
          rw [entries_spansOf_own start rfl, hrest]
          exact congrArg (Entry.literal · :: entries row) (Text.unquote_enclose quote content)
      | lineComment content => rw [entries_spansOf_own start rfl, hrest]; rfl
      | blockComment content => rw [entries_spansOf_own start rfl, hrest]; rfl
      | mark c =>
          have hsingle : Span.entries ⟨(mark c).kind, start, (mark c).text, true⟩ = entries [mark c] :=
            spanEntries_code start [c]
          cases row with
          | nil =>
              rw [entries_spansOf_own start rfl, hrest, hsingle]
              exact List.append_nil _
          | cons other row =>
              cases other with
              | mark d => exact entries_spansOf_mark start hrest
              | word _ => exact (hrow _ List.mem_cons_self).elim
              | literal _ _ | lineComment _ | blockComment _ =>
                  rw [entries_spansOf_own start rfl, hrest, hsingle]
                  exact (@entries_append [mark c] _ (atomic_marks [c]) (.inr rfl)).symm

end Lexeme

/-! ## Tokens -/

/-- The entries of a token that are kept. -/
def Token.entries : Token → List Entry
  | name text | number text | parameter text => (Entry.ofCode text).filterMap Entry.kept?
  | string value => [.literal value]

namespace Text

theorem runs_of_forall {test : Char → Bool} {text : Text} (hne : text ≠ [])
    (htext : ∀ c ∈ text, test c = true) : text.runs test = [text] := by
  induction text with
  | nil => exact absurd rfl hne
  | cons c rest ih =>
      obtain ⟨hc, hrest⟩ := List.forall_mem_cons.mp htext
      rw [runs, if_pos hc]
      cases rest with
      | nil => rfl
      | cons d rest =>
          rw [ih (List.cons_ne_nil d rest) hrest, List.head?_cons, Option.any_some,
            hrest d List.mem_cons_self]

theorem runs_of_forall_not {test : Char → Bool} {text : Text}
    (htext : ∀ c ∈ text, test c = false) : text.runs test = [] := by
  induction text with
  | nil => rfl
  | cons c rest ih =>
      obtain ⟨hc, hrest⟩ := List.forall_mem_cons.mp htext
      rw [runs, if_neg (by simp [hc]), ih hrest]

theorem isReserved_congr {word text : Text} (hupper : text.map Char.toUpper = word.map Char.toUpper) :
    Identifier.isReserved (String.ofList text) = Identifier.isReserved (String.ofList word) := by
  have hlower : text.map Char.toLower = word.map Char.toLower := by
    have hsame : ∀ text : Text, (text.map Char.toUpper).map Char.toLower = text.map Char.toLower := by
      intro text
      rw [List.map_map]
      exact List.map_congr_left fun c _ => by simp
    rw [← hsame, hupper, hsame]
  simp only [Identifier.isReserved, Identifier.same, Text.sameLetters, String.toList_ofList, hlower]

/-- A reserved word leaves nothing. -/
theorem kept_of_reserved {word : String} {text : Text} (hword : word ∈ Identifier.reservedWords)
    (htext : text.map Char.toUpper = word.toList) :
    (Entry.ofCode text).filterMap Entry.kept? = [] := by
  have hupper := Lexeme.Holds.isUpper_of_mem_reservedWords hword
  have hletter : ∀ c ∈ text, isNameTail c = true := by
    intro c hc
    have hcapital := hupper c.toUpper (htext ▸ List.mem_map_of_mem hc)
    rw [Char.isUpper_toUpper_eq_isAlpha] at hcapital
    simp [isNameTail, Char.isAlphanum, hcapital]
  have hne : text ≠ [] := by
    rintro rfl
    have hall : ∀ word ∈ Identifier.reservedWords, word.toList ≠ [] := by decide
    exact hall word hword htext.symm
  have hreserved : Identifier.isReserved (String.ofList text) = true := by
    rw [@isReserved_congr word.toList text, Identifier.isReserved, List.any_eq_true]
    · exact ⟨word, hword, by simp [Identifier.same, sameLetters]⟩
    · rw [htext]
      refine (List.map_congr_left fun c hc => ?_).trans (List.map_id _) |>.symm
      exact toUpper_of_isUpper (hupper c hc)
  rw [Entry.ofCode, runs_of_forall hne hletter, List.map_singleton, List.filterMap_cons]
  simp [Entry.kept?, hreserved]

end Text

namespace Lexeme

variable {row : List Lexeme} {tokens : List Token}

theorem Holds.atomic (hholds : Holds row tokens) : Atomic row := by
  induction hholds with
  | nil => exact atomic_nil
  | append _ _ _ hfirst hsecond => exact atomic_append.mpr ⟨hfirst, hsecond⟩
  | separator _ => exact atomic_marks [_]
  | keyword _ _ => exact atomic_marks _
  | name _ => exact atomic_marks _
  | function _ => exact atomic_marks _
  | number _ => exact atomic_marks _
  | parameter _ => exact atomic_marks _
  | literal _ _ => exact atomic_cons.mpr ⟨trivial, atomic_nil⟩

theorem isNameTail_of_not_isTokenChar {c : Option Char} (hc : c.any Text.isTokenChar = false) :
    c.any Text.isNameTail = false := by
  cases c with
  | none => rfl
  | some c =>
      rw [Option.any_some, Text.isTokenChar, Bool.or_eq_false_iff] at hc
      exact hc.1

theorem head?_isNameTail_of_textOf (hrow : (textOf row).head?.any Text.isNameTail = false) :
    row.head?.any (isMark Text.isNameTail) = false := by
  cases row with
  | nil => rfl
  | cons lexeme rest =>
      cases lexeme with
      | mark c => exact hrow
      | literal _ _ | word _ | lineComment _ | blockComment _ => rfl

/-- The name of a function is kept in capitals, in whatever case it is written. -/
theorem kept_of_function {aggregate : Aggregate} {text : Text}
    (htext : Text.sameLetters aggregate.keyword.toList text = true) :
    (Entry.ofCode text).filterMap Entry.kept? =
      (Entry.ofCode aggregate.keyword.toList).filterMap Entry.kept? := by
  have hupper : text.map Char.toUpper = aggregate.keyword.toList.map Char.toUpper := by
    have hsame : ∀ text : Text, (text.map Char.toLower).map Char.toUpper = text.map Char.toUpper := by
      intro text
      rw [List.map_map]
      exact List.map_congr_left fun c _ => by simp
    rw [← hsame, ← beq_iff_eq.mp htext, hsame]
  have hletter : ∀ text : Text, (∀ c ∈ text, c.isAlpha = true) →
      ∀ c ∈ text, Text.isNameTail c = true := by
    intro text htext c hc
    simp [Text.isNameTail, Char.isAlphanum, htext c hc]
  have hne : aggregate.keyword.toList ≠ [] := by cases aggregate <;> decide
  have hne' : text ≠ [] := by
    rintro rfl
    exact hne (List.map_eq_nil_iff.mp hupper.symm)
  have hkept : Entry.kept? (.word text) = Entry.kept? (.word aggregate.keyword.toList) := by
    rw [Entry.kept?, Entry.kept?, Text.isReserved_congr hupper, hupper]
  rw [Entry.ofCode, Entry.ofCode,
    Text.runs_of_forall hne' (hletter _ (Text.isAlpha_of_sameLetters aggregate.isAlpha_keyword htext)),
    Text.runs_of_forall hne (hletter _ aggregate.isAlpha_keyword), List.map_singleton,
    List.map_singleton, List.filterMap_cons, hkept, ← List.filterMap_cons]

/-- A row has the words and literals of its tokens, apart from reserved words.  Characters of
code that fold to letters without being letters are excluded. -/
theorem Holds.filterMap_entries (hholds : Holds row tokens)
    (hcode : ∀ c, mark c ∈ row → Text.foldUpper c = c.toUpper) :
    (entries row).filterMap Entry.kept? = tokens.flatMap Token.entries := by
  induction hholds with
  | nil => rfl
  | @append first second tokens others hfirst hsecond hapart ihFirst ihSecond =>
      have happart := hapart.imp isNameTail_of_not_isTokenChar fun hhead =>
        head?_isNameTail_of_textOf (isNameTail_of_not_isTokenChar hhead)
      rw [entries_append hfirst.atomic happart, List.filterMap_append, List.flatMap_append,
        ihFirst fun c hmem => hcode c (List.mem_append_left _ hmem),
        ihSecond fun c hmem => hcode c (List.mem_append_right _ hmem)]
  | @separator c hc =>
      have hname : Text.isNameTail c = false := by
        have htoken := Text.isTokenChar_of_isSeparator hc
        rw [Text.isTokenChar, Bool.or_eq_false_iff] at htoken
        exact htoken.1
      rw [entries_mark hname]
      rfl
  | @keyword word text hword htext =>
      rw [entries_marks]
      refine Text.kept_of_reserved hword ?_
      rw [← beq_iff_eq.mp htext]
      exact List.map_congr_left fun c hc => (hcode c (List.mem_map_of_mem hc)).symm
  | name hname => rw [entries_marks, List.flatMap_singleton]; rfl
  | function htext => rw [entries_marks, List.flatMap_singleton, kept_of_function htext]; rfl
  | number hnumber => rw [entries_marks, List.flatMap_singleton]; rfl
  | @parameter name hname =>
      rw [marks, List.map_cons, entries_mark rfl, ← marks, entries_marks, List.flatMap_singleton]
      rfl
  | literal quote content => rfl

end Lexeme

end SelectForm

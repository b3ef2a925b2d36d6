import Mathlib
import SelectForm.Statement.Paging
import SelectForm.Proofs.Sql.StatementParts
import SelectForm.Proofs.Statement.CursorPlace

/-!
# Reading written numbers of LIMIT and OFFSET

A number of 64 bits is written in decimal digits and read back from them.  The
reader looks at the byte behind a cursor to tell how a number ends; behind a
written one there is a blank or the end of the text.  The keywords come in any order.
-/

namespace SelectForm

open Lexeme

namespace Paging

theorem number?_digits (number : UInt64) :
    number? (toString number.toNat).toList = some number := by
  obtain ⟨hne, hdigits⟩ := Query.forall_digits number.toNat
  have hempty : (toString number.toNat).toList.isEmpty = false :=
    List.isEmpty_eq_false_iff.mpr hne
  have hall : (toString number.toNat).toList.all Char.isDigit = true := by
    simpa [List.all_eq_true] using hdigits
  have hvalue : (toString number.toNat).toList.foldl
      (fun n c => n * 10 + (c.toNat - '0'.toNat)) 0 = number.toNat := by
    have htext : (toString number.toNat).toList = Nat.toDigits 10 number.toNat := Nat.toList_repr
    have hfold := @Nat.ofDigitChars_ten_toDigits number.toNat
    simp only [Nat.ofDigitChars, Nat.mul_comm 10] at hfold
    rw [htext, hfold]
  rw [number?, hempty, hall]
  simp only [hvalue, Bool.not_true, Bool.or_self, Bool.false_eq_true, if_false]
  rw [if_pos number.toNat_lt_size, UInt64.ofNat_toNat]

variable {cursor : Cursor} {front back : List Lexeme}

theorem textOf_digits (number : UInt64) :
    textOf (Query.digits number) = (toString number.toNat).toList :=
  List.append_nil _

/-- A number stands alone behind a cursor: a blank or nothing is behind it. -/
def EndsNumber (back : List Lexeme) : Prop := back = [] ∨ ∃ rest, back = mark ' ' :: rest

theorem EndsNumber.current_ne (hends : EndsNumber back) (hbetween : cursor.IsBetween front back) :
    cursor.current ≠ ',' ∧ (cursor.atEnd || Reader.endsWord cursor.current) = true := by
  rcases hends with rfl | ⟨rest, rfl⟩
  · rw [hbetween.stands.current_nil, hbetween.stands.atEnd_nil]
    exact ⟨by decide, rfl⟩
  · rw [@Cursor.Stands.current_eq cursor front _ hbetween.stands ' ' (textOf rest) rfl (by decide)]
    exact ⟨by decide, by rw [Bool.or_eq_true]; exact .inr (by decide)⟩

/-- The digits of a number are read as one word. -/
theorem word_digits {number : UInt64}
    (hbetween : cursor.IsBetween front (Query.digits number ++ back)) (hends : EndsNumber back) :
    ∃ behind, Reader.word cursor = (.ok (toString number.toNat).toList, behind) ∧
      behind.IsBetween (front ++ Query.digits number) back := by
  have htext := textOf_digits number
  have hdigits := forall_isWordChar fun c hc =>
    Query.isNameTail_of_isDigit ((Query.forall_digits number.toNat).2 c hc)
  have hback : ∀ c ∈ (textOf back).head?, Text.isWordChar c = false := by
    rcases hends with rfl | ⟨rest, rfl⟩
    · simp
    · intro c hc
      obtain rfl : ' ' = c := by simpa [Lexeme.text] using hc
      decide
  have hcut : cursor.ahead.cut = 0 := by rw [hbetween.stands.ahead_eq]
  have hstart : (cursor.jump 0).IsBetween front (Query.digits number ++ back) := by
    simpa using @Cursor.IsBetween.jump cursor front [] (Query.digits number ++ back) hbetween
  have hstopped := hstart.skipWhile (by rw [htext]; exact hdigits.1) hback
  have hsince : ((cursor.jump 0).skipWhile Text.isWordChar).since cursor.position =
      (toString number.toNat).toList :=
    (hbetween.stands.since_eq hstopped.stands).trans htext
  refine ⟨_, ?_, hstopped⟩
  rw [Reader.word, hcut]
  simp only [(hends.current_ne hstopped).2, if_true, hsince]

/-- A number behind a keyword is read back. -/
theorem readNumber_written {number : UInt64} (keyword : String)
    (hbetween : cursor.IsBetween front (mark ' ' :: (Query.digits number ++ back)))
    (hends : EndsNumber back) :
    ∃ behind, readNumber keyword cursor = (.ok number, behind) ∧
      behind.IsBetween (front ++ mark ' ' :: Query.digits number) back := by
  obtain ⟨hne, hdigits⟩ := Query.forall_digits number.toNat
  obtain ⟨c, rest, htext⟩ := List.exists_cons_of_ne_nil hne
  have hc : c.isDigit = true := hdigits c (htext ▸ List.mem_cons_self)
  have hrange := Text.toNat_of_isDigit hc
  have hback : textOf (Query.digits number ++ back) = c :: (rest ++ textOf back) := by
    rw [textOf_append, textOf_digits, htext, List.cons_append]
  have hblank : Text.isAsciiBlank c = false :=
    Text.isAsciiBlank_eq_false_of_isWordChar
      (Text.isWordChar_of_isNameTail (Query.isNameTail_of_isDigit hc))
  have hstart := @Cursor.IsBetween.skipBlanks cursor front (Query.digits number ++ back) [' ']
    hbetween (by simp [isLayoutBlank]) (by simpa [hback] using hblank)
  have hcurrent := hstart.stands.current_eq hback (by omega)
  obtain ⟨behind, hword, hbehind⟩ := word_digits hstart hends
  have hmark : c ≠ '?' := by
    rintro rfl
    exact absurd hc (by decide)
  have hcolon : (toString number.toNat).toList.head? ≠ some ':' := by
    rw [htext]
    rintro heq
    obtain rfl : c = ':' := by simpa using heq
    exact absurd hc (by decide)
  have hcomma := (hends.current_ne hbehind).1
  refine ⟨behind, ?_, by simpa [marks] using hbehind⟩
  rw [readNumber]
  simp only [hcurrent, hmark, if_false, hword, hcolon, hcomma, number?_digits]

/-! ## The clause -/

/-- A number behind its keyword. -/
def entryLexemes (entry : Keyword × UInt64) : List Lexeme :=
  word entry.1.name.toList :: mark ' ' :: Query.digits entry.2

/-- Numbers behind their keywords, each with a blank in front of it. -/
def restLexemes (entries : List (Keyword × UInt64)) : List Lexeme :=
  entries.flatMap fun entry => mark ' ' :: entryLexemes entry

/-- Numbers behind their keywords, without what is in front of the first one. -/
def lexemes : List (Keyword × UInt64) → List Lexeme
  | [] => []
  | first :: others => entryLexemes first ++ restLexemes others

/-- A number belongs to a keyword of the clause. -/
def IsEntry (entry : Keyword × UInt64) : Prop := entry.1 = .limit ∨ entry.1 = .offset

theorem solid_entryLexemes {entry : Keyword × UInt64} (hentry : IsEntry entry) :
    Solid (entryLexemes entry) := by
  obtain ⟨keyword, number⟩ := entry
  have hword : Solid [word keyword.name.toList] := by
    rcases hentry with rfl | rfl <;> exact solid_keyword (by decide) rfl
  exact hword.glue_space (Query.solid_digits number)

theorem solid_restLexemes {front : List Lexeme} {entries : List (Keyword × UInt64)}
    (hfront : Solid front) (hentries : ∀ entry ∈ entries, IsEntry entry) :
    Solid (front ++ restLexemes entries) := by
  induction entries generalizing front with
  | nil => simpa [restLexemes] using hfront
  | cons entry entries ih =>
      obtain ⟨hentry, hothers⟩ := List.forall_mem_cons.mp hentries
      have hsolid := ih (hfront.glue_space (solid_entryLexemes hentry)) hothers
      simpa [restLexemes] using hsolid

/-- The numbers with their keywords are read piece by piece. -/
theorem lexed_lexemes {entries : List (Keyword × UInt64)}
    (hentries : ∀ entry ∈ entries, IsEntry entry) : Lexed none (lexemes entries) := by
  cases entries with
  | nil => trivial
  | cons first others =>
      obtain ⟨hfirst, hothers⟩ := List.forall_mem_cons.mp hentries
      exact (solid_restLexemes (solid_entryLexemes hfirst) hothers).clean.lexed

theorem endsNumber_restLexemes (entries : List (Keyword × UInt64)) :
    EndsNumber (restLexemes entries) := by
  cases entries with
  | nil => exact .inl rfl
  | cons entry entries => exact .inr ⟨_, rfl⟩

theorem length_le_size_restLexemes (entries : List (Keyword × UInt64)) :
    entries.length ≤ Text.size (textOf (restLexemes entries)) := by
  induction entries with
  | nil => exact Nat.zero_le _
  | cons entry entries ih =>
      have hspace : Text.size (mark ' ').text = 1 := rfl
      rw [restLexemes, List.flatMap_cons, textOf_append, Text.size_append, List.length_cons,
        textOf_cons, Text.size_append, hspace]
      rw [restLexemes] at ih
      omega

/-- A number takes the place of an earlier one behind the same keyword. -/
def put (paging : Paging) (entry : Keyword × UInt64) : Paging :=
  if entry.1 = .limit then { paging with limit := some entry.2 }
  else { paging with offset := some entry.2 }

theorem readWithin_end (bound : Nat) (paging : Paging) (hbetween : cursor.IsBetween front []) :
    (readWithin bound paging cursor).1 = .ok paging := by
  have hskip := hbetween.skipBlanks_self (by simp)
  rw [readWithin.eq_def]
  cases bound with
  | zero => rfl
  | succ bound =>
      simp only [hskip.stands.atEnd_nil, if_true]

theorem readWithin_limit {limit : UInt64} {gap : Text} (bound : Nat) (paging : Paging)
    (hgap : ∀ c ∈ gap, isLayoutBlank c = true)
    (hbetween : cursor.IsBetween front (marks gap ++
      word "LIMIT".toList :: mark ' ' :: (Query.digits limit ++ back)))
    (hends : EndsNumber back) :
    ∃ behind others, behind.IsBetween others back ∧
      readWithin (bound + 1) paging cursor =
        readWithin bound { paging with limit := some limit } behind := by
  have hstart := hbetween.skipBlanks hgap fun c hc => by
    obtain rfl : 'L' = c := by simpa [Lexeme.text] using hc
    decide
  have hend := hstart.stands.atEnd_eq (by simp [Lexeme.text])
  obtain ⟨keyword, hconsume, hkeyword⟩ := @Cursor.IsBetween.consume _ _ [word "LIMIT".toList]
    (mark ' ' :: (Query.digits limit ++ back)) .limit hstart rfl (by simp [Lexeme.text]) rfl
  obtain ⟨behind, hread, hbehind⟩ := readNumber_written "LIMIT" hkeyword hends
  refine ⟨behind, _, hbehind, ?_⟩
  rw [readWithin]
  simp only [hend, hconsume, hread]
  rfl

/-- OFFSET is read with its number. -/
theorem readWithin_offset {offset : UInt64} {gap : Text} (bound : Nat) (paging : Paging)
    (hgap : ∀ c ∈ gap, isLayoutBlank c = true)
    (hbetween : cursor.IsBetween front (marks gap ++
      word "OFFSET".toList :: mark ' ' :: (Query.digits offset ++ back)))
    (hends : EndsNumber back) :
    ∃ behind others, behind.IsBetween others back ∧
      readWithin (bound + 1) paging cursor =
        readWithin bound { paging with offset := some offset } behind := by
  have hstart := hbetween.skipBlanks hgap fun c hc => by
    obtain rfl : 'O' = c := by simpa [Lexeme.text] using hc
    decide
  have hend := hstart.stands.atEnd_eq (by simp [Lexeme.text])
  have hlimit := @Cursor.IsBetween.consume_none _ _ _ .limit hstart rfl (by simp [Lexeme.text]) rfl
  obtain ⟨keyword, hconsume, hkeyword⟩ := @Cursor.IsBetween.consume _ _ [word "OFFSET".toList]
    (mark ' ' :: (Query.digits offset ++ back)) .offset hstart rfl (by simp [Lexeme.text]) rfl
  obtain ⟨behind, hread, hbehind⟩ := readNumber_written "OFFSET" hkeyword hends
  refine ⟨behind, _, hbehind, ?_⟩
  rw [readWithin]
  simp only [hend, hlimit, hconsume, hread]
  rfl

/-- A number behind its keyword is read. -/
theorem readWithin_entry {entry : Keyword × UInt64} {gap : Text} (bound : Nat)
    (paging : Paging) (hentry : IsEntry entry) (hgap : ∀ c ∈ gap, isLayoutBlank c = true)
    (hbetween : cursor.IsBetween front (marks gap ++ (entryLexemes entry ++ back)))
    (hends : EndsNumber back) :
    ∃ behind others, behind.IsBetween others back ∧
      readWithin (bound + 1) paging cursor = readWithin bound (paging.put entry) behind := by
  obtain ⟨keyword, number⟩ := entry
  rcases hentry with rfl | rfl
  · exact readWithin_limit bound paging hgap hbetween hends
  · exact readWithin_offset bound paging hgap hbetween hends

theorem readWithin_restLexemes {entries : List (Keyword × UInt64)} {bound : Nat}
    (paging : Paging) (hentries : ∀ entry ∈ entries, IsEntry entry)
    (hbound : entries.length ≤ bound)
    (hbetween : cursor.IsBetween front (restLexemes entries)) :
    (readWithin bound paging cursor).1 = .ok (entries.foldl put paging) := by
  induction entries generalizing bound paging cursor front with
  | nil => exact readWithin_end bound paging hbetween
  | cons entry entries ih =>
      obtain ⟨hentry, hothers⟩ := List.forall_mem_cons.mp hentries
      obtain ⟨bound, rfl⟩ : ∃ others, bound = others + 1 := by
        rw [List.length_cons] at hbound
        exact ⟨bound - 1, by omega⟩
      obtain ⟨behind, others, hbehind, hread⟩ := @readWithin_entry cursor front
        (restLexemes entries) entry [' '] bound paging hentry (by simp [isLayoutBlank]) hbetween
        (endsNumber_restLexemes entries)
      rw [hread]
      exact ih _ hothers (Nat.le_of_succ_le_succ hbound) hbehind

/-- The numbers of LIMIT and OFFSET are read back. -/
theorem read_lexemes {entries : List (Keyword × UInt64)}
    (hentries : ∀ entry ∈ entries, IsEntry entry)
    (hbetween : cursor.IsBetween [] (lexemes entries)) :
    (read cursor).1 = .ok (entries.foldl put {}) := by
  have hlength := hbetween.stands.length_eq
  rw [read]
  cases entries with
  | nil => exact readWithin_end _ _ hbetween
  | cons first others =>
      obtain ⟨hfirst, hothers⟩ := List.forall_mem_cons.mp hentries
      obtain ⟨behind, front, hbehind, hread⟩ := @readWithin_entry cursor []
        (restLexemes others) first [] cursor.length {} hfirst (List.forall_mem_nil _) hbetween
        (endsNumber_restLexemes others)
      have hsize := length_le_size_restLexemes others
      rw [lexemes, textOf_append, Text.size_append] at hlength
      rw [hread]
      exact readWithin_restLexemes _ hothers (by omega) hbehind

end Paging

end SelectForm

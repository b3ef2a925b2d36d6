import Mathlib
import SelectForm.Statement.Paging
import SelectForm.Proofs.Statement.AlikeFrom

/-!
# Reading alike numbers of LIMIT and OFFSET

Two cursors that stand at the same place of alike texts move over alike pieces.  A number
has no letters, so alike numbers are equal, and alike clauses give the same numbers.
-/

namespace SelectForm

open Lexeme

variable {R : Lexeme → Lexeme → Prop} {stretch : Prop}

namespace Cursor

variable {cursor cursor' : Cursor} {front back front' back' : List Lexeme}

namespace Stands

theorem atEnd_eq_isEmpty (hstands : cursor.Stands front back) (hatomic : Atomic back) :
    cursor.atEnd = back.isEmpty := by
  cases back with
  | nil => exact hstands.atEnd_nil
  | cons lexeme back =>
      exact hstands.atEnd_eq fun hnil => List.cons_ne_nil _ _ (hatomic.textOf_eq_nil_iff.mp hnil)

theorem current_congr (hstands : cursor.Stands front back) (hstands' : cursor'.Stands front' back')
    (hhead : (textOf back).head? = (textOf back').head?) : cursor.current = cursor'.current := by
  have hfirst : ∀ text : Text, (Text.bytes text)[0]? =
      text.head?.bind fun c => (String.utf8EncodeChar c)[0]? := by
    intro text
    cases text with
    | nil => rfl
    | cons c rest =>
        have hlength : 0 < (String.utf8EncodeChar c).length := by
          rw [String.length_utf8EncodeChar]
          exact c.utf8Size_pos
        rw [Text.bytes, List.flatMap_cons, List.getElem?_append_left hlength]
        rfl
  rw [current, current, peek, peek, Nat.add_zero, Nat.add_zero, hstands.text, hstands'.text,
    hstands.position, hstands'.position, textOf_append, textOf_append, Text.byteAt?_size,
    Text.byteAt?_size, hfirst, hfirst, hhead]

end Stands

/-- Cursors at the same place of alike texts, and what is ahead of them. -/
def Alike (R : Lexeme → Lexeme → Prop) (stretch : Prop) (cursor cursor' : Cursor)
    (back back' : List Lexeme) : Prop :=
  ∃ front front', cursor.Stands front back ∧ cursor'.Stands front' back' ∧ Sound (front ++ back) ∧
    Sound (front' ++ back') ∧ Lexeme.Alike R stretch front front' ∧
      Lexeme.Alike R stretch back back'

namespace Alike

variable {piece piece' : List Lexeme}

theorem ahead (halike : Alike R stretch cursor cursor' back back') :
    Lexeme.Alike R stretch back back' := by
  obtain ⟨-, -, -, -, -, -, -, hback⟩ := halike
  exact hback

theorem atomic (halike : Alike R stretch cursor cursor' back back') : Atomic back ∧ Atomic back' := by
  obtain ⟨_, _, -, -, hsound, hsound', -, -⟩ := halike
  exact ⟨hsound.right.atomic, hsound'.right.atomic⟩

theorem atEnd_eq (halike : Alike R stretch cursor cursor' back back') :
    cursor.atEnd = cursor'.atEnd := by
  obtain ⟨hatomic, hatomic'⟩ := halike.atomic
  obtain ⟨front, front', hstands, hstands', -, -, -, hback⟩ := halike
  rw [hstands.atEnd_eq_isEmpty hatomic, hstands'.atEnd_eq_isEmpty hatomic', Bool.eq_iff_iff,
    List.isEmpty_iff, List.isEmpty_iff]
  exact hback.eq_nil_iff

/-- A test that does not tell letters apart, nor blanks, has the same outcome for the bytes
at both cursors. -/
theorem current_test {test : Char → Bool} {letter blank : Bool} (hblind : Blind R)
    (hletter : ∀ c : Char, c.isAlpha = true → test c = letter)
    (hblank : ∀ c : Char, Text.isAsciiBlank c = true → test c = blank)
    (halike : Alike R stretch cursor cursor' back back') :
    test cursor.current = test cursor'.current := by
  obtain ⟨front, front', hstands, hstands', -, -, -, hback⟩ := halike
  have hascii : ∀ c : Char, c.isAlpha = true → c.toNat < 0x80 := by
    intro c hc
    have hrange := Text.toNat_of_isAlpha hc
    omega
  cases hback with
  | nil => rw [hstands.current_congr hstands' rfl]
  | @cons lexeme other row row' hlexeme _ =>
      have hmatch := hblind _ _ hlexeme
      cases lexeme with
      | mark c =>
          cases other with
          | mark d =>
              rcases Text.eq_or_isAlpha_of_toUpper hmatch with rfl | ⟨hc, hd⟩
              · rw [hstands.current_congr hstands' rfl]
              · rw [hstands.current_eq rfl (hascii c hc), hstands'.current_eq rfl (hascii d hd),
                  hletter c hc, hletter d hd]
          | word _ | literal _ _ | lineComment _ | blockComment _ => exact hmatch.elim
      | literal quote content =>
          cases other with
          | literal quote' content' =>
              obtain rfl : quote = quote' := hmatch
              rw [hstands.current_congr hstands' rfl]
          | word _ | mark _ | lineComment _ | blockComment _ => exact hmatch.elim
      | word _ | lineComment _ | blockComment _ => exact hmatch.elim
  | @gap gap gap' row row' _ hne hne' hgap hgap' _ =>
      have hfirst : ∀ (cursor : Cursor) (front row : List Lexeme) (gap : Text), gap ≠ [] →
          (∀ c ∈ gap, Text.isAsciiBlank c = true) → cursor.Stands front (marks gap ++ row) →
            test cursor.current = blank := by
        intro cursor front row gap hne hgap hstands
        cases gap with
        | nil => exact absurd rfl hne
        | cons c gap =>
            have hc := hgap c List.mem_cons_self
            have hascii : c.toNat < 0x80 := by
              simp only [Text.isAsciiBlank, Bool.or_eq_true, beq_iff_eq] at hc
              rcases hc with (((rfl | rfl) | rfl) | rfl) | rfl <;> decide
            rw [hstands.current_eq rfl hascii, hblank c hc]
      rw [hfirst cursor front row gap hne hgap hstands,
        hfirst cursor' front' row' gap' hne' hgap' hstands']

/-! ### Moving -/

theorem moved {moved moved' : Cursor} {rest rest' : List Lexeme}
    (halike : Alike R stretch cursor cursor' (piece ++ rest) (piece' ++ rest'))
    (hpiece : Lexeme.Alike R stretch piece piece') (hrest : Lexeme.Alike R stretch rest rest')
    (hmoved : ∀ front, cursor.Stands front (piece ++ rest) → moved.Stands (front ++ piece) rest)
    (hmoved' : ∀ front, cursor'.Stands front (piece' ++ rest') →
      moved'.Stands (front ++ piece') rest') :
    Alike R stretch moved moved' rest rest' := by
  obtain ⟨front, front', hstands, hstands', hsound, hsound', hfront, -⟩ := halike
  rw [← List.append_assoc] at hsound hsound'
  exact ⟨front ++ piece, front' ++ piece', hmoved front hstands, hmoved' front' hstands', hsound,
    hsound', hfront.append hpiece, hrest⟩

theorem skipBlanks (hblind : Blind R) (halike : Alike R stretch cursor cursor' back back') :
    Alike R stretch cursor.skipBlanks cursor'.skipBlanks (back.dropWhile isGap)
      (back'.dropWhile isGap) := by
  obtain ⟨hatomic, hatomic'⟩ := halike.atomic
  obtain ⟨hgap, hrest⟩ := @Lexeme.Alike.dropWhile R stretch back back' isGap true halike.ahead
    (fun _ _ hlexeme => (hblind _ _ hlexeme).isGap_eq) fun _ hblank => hblank
  refine @moved R stretch cursor cursor' (back.takeWhile isGap) (back'.takeWhile isGap) _ _ _ _ ?_
    hgap hrest ?_ ?_
  · rwa [List.takeWhile_append_dropWhile, List.takeWhile_append_dropWhile]
  · intro front hstands
    rw [List.takeWhile_append_dropWhile] at hstands
    exact hstands.skipBlanks hatomic
  · intro front hstands
    rw [List.takeWhile_append_dropWhile] at hstands
    exact hstands.skipBlanks hatomic'

end Alike

/-- A keyword at a cursor is looked for in the row ahead of it. -/
theorem Stands.keywordLength?_eq {keyword : Keyword} (hstands : cursor.Stands front back)
    (hatomic : Atomic back) (hplain : keyword.isPlain = true) :
    cursor.keywordLength? keyword =
      (keyword.rest? (lastOf none front) back).map fun rest =>
        (textOf back).length - (textOf rest).length := by
  cases back with
  | nil =>
      have hnone : keyword.rest? (lastOf none front) [] = none := by
        cases hrest : keyword.rest? (lastOf none front) [] with
        | none => rfl
        | some rest =>
            obtain ⟨c, text, hrow⟩ := Keyword.exists_marks_of_rest? hplain hrest
            cases hrow
      rw [keywordLength?, hstands.atEnd_nil, hnone]
      rfl
  | cons lexeme back =>
      rw [keywordLength?, hstands.atEnd_eq_isEmpty hatomic, hstands.ahead_eq]
      exact Keyword.length?_cellsOf_row (freshBehind true front) hplain hatomic

theorem Stands.consume_of_rest? {keyword : Keyword} {piece rest : List Lexeme}
    (hstands : cursor.Stands front (piece ++ rest)) (hatomic : Atomic (piece ++ rest))
    (hplain : keyword.isPlain = true)
    (hrest : keyword.rest? (lastOf none front) (piece ++ rest) = some rest) :
    cursor.consume keyword = (true, cursor.jump (Text.size (textOf piece))) := by
  have hlength := hstands.keywordLength?_eq hatomic hplain
  rw [hrest, Option.map_some, textOf_append, List.length_append, Nat.add_sub_cancel] at hlength
  have htake : (cellsOf (freshBehind true front) (piece ++ rest)).take (textOf piece).length =
      cellsOf (freshBehind true front) piece := by
    rw [cellsOf_append, List.take_left' (length_cellsOf _ _)]
  rw [Cursor.consume, hlength, hstands.ahead_eq]
  simp only [htake, text_cellsOf]

/-- Alike cursors consume a keyword together, and are then shorter of their ends. -/
theorem Alike.consume {keyword : Keyword} (hblind : Blind R) (hfirm : keyword.isFirm = true)
    (halike : Alike R stretch cursor cursor' back back') :
    (∃ moved moved' rest rest', cursor.consume keyword = (true, moved) ∧
        cursor'.consume keyword = (true, moved') ∧ Alike R stretch moved moved' rest rest' ∧
          rest.length < back.length ∧ rest'.length < back'.length) ∨
      cursor.consume keyword = (false, cursor) ∧ cursor'.consume keyword = (false, cursor') := by
  have hplain := Keyword.isPlain_of_isFirm hfirm
  have hatomic := halike.atomic
  have hcopy := halike
  obtain ⟨front, front', hstands, hstands', -, -, hfront, hback⟩ := hcopy
  have hbefore := @Lexeme.Alike.lastOf_isWordChar R stretch _ _ none none hblind hfront rfl
  rcases Keyword.rest?_alike_cases hblind hfirm hbefore hback with ⟨hrest, hrest'⟩ |
      ⟨_, _, rest, _, _, rest', rfl, rfl, hrest, hrest', hpiece, hbehind⟩
  · have hlength := hstands.keywordLength?_eq hatomic.1 hplain
    have hlength' := hstands'.keywordLength?_eq hatomic.2 hplain
    rw [hrest, Option.map_none] at hlength
    rw [hrest', Option.map_none] at hlength'
    exact .inr ⟨by rw [Cursor.consume, hlength], by rw [Cursor.consume, hlength']⟩
  · exact .inl ⟨_, _, rest, rest', hstands.consume_of_rest? hatomic.1 hplain hrest,
      hstands'.consume_of_rest? hatomic.2 hplain hrest',
      halike.moved hpiece hbehind (fun _ hstands => hstands.jump) (fun _ hstands => hstands.jump),
      Keyword.length_lt_of_rest? hplain hrest, Keyword.length_lt_of_rest? hplain hrest'⟩

end Cursor

/-! ## Words -/

/-- Characters that are equal up to case, one by one. -/
theorem Lexeme.Alike.forall₂_of_marks {text text' : Text} (hblind : Blind R)
    (htext : ∀ c ∈ text, Text.isAsciiBlank c = false)
    (halike : Alike R stretch (marks text) (marks text')) :
    List.Forall₂ (fun c d => c.toUpper = d.toUpper) text text' := by
  induction text generalizing text' with
  | nil =>
      have hnil : marks text' = [] := halike.eq_nil_iff.mp rfl
      rw [List.map_eq_nil_iff.mp hnil]
      exact .nil
  | cons c text ih =>
      obtain ⟨hc, htext⟩ := List.forall_mem_cons.mp htext
      generalize hrow : marks (c :: text) = row at halike
      generalize hrow' : marks text' = row' at halike
      cases halike with
      | nil => exact absurd hrow (List.cons_ne_nil _ _)
      | cons hlexeme hrest =>
          obtain ⟨rfl, rfl⟩ := List.cons.inj hrow
          obtain ⟨d, text', rfl, rfl, rfl⟩ := List.map_eq_cons_iff.mp hrow'
          exact .cons (hblind _ _ hlexeme) (ih htext hrest)
      | @gap gap _ _ _ _ hne _ hgap _ _ =>
          cases gap with
          | nil => exact absurd rfl hne
          | cons d gap =>
              have hd := hgap d List.mem_cons_self
              injection (List.cons.inj hrow).1 with hsame
              rw [← hsame, hc] at hd
              exact absurd hd Bool.false_ne_true

namespace Reader

/-- Two readings at alike cursors that both fail, or both give related values and then
stand at alike places. -/
inductive Agree {α β : Type} (R : Lexeme → Lexeme → Prop) (stretch : Prop) (S : α → β → Prop)
    (back back' : List Lexeme) :
    Except ParseError α × Cursor → Except ParseError β × Cursor → Prop
  | ok {value : α} {value' : β} {moved moved' : Cursor} {rest rest' : List Lexeme}
      (hvalue : S value value') (hmoved : Cursor.Alike R stretch moved moved' rest rest')
      (hle : rest.length ≤ back.length) (hle' : rest'.length ≤ back'.length) :
      Agree R stretch S back back' (.ok value, moved) (.ok value', moved')
  | error {failed failed' : ParseError} {moved moved' : Cursor} :
      Agree R stretch S back back' (.error failed, moved) (.error failed', moved')

variable {cursor cursor' : Cursor} {back back' : List Lexeme}

theorem endsWord_of_isAlpha {c : Char} (hletter : c.isAlpha = true) : endsWord c = false := by
  have hblank := Text.not_isAsciiBlank_of_isAlpha hletter
  have hne : ∀ d : Char, d.isAlpha = false → c ≠ d := by
    rintro d hd rfl
    rw [hletter] at hd
    exact absurd hd (by decide)
  simp [endsWord, hblank, hne ',' (by decide), hne '(' (by decide), hne ')' (by decide),
    hne ';' (by decide)]

/-- A word is what stands up to the first character that is not part of a word. -/
theorem stands_word {front : List Lexeme} (hstands : cursor.Stands front back)
    (hatomic : Atomic back) :
    ((cursor.jump cursor.ahead.cut).skipWhile Text.isWordChar).Stands
        (front ++ back.takeWhile (isMark Text.isWordChar))
        (back.dropWhile (isMark Text.isWordChar)) ∧
      ((cursor.jump cursor.ahead.cut).skipWhile Text.isWordChar).since cursor.position =
        textOf (back.takeWhile (isMark Text.isWordChar)) := by
  have hcut : cursor.ahead.cut = 0 := by rw [hstands.ahead_eq]
  have hstart : (cursor.jump 0).Stands front back := by
    simpa using @Cursor.Stands.jump cursor front [] back hstands
  have hquote : ∀ quote : Quote, Text.isWordChar quote.char = false := fun quote => by
    cases quote <;> rfl
  have hskip := hstart.skipWhile_row hatomic hquote
  rw [← @List.takeWhile_append_dropWhile _ (isMark Text.isWordChar) back] at hstands
  rw [hcut]
  exact ⟨hskip, hstands.since_eq hskip⟩

theorem word_alike (hblind : Blind R) (halike : Cursor.Alike R stretch cursor cursor' back back') :
    Agree R stretch (List.Forall₂ fun c d => c.toUpper = d.toUpper) back back' (word cursor)
      (word cursor') := by
  obtain ⟨hatomic, hatomic'⟩ := halike.atomic
  obtain ⟨hpiece, hrest⟩ := @Lexeme.Alike.dropWhile R stretch back back' (isMark Text.isWordChar)
    false halike.ahead
    (fun _ _ hlexeme => (hblind _ _ hlexeme).isMark_eq fun _ _ => Text.isWordChar_eq_of_toUpper)
    fun _ hblank => Text.not_isWordChar_of_isAsciiBlank hblank
  have hmoved : Cursor.Alike R stretch
      ((cursor.jump cursor.ahead.cut).skipWhile Text.isWordChar)
      ((cursor'.jump cursor'.ahead.cut).skipWhile Text.isWordChar)
      (back.dropWhile (isMark Text.isWordChar)) (back'.dropWhile (isMark Text.isWordChar)) := by
    refine @Cursor.Alike.moved R stretch cursor cursor' (back.takeWhile (isMark Text.isWordChar))
      (back'.takeWhile (isMark Text.isWordChar)) _ _ _ _ ?_ hpiece hrest ?_ ?_
    · rwa [List.takeWhile_append_dropWhile, List.takeWhile_append_dropWhile]
    · intro front hstands
      rw [List.takeWhile_append_dropWhile] at hstands
      exact (stands_word hstands hatomic).1
    · intro front hstands
      rw [List.takeWhile_append_dropWhile] at hstands
      exact (stands_word hstands hatomic').1
  obtain ⟨front, front', hstands, hstands', -, -, -, -⟩ := halike
  have hword := (stands_word hstands hatomic).2
  have hword' := (stands_word hstands' hatomic').2
  have hends := @Cursor.Alike.current_test R stretch _ _ _ _ endsWord false true hblind
    (fun _ => endsWord_of_isAlpha) (fun _ hblank => by simp [endsWord, hblank]) hmoved
  obtain ⟨text, htake, htext⟩ := exists_takeWhile_isMark Text.isWordChar back
  obtain ⟨text', htake', -⟩ := exists_takeWhile_isMark Text.isWordChar back'
  rw [htake, textOf_marks] at hword
  rw [htake', textOf_marks] at hword'
  rw [htake, htake'] at hpiece
  unfold word
  dsimp only
  rw [hword, hword', hmoved.atEnd_eq, hends]
  split
  · exact .ok (hpiece.forall₂_of_marks hblind fun c hc =>
        Text.isAsciiBlank_eq_false_of_isWordChar (htext c hc)) hmoved
      (List.dropWhile_suffix _).length_le (List.dropWhile_suffix _).length_le
  · exact .error

end Reader

namespace Paging

variable {cursor cursor' : Cursor} {back back' : List Lexeme}

theorem number?_of_isAlpha {word : Text} {c : Char} (hmem : c ∈ word) (hletter : c.isAlpha = true) :
    number? word = none := by
  have hdigit : c.isDigit = false := by
    by_contra hdigit
    have hrange := Text.toNat_of_isDigit (Bool.of_not_eq_false hdigit)
    have hrange' := Text.toNat_of_isAlpha hletter
    omega
  have hall : word.all Char.isDigit = false := by
    rw [List.all_eq_false]
    exact ⟨c, hmem, by simp [hdigit]⟩
  rw [number?, hall, Bool.not_false, Bool.or_true, if_pos rfl]

theorem number?_congr {word word' : Text}
    (halike : List.Forall₂ (fun c d : Char => c.toUpper = d.toUpper) word word') :
    number? word = number? word' := by
  have hcases : word = word' ∨ (∃ c ∈ word, c.isAlpha = true) ∧ ∃ c ∈ word', c.isAlpha = true := by
    induction halike with
    | nil => exact .inl rfl
    | cons hfirst _ ih =>
        rcases Text.eq_or_isAlpha_of_toUpper hfirst with rfl | ⟨hc, hd⟩
        · rcases ih with rfl | ⟨⟨c, hmem, hc⟩, d, hmem', hd⟩
          · exact .inl rfl
          · exact .inr ⟨⟨c, List.mem_cons_of_mem _ hmem, hc⟩, d, List.mem_cons_of_mem _ hmem', hd⟩
        · exact .inr ⟨⟨_, List.mem_cons_self, hc⟩, _, List.mem_cons_self, hd⟩
  rcases hcases with rfl | ⟨⟨c, hmem, hc⟩, d, hmem', hd⟩
  · rfl
  · rw [number?_of_isAlpha hmem hc, number?_of_isAlpha hmem' hd]

/-- A mark that is neither a letter nor a blank stands at both of two alike cursors. -/
theorem current_eq_iff (c : Char) (hblind : Blind R) (hletter : c.isAlpha = false)
    (hblank : Text.isAsciiBlank c = false)
    (halike : Cursor.Alike R stretch cursor cursor' back back') :
    cursor.current = c ↔ cursor'.current = c := by
  have hno : ∀ (test : Char → Bool) (d : Char), test c = false → test d = true → decide (d = c) = false := by
    intro test d hc hd
    rw [decide_eq_false_iff_not]
    rintro rfl
    rw [hc] at hd
    exact absurd hd (by decide)
  have htest := @Cursor.Alike.current_test R stretch _ _ _ _ (fun d => decide (d = c)) false false
    hblind (fun d => hno Char.isAlpha d hletter) (fun d => hno Text.isAsciiBlank d hblank) halike
  exact decide_eq_decide.mp htest

theorem readNumber_alike {keyword : String} (hblind : Blind R)
    (halike : Cursor.Alike R stretch cursor cursor' back back') :
    Reader.Agree R stretch Eq back back' (readNumber keyword cursor) (readNumber keyword cursor') := by
  have hstart := halike.skipBlanks hblind
  have hshort := (List.dropWhile_suffix (l := back) isGap).length_le
  have hshort' := (List.dropWhile_suffix (l := back') isGap).length_le
  have hword := Reader.word_alike hblind hstart
  unfold readNumber
  dsimp only
  simp only [current_eq_iff '?' hblind (by decide) (by decide) hstart]
  generalize Reader.word cursor.skipBlanks = read at hword
  generalize Reader.word cursor'.skipBlanks = read' at hword
  split
  · exact .error
  · cases hword with
    | error => exact .error
    | @ok word word' behind behind' rest rest' hvalue hmoved hle hle' =>
        have hcolon : word.head? = some ':' ↔ word'.head? = some ':' := by
          cases hvalue with
          | nil => rfl
          | @cons c d _ _ hsame _ =>
              rcases Text.eq_or_isAlpha_of_toUpper hsame with rfl | ⟨hc, hd⟩
              · rfl
              · have hne : ∀ e : Char, e.isAlpha = true → e ≠ ':' := by
                  rintro e he rfl
                  exact absurd he (by decide)
                simp [hne c hc, hne d hd]
        dsimp only
        simp only [hcolon, current_eq_iff ',' hblind (by decide) (by decide) hmoved,
          number?_congr hvalue]
        split
        · exact .error
        · split
          · exact .error
          · split
            · exact .ok rfl hmoved (hle.trans hshort) (hle'.trans hshort')
            · exact .error

/-- What is read behind a number is the same if it is the same behind every number. -/
theorem agree_of_readNumber {keyword : String} {follow follow' : UInt64 → Reader Paging}
    (hblind : Blind R) (halike : Cursor.Alike R stretch cursor cursor' back back')
    (hfollow : ∀ (number : UInt64) (behind behind' : Cursor) (rest rest' : List Lexeme),
      Cursor.Alike R stretch behind behind' rest rest' →
        rest.length ≤ back.length → rest'.length ≤ back'.length →
          Agree Eq (follow number behind).1 (follow' number behind').1) :
    Agree Eq
      (match readNumber keyword cursor with
        | (.ok number, behind) => follow number behind
        | (.error error, behind) => (.error error, behind)).1
      (match readNumber keyword cursor' with
        | (.ok number, behind) => follow' number behind
        | (.error error, behind) => (.error error, behind)).1 := by
  have hnumber := @readNumber_alike R stretch _ _ _ _ keyword hblind halike
  generalize readNumber keyword cursor = read at hnumber
  generalize readNumber keyword cursor' = read' at hnumber
  cases hnumber with
  | error => exact .error
  | ok hvalue hbehind hle hle' =>
      subst hvalue
      exact hfollow _ _ _ _ _ hbehind hle hle'

theorem readWithin_alike {bound bound' : Nat} {paging : Paging} (hblind : Blind R)
    (hbound : back.length < bound) (hbound' : back'.length < bound')
    (halike : Cursor.Alike R stretch cursor cursor' back back') :
    Agree Eq (readWithin bound paging cursor).1 (readWithin bound' paging cursor').1 := by
  induction bound generalizing bound' paging cursor cursor' back back' with
  | zero => exact absurd hbound (Nat.not_lt_zero _)
  | succ bound ih =>
      cases bound' with
      | zero => exact absurd hbound' (Nat.not_lt_zero _)
      | succ bound' =>
          have hstart := halike.skipBlanks hblind
          have hshort := (List.dropWhile_suffix (l := back) isGap).length_le
          have hshort' := (List.dropWhile_suffix (l := back') isGap).length_le
          rw [readWithin, readWithin, hstart.atEnd_eq]
          split
          · exact .ok rfl
          · rcases @Cursor.Alike.consume R stretch _ _ _ _ Keyword.limit hblind rfl hstart with
              ⟨moved, moved', rest, rest', hconsume, hconsume', hmoved, hless, hless'⟩ |
                ⟨hconsume, hconsume'⟩
            · rw [hconsume, hconsume']
              exact agree_of_readNumber hblind hmoved fun _ _ _ _ _ hbehind hle hle' =>
                ih (by omega) (by omega) hbehind
            · rw [hconsume, hconsume']
              dsimp only
              rcases @Cursor.Alike.consume R stretch _ _ _ _ Keyword.offset hblind rfl hstart with
                ⟨moved, moved', rest, rest', hconsume, hconsume', hmoved, hless, hless'⟩ |
                  ⟨hconsume, hconsume'⟩
              · rw [hconsume, hconsume']
                exact agree_of_readNumber hblind hmoved fun _ _ _ _ _ hbehind hle hle' =>
                  ih (by omega) (by omega) hbehind
              · rw [hconsume, hconsume']
                exact .error

theorem read_alike {fragment fragment' : Fragment} (hblind : Blind R)
    (htext : cursor.text = fragment.text) (htext' : cursor'.text = fragment'.text)
    (hposition : cursor.position = 0) (hposition' : cursor'.position = 0)
    (halike : fragment.Alike R stretch fragment') :
    Agree Eq (read cursor).1 (read cursor').1 := by
  obtain ⟨row, row', hsound, hsound', hrow, hrow', hrows⟩ := halike
  rw [← hrow] at htext
  rw [← hrow'] at htext'
  have hbound : ∀ (cursor : Cursor) (row : List Lexeme), Atomic row → cursor.text = textOf row →
      row.length < cursor.length + 1 := by
    intro cursor row hatomic htext
    rw [Cursor.length, htext]
    exact Nat.lt_succ_of_le hatomic.length_le_size
  have hbegin : Cursor.Alike R stretch cursor cursor' row row' :=
    ⟨[], [], ⟨htext, hposition, by rw [htext, hsound.cells_textOf]; rfl⟩,
      ⟨htext', hposition', by rw [htext', hsound'.cells_textOf]; rfl⟩, hsound, hsound', .nil, hrows⟩
  exact readWithin_alike hblind (hbound cursor row hsound.atomic htext)
    (hbound cursor' row' hsound'.atomic htext') hbegin

end Paging

end SelectForm

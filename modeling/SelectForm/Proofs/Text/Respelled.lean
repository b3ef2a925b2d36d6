import Mathlib
import SelectForm.Proofs.Lexis.Alike
import SelectForm.Proofs.Query.Tokens
import SelectForm.Proofs.Text.Number

/-!
# Respelled texts

A text is respelled if its letters are written in another case by one function, and if its
gaps are stretched or shortened, where that is allowed.  What the readers do to a text they
do in the same way to the text respelled: they trim it, take a name off its front or a word
off its end, and compare it with a word.
-/

namespace SelectForm

namespace Text

/-- A function that changes at most the case of ASCII letters. -/
def KeepsLetters (recase : Char → Char) : Prop := ∀ c, (recase c).toUpper = c.toUpper

/-- A test that does not depend on the case of ASCII letters. -/
def Caseless (test : Char → Bool) : Prop := ∀ c d : Char, c.toUpper = d.toUpper → test c = test d

end Text

namespace Lexeme

/-- Characters of code that a function takes into each other, and literals with related
contents. -/
def Respelled (recase : Char → Char) (related : Text → Text → Prop) : Lexeme → Lexeme → Prop
  | mark c, mark d => d = recase c
  | literal quote content, literal other content' => quote = other ∧ related content content'
  | _, _ => False

theorem respelled_blind {recase : Char → Char} {related : Text → Text → Prop}
    (hrecase : Text.KeepsLetters recase) : Blind (Respelled recase related) := by
  intro lexeme other hlexeme
  cases lexeme <;> cases other <;>
    first | exact hlexeme.elim | (cases hlexeme; exact (hrecase _).symm) | exact hlexeme.1

theorem rel_map {α β γ δ : Type} {S : α → β → Prop} {T : γ → δ → Prop} {found : Option α}
    {found' : Option β} {next : α → γ} {next' : β → δ} (hfound : Option.Rel S found found')
    (hnext : ∀ a b, S a b → T (next a) (next' b)) :
    Option.Rel T (found.map next) (found'.map next') := by
  cases hfound with
  | none => exact .none
  | some hsame => exact .some (hnext _ _ hsame)

theorem rel_ite {α β : Type} {S : α → β → Prop} {p : Prop} [Decidable p] {yes no : Option α}
    {yes' no' : Option β} (hyes : p → Option.Rel S yes yes') (hno : ¬ p → Option.Rel S no no') :
    Option.Rel S (if p then yes else no) (if p then yes' else no') := by
  split
  · exact hyes ‹_›
  · exact hno ‹_›

end Lexeme

namespace Text

open Lexeme

/-- Texts without literals that are equal up to a function of characters and, if `stretch`
holds, up to the length of gaps. -/
def Respelled (recase : Char → Char) (stretch : Prop) (text text' : Text) : Prop :=
  Lexeme.Alike (Lexeme.Respelled recase Eq) stretch (marks text) (marks text')

variable {recase : Char → Char} {stretch : Prop} {text text' first first' second second' : Text}

/-! ## Characters -/

theorem Caseless.of_letters {test : Char → Bool} (answer : Bool)
    (hletter : ∀ c : Char, c.isAlpha = true → test c = answer) : Caseless test :=
  fun _ _ hupper => test_eq_of_toUpper answer hletter hupper

theorem Caseless.apply_eq {test : Char → Bool} (htest : Caseless test)
    (hrecase : KeepsLetters recase) (c : Char) : test (recase c) = test c :=
  htest _ _ (hrecase c)

theorem Caseless.not {test : Char → Bool} (htest : Caseless test) : Caseless fun c => !test c :=
  fun c d hupper => congrArg Bool.not (htest c d hupper)

theorem isBlank_caseless : Caseless isBlank :=
  .of_letters false fun c hc => by
    have hname : isNameTail c = true := by simp [isNameTail, Char.isAlphanum, hc]
    exact isBlank_of_isNameTail hname

theorem isNameHead_caseless : Caseless isNameHead :=
  .of_letters true fun c hc => by simp [isNameHead, hc]

theorem isNameTail_caseless : Caseless isNameTail :=
  .of_letters true fun c hc => by simp [isNameTail, Char.isAlphanum, hc]

theorem isParameterChar_caseless : Caseless isParameterChar :=
  .of_letters true fun c hc => by simp [isParameterChar, Char.isAlphanum, hc]

theorem isDecimal_caseless : Caseless isDecimal :=
  .of_letters false fun c hc => by
    by_contra hdecimal
    rw [isAlpha_of_isDecimal (Bool.of_not_eq_false hdecimal)] at hc
    exact absurd hc (by decide)

theorem toNat_lt_of_isAlpha {c : Char} (hc : c.isAlpha = true) : c.toNat < 0x80 := by
  have hrange := toNat_of_isAlpha hc
  omega

theorem foldUpper_congr {c d : Char} (hupper : c.toUpper = d.toUpper) : foldUpper c = foldUpper d := by
  rcases eq_or_isAlpha_of_toUpper hupper with rfl | ⟨hc, hd⟩
  · rfl
  · rw [foldUpper_eq (toNat_lt_of_isAlpha hc), foldUpper_eq (toNat_lt_of_isAlpha hd), hupper]

theorem foldUpper_caseless (test : Char → Bool) : Caseless fun c => test (foldUpper c) :=
  fun _ _ hupper => congrArg test (foldUpper_congr hupper)

theorem beq_caseless {c : Char} (hc : c.isAlpha = false) : Caseless (· == c) :=
  .of_letters false fun d hd => by
    rw [beq_eq_false_iff_ne]
    rintro rfl
    rw [hd] at hc
    exact absurd hc (by decide)

/-- What is no letter stays as it is. -/
theorem KeepsLetters.eq_of_not_isAlpha (hrecase : KeepsLetters recase) {c : Char}
    (hc : c.isAlpha = false) : recase c = c := by
  rcases eq_or_isAlpha_of_toUpper (hrecase c) with heq | ⟨-, halpha⟩
  · exact heq
  · rw [halpha] at hc
    exact absurd hc (by decide)

theorem KeepsLetters.map_eq_self (hrecase : KeepsLetters recase)
    (htext : ∀ c ∈ text, c.isAlpha = false) : text.map recase = text := by
  refine (List.map_congr_left fun c hc => ?_).trans (List.map_id _)
  exact hrecase.eq_of_not_isAlpha (htext c hc)

theorem KeepsLetters.eq_iff (hrecase : KeepsLetters recase) {c d : Char} (hd : d.isAlpha = false) :
    recase c = d ↔ c = d := by
  have hsame := Caseless.apply_eq (beq_caseless hd) hrecase c
  rw [Bool.eq_iff_iff, beq_iff_eq, beq_iff_eq] at hsame
  exact hsame

/-- A test that no ASCII blank passes. -/
def RejectsGaps (test : Char → Bool) : Prop := ∀ c, isAsciiBlank c = true → test c = false

theorem rejectsGaps_of_wordChar {test : Char → Bool}
    (htest : ∀ c, test c = true → isWordChar c = true) : RejectsGaps test := by
  intro c hblank
  by_contra hc
  have hword := htest c (Bool.of_not_eq_false hc)
  rw [not_isWordChar_of_isAsciiBlank hblank] at hword
  exact absurd hword (by decide)

theorem isFoldedTail_rejectsGaps : RejectsGaps isFoldedTail := by
  intro c hblank
  simp only [isAsciiBlank, Bool.or_eq_true, beq_iff_eq] at hblank
  rcases hblank with (((h | h) | h) | h) | h <;> subst h <;> decide

theorem isFoldedHead_rejectsGaps : RejectsGaps isFoldedHead := by
  intro c hblank
  simp only [isAsciiBlank, Bool.or_eq_true, beq_iff_eq] at hblank
  rcases hblank with (((h | h) | h) | h) | h <;> subst h <;> decide

theorem isNameTail_rejectsGaps : RejectsGaps isNameTail :=
  rejectsGaps_of_wordChar fun _ => isWordChar_of_isNameTail

theorem isNameHead_rejectsGaps : RejectsGaps isNameHead :=
  rejectsGaps_of_wordChar fun _ hc => isWordChar_of_isNameTail (isNameTail_of_isNameHead hc)

theorem trimEnd_eq_reverse (text : Text) :
    trimEnd text = (text.reverse.dropWhile isBlank).reverse := by
  induction text with
  | nil => rfl
  | cons c rest ih =>
      rw [List.reverse_cons, List.dropWhile_append, trimEnd, ih]
      cases rest.reverse.dropWhile isBlank using List.reverseRecOn with
      | nil => cases hc : isBlank c <;> simp [hc]
      | append_singleton kept d => simp

theorem toLower_congr {c d : Char} (hupper : c.toUpper = d.toUpper) : c.toLower = d.toLower := by
  rw [← Char.toLower_toUpper_eq_toLower, hupper, Char.toLower_toUpper_eq_toLower]

theorem isAsciiBlank_of_isRun {head tail : Char → Bool} (hhead : RejectsGaps head)
    (htail : RejectsGaps tail) (hrun : isRun head tail text = true) :
    ∀ c ∈ text, isAsciiBlank c = false := by
  cases text with
  | nil => exact List.forall_mem_nil _
  | cons c rest =>
      rw [isRun, Bool.and_eq_true, List.all_eq_true] at hrun
      have hno : ∀ {test : Char → Bool} {c : Char}, RejectsGaps test → test c = true →
          isAsciiBlank c = false := by
        intro test c hreject hc
        by_contra hblank
        rw [hreject c (Bool.of_not_eq_false hblank)] at hc
        exact absurd hc (by decide)
      exact List.forall_mem_cons.mpr ⟨hno hhead hrun.1, fun d hd => hno htail (hrun.2 d hd)⟩

theorem isAsciiBlank_of_isName (hname : isName text = true) : ∀ c ∈ text, isAsciiBlank c = false :=
  isAsciiBlank_of_isRun isNameHead_rejectsGaps isNameTail_rejectsGaps hname

/-! ## Respelling -/

namespace Respelled

theorem reverse (htext : Respelled recase stretch text text') :
    Respelled recase stretch text.reverse text'.reverse := by
  have hreverse := Alike.reverse htext
  rw [marks, marks, ← List.map_reverse, ← List.map_reverse] at hreverse
  exact hreverse

theorem cons {c : Char} (htext : Respelled recase stretch text text') :
    Respelled recase stretch (c :: text) (recase c :: text') := Alike.cons rfl htext

theorem map (text : Text) : Respelled recase stretch text (text.map recase) := by
  induction text with
  | nil => exact Alike.nil
  | cons c text ih => exact ih.cons

/-- Respelled texts are both empty, or begin with a character and what it is taken to, or
both begin with a blank. -/
theorem cases (htext : Respelled recase stretch text text') :
    (text = [] ∧ text' = []) ∨
      (∃ c rest rest', text = c :: rest ∧ text' = recase c :: rest' ∧
        Respelled recase stretch rest rest') ∨
      ∃ c d rest rest', text = c :: rest ∧ text' = d :: rest' ∧ isAsciiBlank c = true ∧
        isAsciiBlank d = true := by
  unfold Respelled at htext
  generalize hrow : marks text = row at htext
  generalize hrow' : marks text' = row' at htext
  cases htext with
  | nil => exact .inl ⟨List.map_eq_nil_iff.mp hrow, List.map_eq_nil_iff.mp hrow'⟩
  | cons hlexeme hrest =>
      obtain ⟨c, rest, rfl, rfl, rfl⟩ := List.map_eq_cons_iff.mp hrow
      obtain ⟨d, rest', rfl, rfl, rfl⟩ := List.map_eq_cons_iff.mp hrow'
      obtain rfl : d = recase c := hlexeme
      exact .inr (.inl ⟨c, rest, rest', rfl, rfl, hrest⟩)
  | @gap gap gap' row row' hstretch hne hne' hgap hgap' hrest =>
      cases gap with
      | nil => exact absurd rfl hne
      | cons c gap =>
          cases gap' with
          | nil => exact absurd rfl hne'
          | cons d gap' =>
              obtain ⟨e, rest, rfl, hc, -⟩ := List.map_eq_cons_iff.mp hrow
              obtain ⟨e', rest', rfl, hd, -⟩ := List.map_eq_cons_iff.mp hrow'
              obtain rfl := mark.inj hc
              obtain rfl := mark.inj hd
              exact .inr (.inr ⟨_, _, rest, rest', rfl, rfl, hgap _ List.mem_cons_self,
                hgap' _ List.mem_cons_self⟩)

theorem eq_nil_iff (htext : Respelled recase stretch text text') : text = [] ↔ text' = [] := by
  have hnil := Alike.eq_nil_iff htext
  rwa [marks, marks, List.map_eq_nil_iff, List.map_eq_nil_iff] at hnil

/-- A text without ASCII blanks is only taken character by character to another. -/
theorem eq_map_or (htext : Respelled recase stretch text text') :
    text' = text.map recase ∨
      (∃ c ∈ text, isAsciiBlank c = true) ∧ ∃ c ∈ text', isAsciiBlank c = true := by
  unfold Respelled at htext
  generalize hrow : marks text = row at htext
  generalize hrow' : marks text' = row' at htext
  induction htext generalizing text text' with
  | nil =>
      rw [List.map_eq_nil_iff.mp hrow, List.map_eq_nil_iff.mp hrow']
      exact .inl rfl
  | cons hlexeme hrest ih =>
      obtain ⟨c, rest, rfl, rfl, rfl⟩ := List.map_eq_cons_iff.mp hrow
      obtain ⟨d, rest', rfl, rfl, rfl⟩ := List.map_eq_cons_iff.mp hrow'
      obtain rfl : d = recase c := hlexeme
      rcases ih rfl rfl with rfl | ⟨⟨c, hc, hblank⟩, d, hd, hblank'⟩
      · exact .inl rfl
      · exact .inr ⟨⟨c, List.mem_cons_of_mem _ hc, hblank⟩, d, List.mem_cons_of_mem _ hd, hblank'⟩
  | @gap gap gap' row row' hstretch hne hne' hgap hgap' hrest ih =>
      have hmem : ∀ {text gap : Text} {row : List Lexeme}, gap ≠ [] →
          (∀ c ∈ gap, isAsciiBlank c = true) → marks text = marks gap ++ row →
            ∃ c ∈ text, isAsciiBlank c = true := by
        intro text gap row hne hgap hrow
        obtain ⟨c, gap, rfl⟩ := List.exists_cons_of_ne_nil hne
        obtain ⟨d, rest, rfl, hd, -⟩ := List.map_eq_cons_iff.mp hrow
        obtain rfl := mark.inj hd
        exact ⟨d, List.mem_cons_self, hgap d List.mem_cons_self⟩
      exact .inr ⟨hmem hne hgap hrow, hmem hne' hgap' hrow'⟩

theorem eq_map (hblank : ∀ c ∈ text, isAsciiBlank c = false)
    (htext : Respelled recase stretch text text') : text' = text.map recase := by
  rcases htext.eq_map_or with heq | ⟨⟨c, hc, hascii⟩, -⟩
  · exact heq
  · rw [hblank c hc] at hascii
    exact absurd hascii (by decide)

/-- A test of whole texts that rejects ASCII blanks does not tell respelled texts apart. -/
theorem test_eq {test : Text → Bool} (htext : Respelled recase stretch text text')
    (hblank : ∀ text : Text, (∃ c ∈ text, isAsciiBlank c = true) → test text = false)
    (hmap : ∀ text : Text, test (text.map recase) = test text) : test text' = test text := by
  rcases htext.eq_map_or with rfl | ⟨hmem, hmem'⟩
  · exact hmap text
  · rw [hblank text hmem, hblank text' hmem']

/-- A word without letters and blanks is respelled as itself only. -/
theorem eq_iff {word : Text} (hrecase : KeepsLetters recase)
    (hword : ∀ c ∈ word, c.isAlpha = false ∧ isAsciiBlank c = false)
    (htext : Respelled recase stretch text text') : text = word ↔ text' = word := by
  rcases htext.eq_map_or with rfl | ⟨⟨c, hc, hblank⟩, d, hd, hblank'⟩
  · constructor
    · rintro rfl
      exact hrecase.map_eq_self fun c hc => (hword c hc).1
    · rintro rfl
      refine ((List.map_congr_left fun c hc => ?_).trans (List.map_id _)).symm
      have hsame := hrecase c
      rcases eq_or_isAlpha_of_toUpper hsame with heq | ⟨halpha, -⟩
      · exact heq
      · rw [(hword _ (List.mem_map_of_mem hc)).1] at halpha
        exact absurd halpha (by decide)
  · constructor
    · rintro rfl
      rw [(hword c hc).2] at hblank
      exact absurd hblank (by decide)
    · rintro rfl
      rw [(hword d hd).2] at hblank'
      exact absurd hblank' (by decide)

/-! ## Cutting -/

theorem takeWhile_dropWhile {test : Char → Bool} {answer : Bool} (hrecase : KeepsLetters recase)
    (htest : Caseless test) (hblank : ∀ c, isAsciiBlank c = true → test c = answer)
    (htext : Respelled recase stretch text text') :
    Respelled recase stretch (text.takeWhile test) (text'.takeWhile test) ∧
      Respelled recase stretch (text.dropWhile test) (text'.dropWhile test) := by
  have hparts := @Alike.dropWhile _ _ _ _ (isMark test) answer htext
    (fun _ _ hlexeme => (respelled_blind hrecase _ _ hlexeme).isMark_eq htest) hblank
  simp only [marks, List.takeWhile_map, List.dropWhile_map] at hparts
  exact hparts

/-- What passes a test that rejects ASCII blanks is taken character by character. -/
theorem takeWhile_eq_map {test : Char → Bool} (hrecase : KeepsLetters recase)
    (htest : Caseless test) (hblank : RejectsGaps test) (htext : Respelled recase stretch text text') :
    text'.takeWhile test = (text.takeWhile test).map recase := by
  rcases (htext.takeWhile_dropWhile hrecase htest hblank).1.eq_map_or with
    heq | ⟨⟨c, hc, hascii⟩, -⟩
  · exact heq
  · have hpass : test c = true := List.mem_takeWhile_imp hc
    rw [hblank c hascii] at hpass
    exact absurd hpass (by decide)

theorem head?_any {test : Char → Bool} {answer : Bool} (hrecase : KeepsLetters recase)
    (htest : Caseless test) (hblank : ∀ c, isAsciiBlank c = true → test c = answer)
    (htext : Respelled recase stretch text text') : text.head?.any test = text'.head?.any test := by
  rcases htext.cases with ⟨rfl, rfl⟩ | ⟨c, rest, rest', rfl, rfl, -⟩ |
    ⟨c, d, rest, rest', rfl, rfl, hc, hd⟩
  · rfl
  · exact (Caseless.apply_eq htest hrecase c).symm
  · exact (hblank c hc).trans (hblank d hd).symm

theorem trimStart (hrecase : KeepsLetters recase) (htext : Respelled recase stretch text text') :
    Respelled recase stretch (trimStart text) (Text.trimStart text') :=
  (htext.takeWhile_dropWhile hrecase isBlank_caseless fun _ => isBlank_of_isAsciiBlank).2

theorem trimEnd (hrecase : KeepsLetters recase) (htext : Respelled recase stretch text text') :
    Respelled recase stretch (trimEnd text) (Text.trimEnd text') := by
  rw [trimEnd_eq_reverse, trimEnd_eq_reverse]
  exact (htext.reverse.takeWhile_dropWhile hrecase isBlank_caseless
    fun _ => isBlank_of_isAsciiBlank).2.reverse

theorem trim (hrecase : KeepsLetters recase) (htext : Respelled recase stretch text text') :
    Respelled recase stretch (trim text) (Text.trim text') :=
  (htext.trimStart hrecase).trimEnd hrecase

/-- A run is taken off both of two respelled texts, or off none. -/
theorem takeRun? {head tail : Char → Bool} (hrecase : KeepsLetters recase) (hhead : Caseless head)
    (htail : Caseless tail) (hreject : RejectsGaps head) (hreject' : RejectsGaps tail)
    (htext : Respelled recase stretch text text') :
    Option.Rel (fun found found' => found'.1 = found.1.map recase ∧
        Respelled recase stretch found.2 found'.2)
      (takeRun? head tail text) (Text.takeRun? head tail text') := by
  rcases htext.cases with ⟨rfl, rfl⟩ | ⟨c, rest, rest', rfl, rfl, hrest⟩ |
    ⟨c, d, rest, rest', rfl, rfl, hc, hd⟩
  · exact .none
  · rw [Text.takeRun?, Text.takeRun?, hhead.apply_eq hrecase c]
    split
    · refine .some ⟨?_, (hrest.takeWhile_dropWhile hrecase htail hreject').2⟩
      rw [hrest.takeWhile_eq_map hrecase htail hreject', List.map_cons]
    · exact .none
  · rw [Text.takeRun?, Text.takeRun?, hreject c hc, hreject d hd]
    exact .none

/-- The last word of two respelled texts, and what is before it. -/
theorem splitLastWord? (hrecase : KeepsLetters recase) (htext : Respelled recase stretch text text') :
    Option.Rel (fun found found' => Respelled recase stretch found.1 found'.1 ∧
        found'.2 = found.2.map recase)
      (splitLastWord? text) (Text.splitLastWord? text') := by
  have hreject : RejectsGaps fun c => !isBlank c :=
    fun _ hc => congrArg Bool.not (isBlank_of_isAsciiBlank hc)
  have hword := htext.reverse.takeWhile_eq_map hrecase isBlank_caseless.not hreject
  have hfront := (htext.reverse.takeWhile_dropWhile hrecase isBlank_caseless.not hreject).2
  rw [Text.splitLastWord?, Text.splitLastWord?, hword]
  generalize (text.reverse.dropWhile fun c => !isBlank c) = front at hfront
  generalize (text'.reverse.dropWhile fun c => !isBlank c) = front' at hfront
  cases front with
  | nil =>
      rw [hfront.eq_nil_iff.mp rfl]
      exact .none
  | cons c front =>
      cases front' with
      | nil => exact absurd (hfront.eq_nil_iff.mpr rfl) (List.cons_ne_nil _ _)
      | cons d front' => exact .some ⟨hfront.reverse.trimEnd hrecase, List.map_reverse.symm⟩

/-! ## Words -/

theorem isRun_eq {head tail : Char → Bool} (hrecase : KeepsLetters recase) (hhead : Caseless head)
    (htail : Caseless tail) (hreject : RejectsGaps head) (hreject' : RejectsGaps tail)
    (htext : Respelled recase stretch text text') : isRun head tail text' = isRun head tail text := by
  refine htext.test_eq (fun text hmem => ?_) fun text => ?_
  · obtain ⟨c, hc, hblank⟩ := hmem
    by_contra hrun
    rw [isAsciiBlank_of_isRun hreject hreject' (Bool.of_not_eq_false hrun) c hc] at hblank
    exact absurd hblank (by decide)
  · cases text with
    | nil => rfl
    | cons c rest =>
        rw [List.map_cons, isRun, isRun, hhead.apply_eq hrecase, List.all_map]
        congr 2
        exact funext fun d => htail.apply_eq hrecase d

theorem isName_eq (hrecase : KeepsLetters recase) (htext : Respelled recase stretch text text') :
    isName text' = isName text :=
  htext.isRun_eq hrecase isNameHead_caseless isNameTail_caseless isNameHead_rejectsGaps
    isNameTail_rejectsGaps

theorem isFoldedName_eq (hrecase : KeepsLetters recase)
    (htext : Respelled recase stretch text text') :
    isRun isFoldedHead isFoldedTail text' = isRun isFoldedHead isFoldedTail text :=
  htext.isRun_eq hrecase (foldUpper_caseless isNameHead) (foldUpper_caseless isNameTail)
    isFoldedHead_rejectsGaps isFoldedTail_rejectsGaps

/-- Respelled texts fold to the same words in capitals. -/
theorem foldsTo_eq {word : Text} (hrecase : KeepsLetters recase)
    (hword : ∀ c ∈ word, c.isUpper = true) (htext : Respelled recase stretch text text') :
    foldsTo word text' = foldsTo word text := by
  refine htext.test_eq (fun text hmem => ?_) fun text => ?_
  · obtain ⟨c, hc, hblank⟩ := hmem
    rw [foldsTo, beq_eq_false_iff_ne]
    rintro rfl
    have hupper := hword _ (List.mem_map_of_mem hc)
    have hfold : isFoldedTail c = true := by
      simp [isFoldedTail, isNameTail, Char.isAlphanum, Char.isAlpha, hupper]
    rw [isFoldedTail_rejectsGaps c hblank] at hfold
    exact absurd hfold (by decide)
  · rw [foldsTo, foldsTo, List.map_map]
    congr 1
    exact List.map_congr_left fun c _ => foldUpper_congr (hrecase c)

theorem sameLetters_eq {word : Text} (hrecase : KeepsLetters recase)
    (hword : ∀ c ∈ word, c.isAlpha = true) (htext : Respelled recase stretch text text') :
    sameLetters word text' = sameLetters word text := by
  refine htext.test_eq (fun text hmem => ?_) fun text => ?_
  · obtain ⟨c, hc, hblank⟩ := hmem
    by_contra hsame
    have halpha := isAlpha_of_sameLetters hword (Bool.of_not_eq_false hsame) c hc
    rw [not_isAsciiBlank_of_isAlpha halpha] at hblank
    exact absurd hblank (by decide)
  · rw [sameLetters, sameLetters, List.map_map]
    congr 1
    exact List.map_congr_left fun c _ => toLower_congr (hrecase c)

theorem reserved_foldsTo_eq {word : String} (hrecase : KeepsLetters recase)
    (hword : word ∈ Identifier.reservedWords) (htext : Respelled recase stretch text text') :
    foldsTo word.toList text' = foldsTo word.toList text :=
  htext.foldsTo_eq hrecase (Holds.isUpper_of_mem_reservedWords hword)

theorem reserved_sameLetters_eq {word : String} (hrecase : KeepsLetters recase)
    (hword : word ∈ Identifier.reservedWords) (htext : Respelled recase stretch text text') :
    sameLetters word.toList text' = sameLetters word.toList text := by
  refine htext.sameLetters_eq hrecase fun c hc => ?_
  simp [Char.isAlpha, Holds.isUpper_of_mem_reservedWords hword c hc]

end Respelled

end Text

end SelectForm

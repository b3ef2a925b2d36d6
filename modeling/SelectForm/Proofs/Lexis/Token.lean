import Mathlib
import SelectForm.Query.Operand
import SelectForm.Proofs.Statement.SplitRow
import SelectForm.Proofs.Text.Name

/-!
# The tokens of a row

The names, numbers, parameters and literals that a row holds are its tokens.  Between them
stand separators and reserved words.  A row that is put together from two others holds the
tokens of both, provided that no token goes on from one into the other.

The readers take a row apart at separators and keywords only.  So what they find in the
parts are the tokens of the whole: nothing is lost between the parts, and nothing is found
twice.
-/

namespace SelectForm

/-- What a text holds apart from separators and reserved words. -/
inductive Token
  | name (text : Text)
  | number (text : Text)
  | parameter (name : Text)
  /-- A literal in quotation marks, given by its content. -/
  | string (value : Text)
deriving DecidableEq, Repr

namespace Text

/-- Characters with which a name or a parameter may go on. -/
def isTokenChar (c : Char) : Bool := isNameTail c || c == ':'

/-- Characters that stand between tokens. -/
def isSeparator (c : Char) : Bool :=
  isBlank c || [',', '(', ')', '.', '*', '<', '>', '=', '!'].contains c

theorem isTokenChar_of_isSeparator {c : Char} (hc : isSeparator c = true) :
    isTokenChar c = false := by
  rw [isSeparator, Bool.or_eq_true, List.contains_iff_mem] at hc
  rcases hc with hblank | hmem
  · by_contra htoken
    rw [Bool.not_eq_false, isTokenChar, Bool.or_eq_true, beq_iff_eq] at htoken
    rcases htoken with hname | rfl
    · rw [isBlank_of_isNameTail hname] at hblank
      exact absurd hblank Bool.false_ne_true
    · exact absurd hblank (by decide)
  · have hall : [',', '(', ')', '.', '*', '<', '>', '=', '!'].all (!isTokenChar ·) = true := rfl
    simpa using List.all_eq_true.mp hall c hmem

theorem isSeparator_of_isBlank {c : Char} (hc : isBlank c = true) : isSeparator c = true :=
  (Bool.or_eq_true _ _).mpr (.inl hc)

theorem isTokenChar_of_isWordChar {c : Char} (hc : isWordChar c = false) :
    isTokenChar c = false := by
  by_contra htoken
  rw [Bool.not_eq_false, isTokenChar, Bool.or_eq_true, beq_iff_eq] at htoken
  rcases htoken with hname | rfl
  · rw [isWordChar_of_isNameTail hname] at hc
    exact Bool.false_ne_true hc.symm
  · exact absurd hc (by decide)

end Text

namespace Lexeme

theorem marks_append (first second : Text) : marks (first ++ second) = marks first ++ marks second :=
  List.map_append

/-- No token goes on from one row into another behind it. -/
def Apart (first second : List Lexeme) : Prop :=
  (lastOf none first).any Text.isTokenChar = false ∨
    (textOf second).head?.any Text.isTokenChar = false

/-- A row and the tokens that it holds, from left to right. -/
inductive Holds : List Lexeme → List Token → Prop
  | nil : Holds [] []
  | append {first second : List Lexeme} {tokens others : List Token}
      (hfirst : Holds first tokens) (hsecond : Holds second others)
      (hapart : Apart first second) : Holds (first ++ second) (tokens ++ others)
  | separator {c : Char} (hc : Text.isSeparator c = true) : Holds [mark c] []
  | keyword {word : String} {text : Text} (hword : word ∈ Identifier.reservedWords)
      (htext : Text.foldsTo word.toList text = true) : Holds (marks text) []
  | name {text : Text} (hname : Text.isName text = true) : Holds (marks text) [.name text]
  | function {aggregate : Aggregate} {text : Text}
      (htext : Text.sameLetters aggregate.keyword.toList text = true) :
      Holds (marks text) [.name aggregate.keyword.toList]
  | number {text : Text} (hnumber : Text.isNumber text = true) : Holds (marks text) [.number text]
  | parameter {name : Text} (hname : Text.isParameterName name = true) :
      Holds (marks (':' :: name)) [.parameter name]
  | literal (quote : Quote) (content : Text) :
      Holds [.literal quote content] [.string content]

namespace Holds

variable {row first second : List Lexeme} {tokens others : List Token} {text : Text}

/-! ## Separators -/

theorem any_isTokenChar {c : Option Char} (hword : c.any Text.isWordChar = false) :
    c.any Text.isTokenChar = false := by
  cases c with
  | none => rfl
  | some c => exact Text.isTokenChar_of_isWordChar hword

theorem any_lastOf_marks (hseparator : ∀ c ∈ text, Text.isSeparator c = true) :
    (lastOf none (marks text)).any Text.isTokenChar = false := by
  rw [lastOf_eq, textOf_marks, Option.or_none]
  cases hlast : text.getLast? with
  | none => rfl
  | some c => exact Text.isTokenChar_of_isSeparator (hseparator c (List.mem_of_getLast? hlast))

theorem any_head?_marks (hseparator : ∀ c ∈ text, Text.isSeparator c = true) :
    (textOf (marks text)).head?.any Text.isTokenChar = false := by
  rw [textOf_marks]
  cases hhead : text.head? with
  | none => rfl
  | some c => exact Text.isTokenChar_of_isSeparator (hseparator c (List.mem_of_head? hhead))

theorem separators (hseparator : ∀ c ∈ text, Text.isSeparator c = true) : Holds (marks text) [] := by
  induction text with
  | nil => exact .nil
  | cons c text ih =>
      obtain ⟨hc, htext⟩ := List.forall_mem_cons.mp hseparator
      exact .append (.separator hc) (ih htext) (.inl (Text.isTokenChar_of_isSeparator hc))

theorem pad_left (hseparator : ∀ c ∈ text, Text.isSeparator c = true) (hrow : Holds row tokens) :
    Holds (marks text ++ row) tokens :=
  .append (separators hseparator) hrow (.inl (any_lastOf_marks hseparator))

theorem pad_right (hseparator : ∀ c ∈ text, Text.isSeparator c = true) (hrow : Holds row tokens) :
    Holds (row ++ marks text) tokens := by
  have hwhole := hrow.append (separators hseparator) (.inr (any_head?_marks hseparator))
  rwa [List.append_nil] at hwhole

/-- Tokens on both sides of a separator. -/
theorem between (hfirst : Holds first tokens) (hne : text ≠ [])
    (hseparator : ∀ c ∈ text, Text.isSeparator c = true) (hsecond : Holds second others) :
    Holds (first ++ (marks text ++ second)) (tokens ++ others) := by
  refine .append hfirst (hsecond.pad_left hseparator) (.inr ?_)
  rw [textOf_append, textOf_marks, List.head?_append_of_ne_nil _ hne, ← textOf_marks text]
  exact any_head?_marks hseparator

theorem isSeparator_of_blanks (hblank : ∀ c ∈ text, Text.isBlank c = true) :
    ∀ c ∈ text, Text.isSeparator c = true :=
  fun c hc => Text.isSeparator_of_isBlank (hblank c hc)

theorem isSeparator_of_gap (hgap : ∀ c ∈ text, Text.isAsciiBlank c = true) :
    ∀ c ∈ text, Text.isSeparator c = true :=
  fun c hc => Text.isSeparator_of_isBlank (Text.isBlank_of_isAsciiBlank (hgap c hc))

theorem of_trimmed (htrimmed : Holds (trimmed row) tokens) : Holds row tokens := by
  obtain ⟨front, back, hrow, hfront, hback⟩ := exists_trimmed row
  rw [hrow]
  exact (htrimmed.pad_left (isSeparator_of_blanks hfront)).pad_right (isSeparator_of_blanks hback)

theorem of_dropWhile_isGap (hrest : Holds (row.dropWhile isGap) tokens) : Holds row tokens := by
  obtain ⟨gap, hrow, hgap⟩ := Keyword.exists_gap row
  rw [hrow]
  exact hrest.pad_left (isSeparator_of_gap hgap)

theorem of_inside? {inner : List Lexeme} (hinside : inside? row = some inner)
    (hinner : Holds inner tokens) : Holds row tokens := by
  have hsingle : ∀ c : Char, Text.isSeparator c = true → ∀ d ∈ [c], Text.isSeparator d = true :=
    fun c hc => List.forall_mem_singleton.mpr hc
  obtain ⟨front, back, rfl, hfront, hback⟩ := exists_of_inside? hinside
  have hgroup := (hinner.pad_right (hsingle ')' rfl)).pad_left (hsingle '(' rfl)
  exact (hgroup.pad_left (isSeparator_of_blanks hfront)).pad_right (isSeparator_of_blanks hback)

end Holds

end Lexeme

open Lexeme

/-! ## Keywords -/

/-- A keyword whose words are reserved, or whose symbol is made of separators. -/
def Keyword.isInert (keyword : Keyword) : Bool :=
  match keyword.form with
  | .phrase words => words.all fun word => Identifier.reservedWords.contains (String.ofList word)
  | .symbol text => text.all Text.isSeparator

namespace Lexeme.Holds

variable {row first second : List Lexeme} {tokens others : List Token} {text : Text}
  {keyword : Keyword}

theorem isUpper_of_mem_reservedWords {word : String} (hword : word ∈ Identifier.reservedWords) :
    ∀ c ∈ word.toList, c.isUpper = true := by
  have hall : ∀ word ∈ Identifier.reservedWords, word.toList.all Char.isUpper = true := by decide
  exact List.all_eq_true.mp (hall word hword)

theorem isFoldedTail_of_foldsTo {word : String} (hword : word ∈ Identifier.reservedWords)
    (htext : Text.foldsTo word.toList text = true) : ∀ c ∈ text, Text.isFoldedTail c = true := by
  intro c hc
  have hfold : text.map Text.foldUpper = word.toList := beq_iff_eq.mp htext
  have hupper := isUpper_of_mem_reservedWords hword (Text.foldUpper c)
    (hfold ▸ List.mem_map_of_mem hc)
  simp [Text.isFoldedTail, Text.isNameTail, Char.isAlphanum, Char.isAlpha, hupper]

/-- Folding agrees with capitals where the capital is an ASCII letter. -/
theorem foldUpper_of_isUpper {c : Char} (hc : c.toUpper.isUpper = true) :
    Text.foldUpper c = c.toUpper := by
  apply Text.foldUpper_eq
  have hrange := Text.toNat_of_isUpper hc
  by_cases hlower : c.isLower = true
  · have hbounds := Text.toNat_of_isLower hlower
    omega
  · rw [Char.toUpper_eq_of_not_isLower hlower] at hrange
    omega

theorem of_toUpper_eq {word : Text} (hword : String.ofList word ∈ Identifier.reservedWords)
    (htext : text.map Char.toUpper = word) : Holds (marks text) [] := by
  have hupper := isUpper_of_mem_reservedWords hword
  rw [String.toList_ofList, ← htext] at hupper
  refine .keyword hword (beq_iff_eq.mpr ?_)
  rw [String.toList_ofList, ← htext]
  exact List.map_congr_left fun c hc => foldUpper_of_isUpper (hupper _ (List.mem_map_of_mem hc))

theorem of_sameLetters {word : String} (hword : word ∈ Identifier.reservedWords)
    (htext : Text.sameLetters word.toList text = true) : Holds (marks text) [] := by
  have hupper := isUpper_of_mem_reservedWords hword
  refine @of_toUpper_eq text word.toList (by rwa [String.ofList_toList]) ?_
  have hlower := congrArg (List.map Char.toUpper) (beq_iff_eq.mp htext)
  rw [List.map_map, List.map_map] at hlower
  have hsame : ∀ text : Text, text.map (Char.toUpper ∘ Char.toLower) = text.map Char.toUpper :=
    fun text => List.map_congr_left fun c _ => by simp
  rw [hsame, hsame] at hlower
  rw [← hlower]
  refine (List.map_congr_left fun c hc => ?_).trans (List.map_id _)
  exact Text.toUpper_of_isUpper (hupper c hc)

theorem reserved_append {word rest : Text} {words : List Text}
    (hword : String.ofList word ∈ Identifier.reservedWords) (htext : text.map Char.toUpper = word)
    (hspells : Keyword.SpellsWords words rest) (hrest : Holds (marks rest) []) :
    Holds (marks (text ++ rest)) [] := by
  rw [marks_append]
  refine (of_toUpper_eq hword htext).append hrest (.inr ?_)
  cases hspells with
  | nil => rfl
  | @cons _ gap _ _ _ hne hgap _ _ =>
      rw [textOf_marks, List.head?_append_of_ne_nil _ hne, ← textOf_marks gap]
      exact any_head?_marks (isSeparator_of_gap hgap)

theorem of_spellsWords {words : List Text}
    (hinert : ∀ word ∈ words, String.ofList word ∈ Identifier.reservedWords)
    (hspells : Keyword.SpellsWords words text) : Holds (marks text) [] := by
  induction hspells with
  | nil => exact .nil
  | @cons word gap text rest words hne hgap htext hrest ih =>
      obtain ⟨hword, hwords⟩ := List.forall_mem_cons.mp hinert
      rw [marks_append]
      exact (reserved_append hword htext hrest (ih hwords)).pad_left (isSeparator_of_gap hgap)

theorem of_spells (hinert : keyword.isInert = true) (hspells : keyword.Spells text) :
    Holds (marks text) [] := by
  unfold Keyword.isInert at hinert
  unfold Keyword.Spells at hspells
  cases hform : keyword.form with
  | symbol symbol =>
      simp only [hform, List.all_eq_true] at hinert hspells
      exact separators (hspells ▸ hinert)
  | phrase words =>
      simp only [hform, List.all_eq_true, List.contains_iff_mem] at hinert hspells
      cases words with
      | nil => exact hspells ▸ .nil
      | cons word words =>
          obtain ⟨hword, hwords⟩ := List.forall_mem_cons.mp hinert
          obtain ⟨first, rest, rfl, hfirst, hrest⟩ := hspells
          exact reserved_append hword hfirst hrest (of_spellsWords hwords hrest)

end Lexeme.Holds

/-- A finder whose marks hold no tokens and stand apart from what is around them.  The row
behind a mark may be broken off. -/
def RowFinder.Passes {α : Type} (seek : RowFinder α) : Prop :=
  ∀ (before : Option Char) (row : List Lexeme) (label : α) (back : List Lexeme),
    seek before row = some (label, back) → ∃ text, row = marks text ++ back ∧
      ∀ prior kept : List Lexeme, (prior = [] ∨ lastOf none prior = before) → kept <+: back →
        ∀ tokens others : List Token, Holds prior tokens → Holds kept others →
          Holds (prior ++ (marks text ++ kept)) (tokens ++ others)

namespace Lexeme.Holds

variable {row first second : List Lexeme} {tokens others : List Token} {text : Text}
  {keyword : Keyword}

theorem any_head?_prefix {kept back : List Lexeme} (hkept : kept <+: back)
    (hback : (textOf back).head?.any Text.isTokenChar = false) :
    (textOf kept).head?.any Text.isTokenChar = false := by
  obtain ⟨others, rfl⟩ := hkept
  rw [textOf_append, List.head?_append] at hback
  cases hhead : (textOf kept).head? with
  | none => rfl
  | some c => simpa [hhead] using hback

/-- A keyword between some pieces. -/
theorem of_rest? {before : Option Char} {back : List Lexeme} (hfirm : keyword.isFirm = true)
    (hinert : keyword.isInert = true) (hrest : keyword.rest? before row = some back) :
    ∃ text, row = marks text ++ back ∧ ∀ prior kept : List Lexeme,
      (prior = [] ∨ lastOf none prior = before) → kept <+: back →
        ∀ tokens others : List Token, Holds prior tokens → Holds kept others →
          Holds (prior ++ (marks text ++ kept)) (tokens ++ others) := by
  obtain ⟨text, hrow, hspells⟩ := Keyword.exists_of_rest? hrest
  refine ⟨text, hrow, fun prior kept hprior hkept tokens others htokens hothers => ?_⟩
  cases hform : keyword.form with
  | symbol symbol =>
      have hne := hspells.ne_nil (Keyword.isPlain_of_isFirm hfirm)
      simp only [Keyword.isInert, hform, List.all_eq_true] at hinert
      simp only [Keyword.Spells, hform] at hspells
      exact htokens.between hne (hspells ▸ hinert) hothers
  | phrase words =>
      obtain ⟨hbefore, hback⟩ := Keyword.bounded_of_rest? hform hrest
      have hhead := any_head?_prefix hkept (any_isTokenChar hback)
      refine htokens.append ((of_spells hinert hspells).append hothers (.inr hhead)) (.inl ?_)
      rcases hprior with rfl | hprior
      · rfl
      · rw [hprior]
        exact any_isTokenChar hbefore

theorem ofKeywords_passes {α : Type} {keywords : List (Keyword × α)}
    (hfirm : ∀ entry ∈ keywords, entry.1.isFirm = true)
    (hinert : ∀ entry ∈ keywords, entry.1.isInert = true) :
    (RowFinder.ofKeywords keywords).Passes := by
  intro before row label back hseek
  obtain ⟨entry, hmem, hfound⟩ := List.exists_of_findSome?_eq_some hseek
  obtain ⟨found, hrest, hpair⟩ := Option.map_eq_some_iff.mp hfound
  obtain rfl : found = back := (Prod.mk.inj hpair).2
  exact of_rest? (hfirm entry hmem) (hinert entry hmem) hrest

theorem comma_passes : RowFinder.comma.Passes := by
  intro before row label back hseek
  unfold RowFinder.comma at hseek
  split at hseek
  · rename_i rest
    obtain rfl : rest = back := (Prod.mk.inj (Option.some.inj hseek)).2
    refine ⟨[','], rfl, fun prior kept _ _ tokens others htokens hothers => ?_⟩
    exact htokens.between (List.cons_ne_nil _ _) (List.forall_mem_singleton.mpr rfl) hothers
  · exact absurd hseek (by simp)

/-! ## Cuts -/

variable {α : Type} {seek : RowFinder α} {depth : Int} {before : Option Char}
  {head prior : List Lexeme} {cuts more : List (RowCut α)}

theorem lastOf_concat {lexeme : Lexeme} (hatom : lexeme.IsAtom) :
    lastOf none (prior ++ [lexeme]) = lastOf before [lexeme] := by
  obtain ⟨front, c, htext⟩ := List.eq_nil_or_concat' lexeme.text |>.resolve_left hatom.text_ne_nil
  have hlast : lexeme.text.getLast? = some c := by rw [htext, List.getLast?_concat]
  rw [lastOf_append, lastOf, lastOf, lastOf, lastOf, hlast]
  rfl

/-- A mark behind some pieces and in front of what is behind it. -/
theorem of_seek {c : Char} {text : Text} {label : α} {back kept : List Lexeme}
    (hpasses : seek.Passes) (hseek : seek before (mark c :: (marks text ++ back)) = some (label, back))
    (hprior : prior = [] ∨ lastOf none prior = before) (hkept : kept <+: back)
    (htokens : Holds prior tokens) (hothers : Holds kept others) :
    Holds (prior ++ (marks (c :: text) ++ kept)) (tokens ++ others) := by
  obtain ⟨spelled, hrow, hholds⟩ := hpasses _ _ _ _ hseek
  have hmarks : marks (c :: text) ++ back = marks spelled ++ back := hrow
  rw [List.append_cancel_right hmarks]
  exact hholds prior kept hprior hkept tokens others htokens hothers

/-- A row and its first parts hold what these parts hold. -/
theorem of_cuts_append {bodies : List (List Token)} (hpasses : seek.Passes) (hatomic : Atomic row)
    (hcuts : Cuts seek depth before row head (cuts ++ more))
    (hprior : prior = [] ∨ lastOf none prior = before) (hhead : Holds (prior ++ head) tokens)
    (hbodies : List.Forall₂ (fun cut body => Holds cut.body body) cuts bodies) :
    Holds (prior ++ (head ++ cuts.flatMap RowCut.row)) (tokens ++ bodies.flatten) := by
  generalize hall : cuts ++ more = all at hcuts
  induction hcuts generalizing prior tokens cuts bodies with
  | nil =>
      obtain ⟨rfl, rfl⟩ := List.append_eq_nil_iff.mp hall
      cases hbodies
      simpa using hhead
  | @pass depth before lexeme row head _ _ _ ih =>
      obtain ⟨hatom, hrow⟩ := atomic_cons.mp hatomic
      have hrest := @ih tokens (prior ++ [lexeme]) cuts bodies hrow (.inr (lastOf_concat hatom))
        (by simpa using hhead) hbodies hall
      simpa using hrest
  | @mark depth before c text label row back body _ _ hrow hseek hcuts ih =>
      rw [List.append_nil] at hhead
      subst hrow
      have hback : Atomic back := (atomic_append.mp (atomic_cons.mp hatomic).2).2
      cases hbodies with
      | nil => simpa using hhead
      | @cons _ first cuts others hfirst hothers =>
          obtain ⟨rfl, rfl⟩ := List.cons.inj hall
          have hrest := @ih first [] cuts others hback (.inl rfl) hfirst hothers rfl
          have hprefix : body ++ cuts.flatMap RowCut.row <+: back := by
            rw [hcuts.row_eq, List.append_eq, List.flatMap_append, ← List.append_assoc]
            exact List.prefix_append _ _
          have hwhole := of_seek hpasses hseek hprior hprefix hhead hrest
          simpa [RowCut.row] using hwhole

/-- A row holds what its parts hold. -/
theorem of_cuts {bodies : List (List Token)} (hpasses : seek.Passes) (hatomic : Atomic row)
    (hcuts : Cuts seek depth before row head cuts)
    (hprior : prior = [] ∨ lastOf none prior = before) (hhead : Holds (prior ++ head) tokens)
    (hbodies : List.Forall₂ (fun cut body => Holds cut.body body) cuts bodies) :
    Holds (prior ++ row) (tokens ++ bodies.flatten) := by
  rw [← List.append_nil cuts] at hcuts
  have hwhole := of_cuts_append hpasses hatomic hcuts hprior hhead hbodies
  rw [List.append_nil] at hcuts
  rwa [← hcuts.row_eq] at hwhole

/-- A row with a mark holds what the rows on both sides of the mark hold. -/
theorem of_cuts_cons {cut : RowCut α} (hpasses : seek.Passes) (hatomic : Atomic row)
    (hcuts : Cuts seek depth before row head (cut :: cuts))
    (hprior : prior = [] ∨ lastOf none prior = before) (hhead : Holds (prior ++ head) tokens)
    (hrest : Holds (cut.body ++ cuts.flatMap RowCut.row) others) :
    Holds (prior ++ row) (tokens ++ others) := by
  generalize hall : cut :: cuts = all at hcuts
  induction hcuts generalizing prior with
  | nil => exact absurd hall (by simp)
  | @pass depth before lexeme row head _ _ _ ih =>
      obtain ⟨hatom, hrow⟩ := atomic_cons.mp hatomic
      have hwhole := @ih (prior ++ [lexeme]) hrow (.inr (lastOf_concat hatom)) (by simpa using hhead)
        hall
      simpa using hwhole
  | @mark depth before c text label row back body _ _ hrow hseek hback _ =>
      obtain ⟨rfl, rfl⟩ := List.cons.inj hall
      subst hrow
      rw [List.append_nil] at hhead
      rw [← hback.row_eq] at hrest
      exact of_seek hpasses hseek hprior (List.prefix_refl _) hhead hrest

/-- A chain holds what its parts hold. -/
theorem of_closeRows {seek : RowFinder ChainMark} {cuts : List (RowCut ChainMark)}
    {pending : Bool} {connector : Option Connector} {part : List Lexeme}
    {parts : List (List Token)} (hpasses : seek.Passes) (hatomic : Atomic row)
    (hcuts : Cuts seek depth before row head cuts)
    (hpart : part = [] ∨ lastOf none part = before)
    (hparts : List.Forall₂ (fun closed tokens => Holds closed.2 tokens)
      (closeRows pending connector (part ++ head) cuts) parts) :
    Holds (part ++ row) parts.flatten := by
  induction hcuts generalizing pending connector part parts with
  | nil =>
      rw [closeRows] at hparts
      cases hparts with
      | cons hlast hnil =>
          cases hnil
          simpa using hlast.of_trimmed
  | @pass depth before lexeme row head cuts _ _ ih =>
      obtain ⟨hatom, hrow⟩ := atomic_cons.mp hatomic
      have hrest := @ih pending connector (part ++ [lexeme]) parts hrow (.inr (lastOf_concat hatom))
        (by simpa using hparts)
      simpa using hrest
  | @mark depth before c text label row back body cuts _ hrow hseek hcuts ih =>
      subst hrow
      have hback : Atomic back := (atomic_append.mp (atomic_cons.mp hatomic).2).2
      have hlast : lastOf none (part ++ marks (c :: text)) = lastOf before (marks (c :: text)) := by
        obtain ⟨front, d, htext⟩ := List.eq_nil_or_concat' (c :: text) |>.resolve_left (by simp)
        rw [lastOf_append, lastOf_eq, lastOf_eq before, textOf_marks, htext, List.getLast?_concat]
        rfl
      have hgo : ∀ pending connector, List.Forall₂ (fun closed tokens => Holds closed.2 tokens)
          (closeRows pending connector (part ++ [] ++ (marks (c :: text) ++ body)) cuts) parts →
          Holds (part ++ (mark c :: (marks text ++ back))) parts.flatten := by
        intro pending connector hparts
        have hrest := @ih pending connector (part ++ marks (c :: text)) parts hback (.inr hlast)
          (by simpa using hparts)
        simpa [marks] using hrest
      rw [closeRows] at hparts
      cases label with
      | between => exact hgo true connector hparts
      | connector next =>
          simp only at hparts
          split at hparts
          · exact hgo false connector hparts
          · cases hparts with
            | @cons _ first _ others hfirst hothers =>
                rw [List.append_nil] at hfirst
                have hrest := @ih false (some next) [] others hback (.inl rfl) hothers
                exact of_seek hpasses hseek hpart (List.prefix_refl _) hfirst.of_trimmed hrest

end Lexeme.Holds

end SelectForm

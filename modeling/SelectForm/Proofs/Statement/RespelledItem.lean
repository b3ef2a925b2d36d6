import Mathlib
import SelectForm.Statement.Lists
import SelectForm.Statement.Table
import SelectForm.Proofs.Text.Respelled

/-!
# Items of respelled texts

A text that is respelled is taken apart at the same places: the parts of a column, of a call,
of a table and of a comparison are the parts of the other text, each respelled in turn.
-/

namespace SelectForm

namespace Text

/-! ## Items as chains of steps -/

/-- What is behind a given character at the front of a text. -/
def behind? (c : Char) : Text → Option Text
  | [] => none
  | d :: rest => if d = c then some rest else none

/-- A name and the column behind it and a dot, if there is one. -/
def qualified? (name rest : Text) : Option (Option Text × Text) :=
  if rest = [] then some (none, name)
  else (behind? '.' (trimStart rest)).bind fun behind =>
    if trimStart behind = ['*'] ∨ isName (trimStart behind) = true then
      some (some name, trimStart behind)
    else none

theorem qualified?_of_ne_nil {rest : Text} (name : Text) (hne : rest ≠ []) :
    qualified? name rest =
      match trimStart rest with
      | '.' :: rest =>
        let column := trimStart rest
        if column == ['*'] || isName column then some (some name, column) else none
      | _ => none := by
  rw [qualified?, if_neg hne]
  split
  · rename_i behind hback
    rw [hback]
    simp [behind?]
  · rename_i hno
    cases hback : trimStart rest with
    | nil => rfl
    | cons c back =>
        have hc : c ≠ '.' := by
          rintro rfl
          exact hno back hback
        simp [behind?, hc]

theorem columnName?_eq (text : Text) :
    columnName? text =
      if trim text = ['*'] then some (none, ['*'])
      else (takeName? (trim text)).bind fun found => qualified? found.1 found.2 := by
  unfold columnName?
  split
  · rename_i hstar
    rw [if_pos hstar]
  · rename_i hstar
    rw [if_neg hstar]
    split
    · rename_i hname
      rw [hname]
      rfl
    · rename_i table rest hrest hname
      rw [hname, Option.bind_some]
      exact (qualified?_of_ne_nil table hrest).symm
    · rename_i hname
      rw [hname]
      rfl

/-- What is behind a word at the front of a text, in any case. -/
def behindFolded? : Text → Text → Option Text
  | [], text => some text
  | _ :: _, [] => none
  | c :: word, d :: text => if foldUpper d = c then behindFolded? word text else none

theorem behindFolded?_eq (word text : Text) :
    behindFolded? word text =
      if foldsTo word (text.take word.length) then some (text.drop word.length) else none := by
  induction word generalizing text with
  | nil => rfl
  | cons c word ih =>
      cases text with
      | nil => rfl
      | cons d text =>
          rw [behindFolded?, ih]
          by_cases hd : foldUpper d = c <;> simp [foldsTo, hd]

/-- The argument of a call, and whether `DISTINCT` stands in front of it. -/
def argument (inner : Text) : Bool × Text :=
  match behindFolded? "DISTINCT".toList inner with
  | some behind => if behind.head?.any isBlank then (true, trim behind) else (false, trimEnd inner)
  | none => (false, trimEnd inner)

theorem call?_eq (text : Text) :
    call? text =
      (takeRun? isFoldedHead (fun c => isParameterChar (foldUpper c)) text).bind fun found =>
        (behind? '(' (trimStart found.2)).bind fun behind =>
          (behind? ')' behind.reverse).map fun inside =>
            (found.1, argument (trimStart inside.reverse)) := by
  have hargument : ∀ name inner : Text,
      (if foldsTo "DISTINCT".toList (inner.take 8) && (inner.drop 8).head?.any isBlank then
          some (name, true, trim (inner.drop 8))
        else some (name, false, trimEnd inner)) = some (name, argument inner) := by
    intro name inner
    rw [argument, behindFolded?_eq, show "DISTINCT".toList.length = 8 from rfl]
    cases foldsTo "DISTINCT".toList (inner.take 8) with
    | false => rfl
    | true =>
        simp only [Bool.true_and, if_true]
        split <;> rfl
  unfold call?
  split
  · rename_i hname
    rw [hname]
    rfl
  · rename_i name rest hname
    rw [hname, Option.bind_some]
    split
    · rename_i behind hopen
      rw [hopen, show behind? '(' ('(' :: behind) = some behind from rfl, Option.bind_some]
      cases behind using List.reverseRecOn with
      | nil => rfl
      | append_singleton inside c =>
          rw [List.getLast?_concat, List.reverse_append, List.reverse_singleton,
            List.singleton_append, behind?, List.dropLast_concat]
          by_cases hc : c = ')'
          · rw [if_pos (congrArg some hc), if_pos hc, Option.map_some, List.reverse_reverse]
            exact hargument name (trimStart inside)
          · rw [if_neg (by simpa using hc), if_neg hc]
            rfl
    · rename_i hno
      cases hback : trimStart rest with
      | nil => rfl
      | cons c back =>
          have hc : c ≠ '(' := by
            rintro rfl
            exact hno back hback
          simp [behind?, hc]

/-- What may follow a name without a dot, or the second name behind a dot. -/
theorem takeTableName?_eq (text : Text) :
    takeTableName? text = (takeRun? isFoldedHead isFoldedTail text).bind fun found =>
      match behind? '.' found.2 with
      | some behind => (takeRun? isFoldedHead isFoldedTail behind).map fun next =>
          (found.1 ++ '.' :: next.1, next.2)
      | none => some found := by
  unfold takeTableName?
  split
  · rename_i schema rest hschema
    rw [hschema, Option.bind_some, show behind? '.' ('.' :: rest) = some rest from rfl]
    dsimp only
    split
    · rename_i htable
      rw [htable]
      rfl
    · rename_i htable
      rw [htable]
      rfl
  · rename_i hno
    cases hfound : takeRun? isFoldedHead isFoldedTail text with
    | none => rfl
    | some found =>
        obtain ⟨name, rest⟩ := found
        cases rest with
        | nil => rfl
        | cons c rest =>
            have hc : c ≠ '.' := by
              rintro rfl
              exact hno name rest hfound
            simp [behind?, hc]

theorem tableReference?_eq (text : Text) :
    tableReference? text = (takeTableName? text).bind fun found =>
      if found.2 = [] then some (found.1, none)
      else if found.2.head?.any isBlank then
        (tableAlias? (trimStart found.2)).map fun aliasName => (found.1, some aliasName)
      else none := by
  unfold tableReference?
  split
  · rename_i hname
    rw [hname]
    rfl
  · rename_i hname
    rw [hname]
    rfl
  · rename_i name c rest hname
    rw [hname, Option.bind_some, if_neg (List.cons_ne_nil c rest)]
    cases hblank : isBlank c with
    | true => simp [trimStart, hblank]
    | false => simp [hblank]

theorem takeQualified?_eq (text : Text) :
    takeQualified? text = (takeName? text).bind fun found =>
      match behind? '.' found.2 with
      | some behind => (takeName? behind).map fun next => ((some found.1, next.1), next.2)
      | none => some ((none, found.1), found.2) := by
  unfold takeQualified?
  split
  · rename_i table rest htable
    rw [htable]
    rfl
  · rename_i name rest hno hname
    rw [hname, Option.bind_some]
    cases rest with
    | nil => rfl
    | cons c rest =>
        have hc : c ≠ '.' := by
          rintro rfl
          exact hno rest rfl
        simp [behind?, hc]
  · rename_i hname
    rw [hname]
    rfl

/-- What is behind a symbol at the front of a text. -/
def behindSymbol? : Text → Text → Option Text
  | [], text => some text
  | c :: symbol, text => (behind? c text).bind (behindSymbol? symbol)

/-- The symbols of comparisons, a longer one before one that it begins with. -/
def comparisonSymbols : List (Text × Operator) :=
  [(['<', '>'], .notEqual), (['!', '='], .notEqual), (['<', '='], .lessOrEqual),
    (['>', '='], .greaterOrEqual), (['='], .equal), (['<'], .less), (['>'], .greater)]

theorem takeComparison?_eq (text : Text) :
    takeComparison? text = comparisonSymbols.findSome? fun entry =>
      (behindSymbol? entry.1 text).map fun rest => (entry.2, rest) := by
  simp only [comparisonSymbols, List.findSome?_cons, List.findSome?_nil]
  unfold takeComparison?
  split
  · rfl
  · rfl
  · rfl
  · rfl
  · rfl
  · rename_i rest hnotEqual hlessOrEqual
    cases rest with
    | nil => rfl
    | cons c rest =>
        have hc : c ≠ '>' := fun heq => hnotEqual rest (heq ▸ rfl)
        have hc' : c ≠ '=' := fun heq => hlessOrEqual rest (heq ▸ rfl)
        simp [behindSymbol?, behind?, hc, hc']
  · rename_i rest hgreaterOrEqual
    cases rest with
    | nil => rfl
    | cons c rest =>
        have hc : c ≠ '=' := fun heq => hgreaterOrEqual rest (heq ▸ rfl)
        simp [behindSymbol?, behind?, hc]
  · rename_i hbang _ _ hequal hless hgreater
    cases text with
    | nil => rfl
    | cons c rest =>
        have hc : c ≠ '<' := fun heq => hless rest (heq ▸ rfl)
        have hc' : c ≠ '>' := fun heq => hgreater rest (heq ▸ rfl)
        have hc'' : c ≠ '=' := fun heq => hequal rest (heq ▸ rfl)
        by_cases hexclamation : c = '!'
        · subst hexclamation
          cases rest with
          | nil => rfl
          | cons d rest =>
              have hd : d ≠ '=' := fun heq => hbang rest (heq ▸ rfl)
              simp [behindSymbol?, behind?, hd]
        · simp [behindSymbol?, behind?, hc, hc', hc'', hexclamation]

end Text

namespace Text.Respelled

open Lexeme

variable {recase : Char → Char} {stretch : Prop} {text text' : Text}

/-- What is behind the same mark at the front of two respelled texts. -/
theorem behind? {c : Char} (hrecase : KeepsLetters recase) (hletter : c.isAlpha = false)
    (hblank : isAsciiBlank c = false) (htext : Respelled recase stretch text text') :
    Option.Rel (Respelled recase stretch) (behind? c text) (Text.behind? c text') := by
  have hne : ∀ d, isAsciiBlank d = true → d ≠ c := by
    rintro d hd rfl
    rw [hblank] at hd
    exact absurd hd (by decide)
  rcases htext.cases with ⟨rfl, rfl⟩ | ⟨d, rest, rest', rfl, rfl, hrest⟩ |
    ⟨d, e, rest, rest', rfl, rfl, hd, he⟩
  · exact .none
  · rw [Text.behind?, Text.behind?]
    simp only [hrecase.eq_iff hletter]
    split
    · exact .some hrest
    · exact .none
  · rw [Text.behind?, Text.behind?, if_neg (hne d hd), if_neg (hne e he)]
    exact .none

theorem head?_eq_iff {c : Char} (hrecase : KeepsLetters recase) (hletter : c.isAlpha = false)
    (hblank : isAsciiBlank c = false) (htext : Respelled recase stretch text text') :
    text.head? = some c ↔ text'.head? = some c := by
  have hne : ∀ d, isAsciiBlank d = true → some d ≠ some c := by
    rintro d hd heq
    rw [Option.some.inj heq, hblank] at hd
    exact absurd hd (by decide)
  rcases htext.cases with ⟨rfl, rfl⟩ | ⟨d, rest, rest', rfl, rfl, -⟩ |
    ⟨d, e, rest, rest', rfl, rfl, hd, he⟩
  · rfl
  · rw [List.head?_cons, List.head?_cons, Option.some_inj, Option.some_inj, hrecase.eq_iff hletter]
  · exact iff_of_false (hne d hd) (hne e he)

theorem takeName? (hrecase : KeepsLetters recase) (htext : Respelled recase stretch text text') :
    Option.Rel (fun found found' => found'.1 = found.1.map recase ∧
        Respelled recase stretch found.2 found'.2)
      (takeName? text) (Text.takeName? text') :=
  htext.takeRun? hrecase isNameHead_caseless isNameTail_caseless isNameHead_rejectsGaps
    isNameTail_rejectsGaps

/-! ## Columns -/

theorem star_iff (hrecase : KeepsLetters recase) (htext : Respelled recase stretch text text') :
    text = ['*'] ↔ text' = ['*'] :=
  htext.eq_iff hrecase (List.forall_mem_singleton.mpr (by decide))

theorem qualified? {name rest rest' : Text} (hrecase : KeepsLetters recase)
    (hrest : Respelled recase stretch rest rest') :
    Option.Rel (fun found found' => found' = (found.1.map (List.map recase), found.2.map recase))
      (qualified? name rest) (Text.qualified? (name.map recase) rest') := by
  rw [Text.qualified?, Text.qualified?]
  by_cases hnil : rest = []
  · rw [if_pos hnil, if_pos (hrest.eq_nil_iff.mp hnil)]
    exact .some rfl
  · rw [if_neg hnil, if_neg (mt hrest.eq_nil_iff.mpr hnil)]
    have hback := (hrest.trimStart hrecase).behind? (c := '.') hrecase (by decide) (by decide)
    refine rel_bind hback fun behind behind' hbehind => ?_
    have hcolumn := hbehind.trimStart hrecase
    generalize Text.trimStart behind = column at hcolumn
    generalize Text.trimStart behind' = column' at hcolumn
    have hvalid : (column = ['*'] ∨ isName column = true) ↔
        (column' = ['*'] ∨ isName column' = true) := by
      rw [hcolumn.star_iff hrecase, hcolumn.isName_eq hrecase]
    by_cases hname : column = ['*'] ∨ isName column = true
    · rw [if_pos hname, if_pos (hvalid.mp hname)]
      refine .some ?_
      rw [hcolumn.eq_map]
      · rfl
      · rcases hname with rfl | hname
        · exact List.forall_mem_singleton.mpr (by decide)
        · exact isAsciiBlank_of_isName hname
    · rw [if_neg hname, if_neg (mt hvalid.mpr hname)]
      exact .none

theorem columnName? (hrecase : KeepsLetters recase) (htext : Respelled recase stretch text text') :
    Option.Rel (fun found found' => found' = (found.1.map (List.map recase), found.2.map recase))
      (columnName? text) (Text.columnName? text') := by
  have htrim := htext.trim hrecase
  rw [columnName?_eq, columnName?_eq]
  by_cases hstar : Text.trim text = ['*']
  · rw [if_pos hstar, if_pos ((htrim.star_iff hrecase).mp hstar)]
    exact .some (by simp [hrecase.eq_of_not_isAlpha (show '*'.isAlpha = false by decide)])
  · rw [if_neg hstar, if_neg (mt (htrim.star_iff hrecase).mpr hstar)]
    refine rel_bind (htrim.takeName? hrecase) fun found found' hfound => ?_
    rw [hfound.1]
    exact hfound.2.qualified? hrecase

/-! ## Calls -/

theorem behindFolded? {word : Text} (hrecase : KeepsLetters recase)
    (hword : ∀ c ∈ word, c.isUpper = true) (htext : Respelled recase stretch text text') :
    Option.Rel (Respelled recase stretch) (behindFolded? word text)
      (Text.behindFolded? word text') := by
  induction word generalizing text text' with
  | nil => exact .some htext
  | cons c word ih =>
      obtain ⟨hc, hword⟩ := List.forall_mem_cons.mp hword
      have hne : ∀ d, isAsciiBlank d = true → foldUpper d ≠ c := by
        rintro d hd rfl
        have hfold : isFoldedTail d = true := by
          simp [isFoldedTail, isNameTail, Char.isAlphanum, Char.isAlpha, hc]
        rw [isFoldedTail_rejectsGaps d hd] at hfold
        exact absurd hfold (by decide)
      rcases htext.cases with ⟨rfl, rfl⟩ | ⟨d, rest, rest', rfl, rfl, hrest⟩ |
        ⟨d, e, rest, rest', rfl, rfl, hd, he⟩
      · exact .none
      · rw [Text.behindFolded?, Text.behindFolded?, foldUpper_congr (hrecase d)]
        split
        · exact ih hword hrest
        · exact .none
      · rw [Text.behindFolded?, Text.behindFolded?, if_neg (hne d hd), if_neg (hne e he)]
        exact .none

theorem argument (hrecase : KeepsLetters recase) (htext : Respelled recase stretch text text') :
    (Text.argument text').1 = (argument text).1 ∧
      Respelled recase stretch (argument text).2 (Text.argument text').2 := by
  have hword := Holds.isUpper_of_mem_reservedWords (show "DISTINCT" ∈ Identifier.reservedWords by decide)
  have hbehind := htext.behindFolded? hrecase hword
  have hend := htext.trimEnd hrecase
  unfold Text.argument
  generalize Text.behindFolded? "DISTINCT".toList text = found at hbehind
  generalize Text.behindFolded? "DISTINCT".toList text' = found' at hbehind
  cases hbehind with
  | none => exact ⟨rfl, hend⟩
  | @some behind behind' hbehind =>
      have hblank := hbehind.head?_any hrecase isBlank_caseless fun _ => isBlank_of_isAsciiBlank
      dsimp only
      rw [hblank]
      split
      · exact ⟨rfl, hbehind.trim hrecase⟩
      · exact ⟨rfl, hend⟩

theorem call? (hrecase : KeepsLetters recase) (htext : Respelled recase stretch text text') :
    Option.Rel (fun found found' => found'.1 = found.1.map recase ∧ found'.2.1 = found.2.1 ∧
        Respelled recase stretch found.2.2 found'.2.2)
      (call? text) (Text.call? text') := by
  have hname := htext.takeRun? hrecase (foldUpper_caseless isNameHead)
    (foldUpper_caseless isParameterChar) isFoldedHead_rejectsGaps fun c hblank => by
      by_contra hc
      have htail := isNameTail_of_isParameterChar (Bool.of_not_eq_false hc)
      rw [show isNameTail (foldUpper c) = false from isFoldedTail_rejectsGaps c hblank] at htail
      exact absurd htail (by decide)
  rw [call?_eq, call?_eq]
  refine rel_bind hname fun found found' hfound => ?_
  have hopen := (hfound.2.trimStart hrecase).behind? (c := '(') hrecase (by decide) (by decide)
  refine rel_bind hopen fun behind behind' hbehind => ?_
  have hclose := hbehind.reverse.behind? (c := ')') hrecase (by decide) (by decide)
  refine rel_map hclose fun inside inside' hinside => ?_
  have hargument := (hinside.reverse.trimStart hrecase).argument hrecase
  exact ⟨hfound.1, hargument.1, hargument.2⟩

/-! ## Aliases and directions -/

theorem getLast?_any {test : Char → Bool} {answer : Bool} (hrecase : KeepsLetters recase)
    (htest : Caseless test) (hblank : ∀ c, isAsciiBlank c = true → test c = answer)
    (htext : Respelled recase stretch text text') :
    text.getLast?.any test = text'.getLast?.any test := by
  rw [← List.head?_reverse, ← List.head?_reverse]
  exact htext.reverse.head?_any hrecase htest hblank

/-- Two ways to take the alias off respelled items. -/
def SameAlias (recase : Char → Char) (stretch : Prop) (split split' : Text × Option Text) : Prop :=
  Respelled recase stretch split.1 split'.1 ∧ split'.2 = split.2.map (List.map recase)

theorem bareAlias {front front' word : Text} (hrecase : KeepsLetters recase)
    (htext : Respelled recase stretch text text') (hfront : Respelled recase stretch front front') :
    SameAlias recase stretch (splitAlias.bare text front word)
      (splitAlias.bare text' front' (word.map recase)) := by
  have htest : Caseless fun c => isNameTail c || c == ')' || c == '*' :=
    .of_letters true fun c hc => by simp [isNameTail, Char.isAlphanum, hc]
  have hblank : RejectsGaps fun c => isNameTail c || c == ')' || c == '*' := by
    intro c hc
    simp only [isAsciiBlank, Bool.or_eq_true, beq_iff_eq] at hc
    rcases hc with (((h | h) | h) | h) | h <;> subst h <;> decide
  have hends := hfront.getLast?_any hrecase htest hblank
  have hname := (@Respelled.map recase stretch word).isName_eq hrecase
  unfold splitAlias.bare
  dsimp only
  rw [hends, hname]
  split
  · exact ⟨hfront, rfl⟩
  · exact ⟨htext.trim hrecase, rfl⟩

theorem splitAlias (hrecase : KeepsLetters recase) (htext : Respelled recase stretch text text') :
    SameAlias recase stretch (splitAlias text) (Text.splitAlias text') := by
  have htrim := htext.trim hrecase
  have hsplit := htrim.splitLastWord? hrecase
  unfold Text.splitAlias
  generalize Text.splitLastWord? (Text.trim text) = found at hsplit
  generalize Text.splitLastWord? (Text.trim text') = found' at hsplit
  cases hsplit with
  | none => exact ⟨htrim, rfl⟩
  | @some found found' hfound =>
      obtain ⟨front, word⟩ := found
      obtain ⟨front', word'⟩ := found'
      obtain ⟨hfront, rfl⟩ := hfound
      have hbare : SameAlias recase stretch (Text.splitAlias.bare text front word)
          (Text.splitAlias.bare text' front' (word.map recase)) :=
        bareAlias hrecase htext hfront
      have hfirst := hfront.splitLastWord? hrecase
      dsimp only at hfirst ⊢
      generalize Text.splitLastWord? front = found at hfirst
      generalize Text.splitLastWord? front' = found' at hfirst
      cases hfirst with
      | none => exact hbare
      | @some found found' hfound =>
          obtain ⟨expression, as⟩ := found
          obtain ⟨expression', as'⟩ := found'
          obtain ⟨hexpression, rfl⟩ := hfound
          dsimp only at hexpression ⊢
          rw [(@Respelled.map recase stretch as).reserved_foldsTo_eq hrecase
              (show "AS" ∈ Identifier.reservedWords by decide),
            (@Respelled.map recase stretch word).isFoldedName_eq hrecase]
          split
          · exact ⟨hexpression, rfl⟩
          · exact hbare

theorem splitDirection (hrecase : KeepsLetters recase)
    (htext : Respelled recase stretch text text') :
    Respelled recase stretch (splitDirection text).1 (Text.splitDirection text').1 ∧
      (Text.splitDirection text').2 = (Text.splitDirection text).2 := by
  have htrim := htext.trim hrecase
  have hsplit := htrim.splitLastWord? hrecase
  unfold Text.splitDirection
  generalize Text.splitLastWord? (Text.trim text) = found at hsplit
  generalize Text.splitLastWord? (Text.trim text') = found' at hsplit
  cases hsplit with
  | none => exact ⟨htrim, rfl⟩
  | @some found found' hfound =>
      obtain ⟨front, word⟩ := found
      obtain ⟨front', word'⟩ := found'
      obtain ⟨hfront, rfl⟩ := hfound
      have hword := @Respelled.map recase stretch word
      dsimp only
      rw [hword.reserved_foldsTo_eq hrecase (show "ASC" ∈ Identifier.reservedWords by decide),
        hword.reserved_foldsTo_eq hrecase (show "DESC" ∈ Identifier.reservedWords by decide),
        hword.reserved_sameLetters_eq hrecase (show "DESC" ∈ Identifier.reservedWords by decide)]
      split
      · exact ⟨hfront, rfl⟩
      · exact ⟨htrim, rfl⟩

/-! ## Tables -/

theorem takeFoldedName? (hrecase : KeepsLetters recase)
    (htext : Respelled recase stretch text text') :
    Option.Rel (fun found found' => found'.1 = found.1.map recase ∧
        Respelled recase stretch found.2 found'.2)
      (Text.takeRun? isFoldedHead isFoldedTail text)
      (Text.takeRun? isFoldedHead isFoldedTail text') :=
  htext.takeRun? hrecase (foldUpper_caseless isNameHead) (foldUpper_caseless isNameTail)
    isFoldedHead_rejectsGaps isFoldedTail_rejectsGaps

theorem takeTableName? (hrecase : KeepsLetters recase)
    (htext : Respelled recase stretch text text') :
    Option.Rel (fun found found' => found'.1 = found.1.map recase ∧
        Respelled recase stretch found.2 found'.2)
      (takeTableName? text) (Text.takeTableName? text') := by
  have hkeep : recase '.' = '.' := hrecase.eq_of_not_isAlpha (by decide)
  rw [takeTableName?_eq, takeTableName?_eq]
  refine rel_bind (htext.takeFoldedName? hrecase) fun found found' hfound => ?_
  have hdot := hfound.2.behind? (c := '.') hrecase (by decide) (by decide)
  generalize Text.behind? '.' found.2 = behind at hdot
  generalize Text.behind? '.' found'.2 = behind' at hdot
  cases hdot with
  | none => exact .some hfound
  | some hbehind =>
      refine rel_map (hbehind.takeFoldedName? hrecase) fun next next' hnext => ⟨?_, hnext.2⟩
      rw [hfound.1, hnext.1, List.map_append, List.map_cons, hkeep]

theorem tableAlias? (hrecase : KeepsLetters recase) (htext : Respelled recase stretch text text') :
    Option.Rel (fun word word' => word' = word.map recase) (tableAlias? text)
      (Text.tableAlias? text') := by
  have hsplit := htext.splitLastWord? hrecase
  unfold Text.tableAlias?
  rw [htext.isFoldedName_eq hrecase]
  split
  · rename_i hrun
    exact .some (htext.eq_map (isAsciiBlank_of_isRun isFoldedHead_rejectsGaps
      isFoldedTail_rejectsGaps hrun))
  · generalize Text.splitLastWord? text = found at hsplit
    generalize Text.splitLastWord? text' = found' at hsplit
    cases hsplit with
    | none => exact .none
    | @some found found' hfound =>
        obtain ⟨as, word⟩ := found
        obtain ⟨as', word'⟩ := found'
        obtain ⟨has, rfl⟩ := hfound
        dsimp only at has ⊢
        rw [has.reserved_foldsTo_eq hrecase (show "AS" ∈ Identifier.reservedWords by decide),
          (@Respelled.map recase stretch word).isFoldedName_eq hrecase]
        split
        · exact .some rfl
        · exact .none

theorem tableReference? (hrecase : KeepsLetters recase)
    (htext : Respelled recase stretch text text') :
    Option.Rel (fun found found' => found' = (found.1.map recase, found.2.map (List.map recase)))
      (tableReference? text) (Text.tableReference? text') := by
  rw [tableReference?_eq, tableReference?_eq]
  refine rel_bind (htext.takeTableName? hrecase) fun found found' hfound => ?_
  obtain ⟨name, rest⟩ := found
  obtain ⟨name', rest'⟩ := found'
  obtain ⟨rfl, hrest⟩ := hfound
  dsimp only at hrest ⊢
  by_cases hnil : rest = []
  · rw [if_pos hnil, if_pos (hrest.eq_nil_iff.mp hnil)]
    exact .some rfl
  · rw [if_neg hnil, if_neg (mt hrest.eq_nil_iff.mpr hnil),
      hrest.head?_any hrecase isBlank_caseless fun _ => isBlank_of_isAsciiBlank]
    split
    · refine rel_map ((hrest.trimStart hrecase).tableAlias? hrecase) fun word word' hword => ?_
      rw [hword]
      rfl
    · exact .none

/-! ## Comparisons -/

theorem takeQualified? (hrecase : KeepsLetters recase)
    (htext : Respelled recase stretch text text') :
    Option.Rel (fun found found' =>
        found'.1 = (found.1.1.map (List.map recase), found.1.2.map recase) ∧
          Respelled recase stretch found.2 found'.2)
      (takeQualified? text) (Text.takeQualified? text') := by
  rw [takeQualified?_eq, takeQualified?_eq]
  refine rel_bind (htext.takeName? hrecase) fun found found' hfound => ?_
  have hdot := hfound.2.behind? (c := '.') hrecase (by decide) (by decide)
  generalize Text.behind? '.' found.2 = behind at hdot
  generalize Text.behind? '.' found'.2 = behind' at hdot
  cases hdot with
  | none => exact .some ⟨by rw [hfound.1]; rfl, hfound.2⟩
  | some hbehind =>
      refine rel_map (hbehind.takeName? hrecase) fun next next' hnext => ⟨?_, hnext.2⟩
      rw [hfound.1, hnext.1]
      rfl

theorem behindSymbol? {symbol : Text} (hrecase : KeepsLetters recase)
    (hsymbol : ∀ c ∈ symbol, c.isAlpha = false ∧ isAsciiBlank c = false)
    (htext : Respelled recase stretch text text') :
    Option.Rel (Respelled recase stretch) (behindSymbol? symbol text)
      (Text.behindSymbol? symbol text') := by
  induction symbol generalizing text text' with
  | nil => exact .some htext
  | cons c symbol ih =>
      obtain ⟨hc, hsymbol⟩ := List.forall_mem_cons.mp hsymbol
      exact rel_bind (htext.behind? hrecase hc.1 hc.2) fun _ _ hbehind => ih hsymbol hbehind

theorem takeComparison? (hrecase : KeepsLetters recase)
    (htext : Respelled recase stretch text text') :
    Option.Rel (fun found found' => found'.1 = found.1 ∧ Respelled recase stretch found.2 found'.2)
      (takeComparison? text) (Text.takeComparison? text') := by
  have hall : comparisonSymbols.all (fun entry =>
      entry.1.all fun c => !c.isAlpha && !isAsciiBlank c) = true := rfl
  have hsymbols : ∀ entry ∈ comparisonSymbols,
      ∀ c ∈ entry.1, c.isAlpha = false ∧ isAsciiBlank c = false := by
    simpa only [List.all_eq_true, Bool.and_eq_true, Bool.not_eq_true'] using hall
  rw [takeComparison?_eq, takeComparison?_eq]
  clear hall
  generalize comparisonSymbols = symbols at hsymbols
  induction symbols with
  | nil => exact .none
  | cons entry symbols ih =>
      obtain ⟨hentry, hsymbols⟩ := List.forall_mem_cons.mp hsymbols
      have hbehind := htext.behindSymbol? hrecase hentry
      rw [List.findSome?_cons, List.findSome?_cons]
      generalize Text.behindSymbol? entry.1 text = found at hbehind
      generalize Text.behindSymbol? entry.1 text' = found' at hbehind
      cases hbehind with
      | none => exact ih hsymbols
      | some hrest => exact .some ⟨rfl, hrest⟩

/-- The columns of a comparison, each of them respelled. -/
theorem comparison? (hrecase : KeepsLetters recase) (htext : Respelled recase stretch text text') :
    Option.Rel (fun found found' => found' =
        ((found.1.1.map (List.map recase), found.1.2.map recase), found.2.1,
          (found.2.2.1.map (List.map recase), found.2.2.2.map recase)))
      (comparison? text) (Text.comparison? text') := by
  unfold Text.comparison?
  refine rel_bind (htext.takeQualified? hrecase) fun left left' hleft => ?_
  refine rel_bind ((hleft.2.trimStart hrecase).takeComparison? hrecase) fun symbol symbol' hsymbol => ?_
  refine rel_bind ((hsymbol.2.trimStart hrecase).takeQualified? hrecase) fun right right' hright => ?_
  obtain ⟨right, rest⟩ := right
  obtain ⟨right', rest'⟩ := right'
  obtain ⟨rfl, hrest⟩ := hright
  dsimp only at hrest ⊢
  cases rest with
  | nil =>
      rw [hrest.eq_nil_iff.mp rfl, hleft.1, hsymbol.1]
      exact .some rfl
  | cons c rest =>
      cases rest' with
      | nil => exact absurd (hrest.eq_nil_iff.mpr rfl) (List.cons_ne_nil _ _)
      | cons d rest' => exact .none

end Text.Respelled

end SelectForm

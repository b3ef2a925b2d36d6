import Mathlib
import SelectForm.Statement.Lists
import SelectForm.Statement.Table
import SelectForm.Proofs.Statement.ReadColumn

/-!
# Reading written items

The entries of SELECT, GROUP BY, ORDER BY and FROM are read back from their texts, in
whatever spelling.  An alias or a direction is the last word of an entry; the only column
with a blank of its own is the argument of an aggregate function behind `DISTINCT`, and
the word behind that blank ends with a parenthesis.  A list is read item by item, so it
comes back as soon as its items do.
-/

namespace SelectForm

open Lexeme

/-! ## Lists -/

/-- Sources are read as some values, if each source with the key of a value is. -/
theorem mapM_of_keys {α γ κ ε : Type} {read : α → Except ε γ} {key : α → κ}
    {sources : List α} {keys : List κ} {values : List γ} (hkeys : sources.map key = keys)
    (hread : List.Forall₂ (fun k value => ∀ source, key source = k → read source = .ok value)
      keys values) :
    sources.mapM read = .ok values := by
  induction hread generalizing sources with
  | nil =>
      rw [List.map_eq_nil_iff] at hkeys
      rw [hkeys]
      rfl
  | @cons k value keys values hfirst _ ih =>
      cases sources with
      | nil => simp at hkeys
      | cons source sources =>
          rw [List.map_cons, List.cons.injEq] at hkeys
          rw [List.mapM_cons, hfirst source hkeys.1, ih hkeys.2]
          rfl

/-- Pieces are read as a value, wherever they stand. -/
def Lexeme.ReadAs {α ε : Type} (read : Fragment → Except ε α) (lexemes : List Lexeme)
    (value : α) : Prop :=
  Solid lexemes ∧ ∀ start, read ⟨textOf lexemes, start⟩ = .ok value

/-- Fragments that hold the items of a list are read as their values; none of them is
empty. -/
theorem mapM_of_texts {γ ε : Type} {read failed : Fragment → Except ε γ}
    {fragments : List Fragment} {items : List (List Lexeme)} {values : List γ}
    (htexts : fragments.map Fragment.text = items.map textOf)
    (hread : List.Forall₂ (ReadAs read) items values) :
    fragments.mapM (fun item => if item.text.isEmpty then failed item else read item) =
      .ok values := by
  refine mapM_of_keys htexts (List.forall₂_map_left_iff.mpr (hread.imp ?_))
  rintro item value ⟨hsolid, hitem⟩ ⟨text, start⟩ rfl
  have hempty : (textOf item).isEmpty = false :=
    List.isEmpty_eq_false_iff.mpr hsolid.tight.ne_nil
  simp only [hempty, Bool.false_eq_true, if_false]
  exact hitem start

/-- Values that are spelled place by place are related to their spellings. -/
theorem forall₂_mapIdx {α β γ : Type} {holds : β → γ → Prop} {items : List α}
    {spelled : Nat → α → β} {value : α → γ}
    (hholds : ∀ item ∈ items, ∀ place, holds (spelled place item) (value item)) :
    List.Forall₂ holds (items.mapIdx spelled) (items.map value) := by
  rw [List.forall₂_iff_get]
  refine ⟨by simp, fun place hplace _ => ?_⟩
  simpa using hholds _ (List.getElem_mem _) place

/-! ## The last word of a column -/

namespace ColumnTerm

theorem isBlank_word {word : Text}
    (hword : word.all (fun c => !Text.isBlank c) = true) : ∀ c ∈ word, Text.isBlank c = false := by
  simpa [List.all_eq_true] using hword

/-- The part of a written column behind its only blank, if it has one, ends with a
parenthesis. -/
theorem splitLastWord?_lexemes {clause : Clause} {term : ColumnTerm}
    (hspelled : term.IsSpelled clause) :
    Text.splitLastWord? (textOf term.lexemes) = none ∨
      ∃ front word, Text.splitLastWord? (textOf term.lexemes) = some (front, word) ∧
        Text.splitLastWord? front = none ∧ word.getLast? = some ')' := by
  have hname := isBlank_qualified hspelled.name
  cases haggregate : term.aggregate with
  | none =>
      rw [lexemes, haggregate, textOf_ofName]
      exact .inl (Text.splitLastWord?_of_forall hname)
  | some aggregate =>
      have hkeyword : ∀ c ∈ aggregate.keyword.toList ++ ['('], Text.isBlank c = false := by
        cases aggregate <;> exact isBlank_word rfl
      have hclosed : ∀ c ∈ (Operand.qualified term.table term.column).toList ++ [')'],
          Text.isBlank c = false :=
        List.forall_mem_append.mpr ⟨hname, isBlank_word (by decide)⟩
      rw [textOf_lexemes_aggregate haggregate, textOf_argumentLexemes]
      cases term.distinct with
      | false =>
          have hall := List.forall_mem_append.mpr ⟨hkeyword, hclosed⟩
          exact .inl (Text.splitLastWord?_of_forall (by simpa using hall))
      | true =>
          have hfront := List.forall_mem_append.mpr
            ⟨hkeyword, @isBlank_word "DISTINCT".toList rfl⟩
          have hsplit := Text.splitLastWord?_append (Text.tight_of_forall (by simp) hfront).last
            (by decide : Text.isBlank ' ' = true) hclosed
          exact .inr ⟨_, (Operand.qualified term.table term.column).toList ++ [')'],
            by simpa using hsplit, Text.splitLastWord?_of_forall hfront, List.getLast?_concat⟩

/-- A column ends with a character behind which an alias may stand without `AS`. -/
theorem getLast?_lexemes {clause : Clause} {term : ColumnTerm} (hspelled : term.IsSpelled clause) :
    (textOf term.lexemes).getLast?.any
      (fun c => Text.isNameTail c || c == ')' || c == '*') = true := by
  cases haggregate : term.aggregate with
  | some aggregate =>
      rw [textOf_lexemes_aggregate haggregate, ← List.cons_append, ← List.append_assoc,
        List.getLast?_concat]
      rfl
  | none =>
      have hcolumn : term.column.toList.getLast?.any
          (fun c => Text.isNameTail c || c == ')' || c == '*') = true := by
        rcases hspelled.name.column with hvalid | hstar
        · obtain ⟨hne, htail⟩ := forall_of_isValid hvalid
          rw [List.getLast?_eq_some_getLast hne, Option.any_some,
            htail _ (List.getLast_mem hne)]
          rfl
        · rw [hstar]
          rfl
      rw [lexemes, haggregate, textOf_ofName]
      cases term.table with
      | none => exact hcolumn
      | some table =>
          have hne : term.column.toList ≠ [] := fun hempty => by simp [hempty] at hcolumn
          rw [Operand.qualified, String.toList_append, List.getLast?_append_of_ne_nil _ hne]
          exact hcolumn

theorem trim_lexemes {clause : Clause} {term : ColumnTerm} (hspelled : term.IsSpelled clause) :
    Text.trim (textOf term.lexemes) = textOf term.lexemes :=
  (solid_lexemes hspelled).tight.trim_eq

end ColumnTerm

namespace Text

theorem isName_of_paren {word : Text} (hlast : word.getLast? = some ')') :
    isName word = false := by
  by_contra hname
  have hchars := forall_of_isName (by simpa using hname)
  have hparen := hchars.2 ')' (List.mem_of_getLast? hlast)
  exact absurd hparen (by decide)

/-- A word that ends with a parenthesis folds to no word of capitals. -/
theorem foldsTo_of_paren {word reserved : Text} (hlast : word.getLast? = some ')')
    (hupper : reserved.all Char.isUpper = true) : foldsTo reserved word = false := by
  by_contra hfolds
  have hmap : word.map foldUpper = reserved := by simpa [foldsTo] using hfolds
  have hmem : foldUpper ')' ∈ reserved := by
    rw [← hmap]
    exact List.mem_map_of_mem (List.mem_of_getLast? hlast)
  have hparen := List.all_eq_true.mp hupper _ hmem
  exact absurd hparen (by decide)

end Text

/-! ## Items -/

namespace SelectItem

/-- The alias behind a column, or none. -/
theorem splitAlias_spelled {item : SelectItem} (hwritten : item.IsWritten) (asWord : Bool) :
    Text.splitAlias (textOf (item.spelledLexemes asWord)) =
      (textOf item.term.lexemes, item.aliasName.map String.toList) := by
  have htrim := (solid_spelledLexemes hwritten asWord).tight.trim_eq
  have hterm := (ColumnTerm.solid_lexemes hwritten.term).tight
  rw [Text.splitAlias, htrim]
  cases halias : item.aliasName with
  | none =>
      rw [spelledLexemes, halias]
      rcases ColumnTerm.splitLastWord?_lexemes hwritten.term with
        hnone | ⟨front, word, hsplit, hfront, hlast⟩
      · rw [hnone]
        rfl
      · simp only [hsplit, hfront]
        rw [Text.splitAlias.bare, Text.isName_of_paren hlast, Bool.and_false]
        exact congrArg (·, none) hterm.trim_eq
  | some aliasName =>
      have hvalid := (hwritten.aliasName aliasName halias).1
      have hname := Identifier.isName_of_isValid hvalid
      have hrun := Text.isRun_folded hname
      have hword := (forall_isWordChar (forall_of_isValid hvalid).2).2
      cases asWord with
      | true =>
          have hinner := @Text.splitLastWord?_append (textOf item.term.lexemes) "AS".toList ' '
            hterm.last (by decide) (ColumnTerm.isBlank_word (by decide))
          have hfront := (hterm.append [' '] (@Text.tight_of_forall "AS".toList (by simp)
            (ColumnTerm.isBlank_word (by decide)))).last
          have houter := @Text.splitLastWord?_append
            (textOf item.term.lexemes ++ ([' '] ++ "AS".toList)) aliasName.toList ' ' hfront
            (by decide) hword
          have htext : textOf (item.spelledLexemes true) = textOf item.term.lexemes ++
              ([' '] ++ "AS".toList) ++ ' ' :: aliasName.toList := by
            simp [spelledLexemes, aliasLexemes, halias, Lexeme.text]
          have hfolds : Text.foldsTo "AS".toList "AS".toList = true := by decide
          rw [htext, houter]
          simp only [List.singleton_append, hinner, hfolds, hrun, Bool.and_self, if_true]
          rfl
      | false =>
          have hsplit := @Text.splitLastWord?_append (textOf item.term.lexemes)
            aliasName.toList ' ' hterm.last (by decide) hword
          have htext : textOf (item.spelledLexemes false) = textOf item.term.lexemes ++
              ' ' :: aliasName.toList := by
            simp [spelledLexemes, aliasLexemes, halias, Lexeme.text]
          have hbare : Text.splitAlias.bare (textOf (item.spelledLexemes false))
              (textOf item.term.lexemes) aliasName.toList =
                (textOf item.term.lexemes, some aliasName.toList) := by
            rw [Text.splitAlias.bare, ColumnTerm.getLast?_lexemes hwritten.term, hname]
            rfl
          rw [htext] at hbare ⊢
          simp only [hsplit]
          -- the word behind a blank of the column itself is no `AS`
          rcases ColumnTerm.splitLastWord?_lexemes hwritten.term with
            hnone | ⟨front, word, hinner, -, hlast⟩
          · rw [hnone]
            exact hbare
          · have hfolds := @Text.foldsTo_of_paren word "AS".toList hlast (by decide)
            simp only [hinner, hfolds, Bool.false_and, Bool.false_eq_true, if_false]
            exact hbare

theorem head?_spelledLexemes {item : SelectItem} {asWord : Bool}
    (hterm : item.term.IsSpelled .select) :
    (item.spelledLexemes asWord).head? = item.term.lexemes.head? := by
  have hne := (ColumnTerm.solid_lexemes hterm).ne_nil
  rw [spelledLexemes]
  split <;> simp [List.head?_append_of_ne_nil _ hne]

/-- An entry of SELECT is read back in both of its spellings. -/
theorem read_spelled {item : SelectItem} (hwritten : item.IsWritten) (asWord : Bool)
    (start : Nat) :
    read ⟨textOf (item.spelledLexemes asWord), start⟩ = .ok item.canonical := by
  have hterm := @ColumnTerm.read_written .select .select item.term _ hwritten.term
    (ColumnTerm.trim_lexemes hwritten.term) start
  rw [read, splitAlias_spelled hwritten]
  simp only [hterm]
  obtain ⟨term, aliasName⟩ := item
  cases aliasName with
  | none => rfl
  | some aliasName =>
      obtain ⟨hvalid, hbare⟩ := hwritten.aliasName aliasName rfl
      have hread : term.canonical.isBareWildcard = false := by
        rw [ColumnTerm.isBareWildcard_canonical, hbare]
      simp [bind, Except.bind, hvalid, hread, canonical]

end SelectItem

/-! ## ORDER BY and GROUP BY -/

namespace OrderItem

/-- The direction behind a column. -/
theorem splitDirection_spelled {item : OrderItem} (hterm : item.term.IsSpelled .orderBy)
    (ascWord : Bool) :
    Text.splitDirection (textOf (item.spelledLexemes ascWord)) =
      (textOf item.term.lexemes, item.direction) := by
  have htrim := (solid_spelledLexemes hterm ascWord).tight.trim_eq
  have htight := (ColumnTerm.solid_lexemes hterm).tight
  have hsplit := fun (word : String) hword => @Text.splitLastWord?_append
    (textOf item.term.lexemes) word.toList ' ' htight.last (by decide)
      (ColumnTerm.isBlank_word hword)
  rw [Text.splitDirection, htrim]
  cases hdirection : item.direction with
  | ascending =>
      cases ascWord with
      | true =>
          have htext : textOf (item.spelledLexemes true) =
              textOf item.term.lexemes ++ ' ' :: "ASC".toList := by
            simp [spelledLexemes, hdirection, Lexeme.text]
          have hfolds : Text.foldsTo "ASC".toList "ASC".toList = true := by decide
          have hsame : Text.sameLetters "DESC".toList "ASC".toList = false := by decide
          rw [htext, hsplit "ASC" (by decide)]
          simp only [hfolds, hsame, Bool.true_or, Bool.false_eq_true, if_true, if_false]
      | false =>
          have htext : textOf (item.spelledLexemes false) = textOf item.term.lexemes := by
            simp [spelledLexemes, hdirection]
          rw [htext]
          rcases ColumnTerm.splitLastWord?_lexemes hterm with
            hnone | ⟨front, word, hinner, -, hlast⟩
          · rw [hnone]
          · have hasc := @Text.foldsTo_of_paren word "ASC".toList hlast (by decide)
            have hdesc := @Text.foldsTo_of_paren word "DESC".toList hlast (by decide)
            simp only [hinner, hasc, hdesc]
            rfl
  | descending =>
      have htext : textOf (item.spelledLexemes ascWord) =
          textOf item.term.lexemes ++ ' ' :: "DESC".toList := by
        simp [spelledLexemes, hdirection, Lexeme.text]
      have hfolds : Text.foldsTo "DESC".toList "DESC".toList = true := by decide
      have hsame : Text.sameLetters "DESC".toList "DESC".toList = true := by decide
      rw [htext, hsplit "DESC" (by decide)]
      simp only [hfolds, hsame, Bool.or_true, if_true]

/-- Only SELECT holds a wildcard that stands alone. -/
theorem isBareWildcard_of_isSpelled {clause : Clause} {term : ColumnTerm}
    (hspelled : term.IsSpelled clause) (hclause : clause ≠ .select) :
    term.isBareWildcard = false := by
  rw [ColumnTerm.isBareWildcard, ColumnTerm.isWildcard]
  rcases hspelled.column with hvalid | ⟨-, ⟨hselect, -⟩ | ⟨hcount, -⟩⟩
  · simp [column_ne_star hvalid]
  · exact absurd hselect hclause
  · simp [hcount]

/-- An entry of ORDER BY is read back in its spellings. -/
theorem read_spelled {item : OrderItem} (hterm : item.term.IsSpelled .orderBy)
    (ascWord : Bool) (start : Nat) :
    read ⟨textOf (item.spelledLexemes ascWord), start⟩ = .ok item := by
  have hread := @ColumnTerm.read_written .orderBy .orderBy item.term _ hterm
    (ColumnTerm.trim_lexemes hterm) start
  have hbare := isBareWildcard_of_isSpelled hterm (by simp)
  rw [ColumnTerm.canonical_of_not_isBareWildcard hbare] at hread
  rw [read, splitDirection_spelled hterm]
  simp [hread, bind, Except.bind, hbare]

end OrderItem

namespace GroupItem

/-- A written entry of GROUP BY is read back. -/
theorem read_written {item : GroupItem} (hterm : item.term.IsSpelled .groupBy)
    (haggregate : item.aggregate = none) (start : Nat) :
    read ⟨textOf item.term.lexemes, start⟩ = .ok item := by
  have hread := @ColumnTerm.read_written .groupBy .groupBy item.term _ hterm
    (ColumnTerm.trim_lexemes hterm) start
  have hbare := OrderItem.isBareWildcard_of_isSpelled hterm (by simp)
  rw [ColumnTerm.canonical_of_not_isBareWildcard hbare] at hread
  obtain ⟨table, column, aggregate⟩ := item
  obtain rfl : aggregate = none := haggregate
  rw [read, hread]
  simp_all [bind, Except.bind, term, ColumnTerm.isBareWildcard, ColumnTerm.isWildcard]

end GroupItem

/-! ## Tables -/

namespace TableItem

/-- A written table name is taken off the front of a text. -/
theorem takeTableName?_written {name : String} {rest : Text}
    (hvalid : Identifier.isValidTable name = true) (hrest : ∀ c ∈ rest.head?, c = ' ') :
    Text.takeTableName? (name.toList ++ rest) = some (name.toList, rest) := by
  have hstop : ∀ c ∈ rest.head?, Text.isFoldedTail c = false := by
    intro c hc
    rw [hrest c hc]
    decide
  rcases Identifier.isValidTable_cases hvalid with hname | ⟨schema, table, hschema, htable, hname⟩
  · have htake := Text.takeRun?_append
      (Text.isRun_folded (Identifier.isName_of_isValid hname)) hstop
    rw [Text.takeTableName?, htake]
    cases rest with
    | nil => rfl
    | cons c rest =>
        obtain rfl := hrest c rfl
        rfl
  · have htakeSchema := @Text.takeRun?_append _ _ schema.toList ('.' :: (table.toList ++ rest))
      (Text.isRun_folded (Identifier.isName_of_isValid hschema)) fun c hc => by
        obtain rfl : '.' = c := by simpa using hc
        decide
    have htakeTable := Text.takeRun?_append
      (Text.isRun_folded (Identifier.isName_of_isValid htable)) hstop
    rw [hname, List.append_assoc, List.cons_append, Text.takeTableName?, htakeSchema]
    simp only [htakeTable]

/-- An alias is found behind a table name with or without `AS`. -/
theorem tableAlias?_spelled {aliasName : String} (hvalid : Identifier.isValid aliasName = true)
    (asWord : Bool) :
    Text.tableAlias? (textOf (aliasLexemes asWord aliasName)) = some aliasName.toList := by
  have hrun := Text.isRun_folded (Identifier.isName_of_isValid hvalid)
  cases asWord with
  | true =>
      have htext : textOf (aliasLexemes true aliasName) =
          "AS".toList ++ ' ' :: aliasName.toList := by
        simp [aliasLexemes, Lexeme.text]
      have hsplit := @Text.splitLastWord?_append "AS".toList aliasName.toList ' '
        ⟨'S', rfl, by decide⟩ (by decide) (forall_isWordChar (forall_of_isValid hvalid).2).2
      have hblank : Text.isRun Text.isFoldedHead Text.isFoldedTail
          ("AS".toList ++ ' ' :: aliasName.toList) = false := by
        have hspace : Text.isFoldedTail ' ' = false := by decide
        simp [Text.isRun, hspace]
      have hfolds : Text.foldsTo "AS".toList "AS".toList = true := by decide
      rw [htext, Text.tableAlias?, hblank, hsplit]
      simp only [hfolds, hrun, Bool.and_self, Bool.false_eq_true, if_false, if_true]
  | false =>
      have htext : textOf (aliasLexemes false aliasName) = aliasName.toList := by
        simp [aliasLexemes, Lexeme.text]
      rw [htext, Text.tableAlias?, if_pos hrun]

/-- The name and the alias of a table. -/
theorem tableReference?_spelled {table : TableItem} (hwritten : table.IsWritten)
    (asWord : Bool) :
    Text.tableReference? (textOf (table.spelledLexemes asWord)) =
      some (table.tableName.toList, table.aliasName.map String.toList) := by
  cases halias : table.aliasName with
  | none =>
      have htake := @takeTableName?_written table.tableName [] hwritten.name (by simp)
      have htext : textOf (table.spelledLexemes asWord) = table.tableName.toList ++ [] := by
        simp [spelledLexemes, halias, Lexeme.text]
      rw [htext, Text.tableReference?, htake]
      rfl
  | some aliasName =>
      have hvalid := hwritten.aliasName aliasName halias
      have htake := @takeTableName?_written table.tableName
        (' ' :: textOf (aliasLexemes asWord aliasName)) hwritten.name (by simp)
      have htext : textOf (table.spelledLexemes asWord) =
          table.tableName.toList ++ ' ' :: textOf (aliasLexemes asWord aliasName) := by
        simp [spelledLexemes, halias, Lexeme.text]
      have hstart := Text.trimStart_eq_self (solid_aliasLexemes asWord hvalid).tight.head
      have hspace : Text.isBlank ' ' = true := by decide
      rw [htext, Text.tableReference?, htake]
      simp only [hspace, if_true, hstart, tableAlias?_spelled hvalid]
      rfl

/-- A table is read back in its spellings, in any clause. -/
theorem read_spelled {clause : Clause} {table : TableItem} {asWord : Bool} {text : Text}
    (hwritten : table.IsWritten) (htext : Text.trim text = textOf (table.spelledLexemes asWord))
    (start : Nat) : read clause ⟨text, start⟩ = .ok table := by
  have hreference := tableReference?_spelled hwritten asWord
  have hhead : (textOf (table.spelledLexemes asWord)).head? ≠ some '(' := by
    intro hparen
    have hlexed := (solid_spelledLexemes hwritten asWord).clean.lexed
    have hword : (textOf (table.spelledLexemes asWord)).head?.any Text.isWordChar = true := by
      rw [spelledLexemes] at hlexed ⊢
      split at hlexed <;> exact hlexed.1.head?_textOf _
    rw [hparen] at hword
    exact absurd hword (by decide)
  rw [read]
  simp only [Fragment.trim, htext, hhead, hreference, if_false]
  obtain ⟨tableName, aliasName⟩ := table
  have hvalid := hwritten.name
  cases aliasName with
  | none => simp_all
  | some aliasName =>
      have halias := hwritten.aliasName aliasName rfl
      simp_all

end TableItem

end SelectForm

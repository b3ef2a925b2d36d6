import Mathlib
import SelectForm.Proofs.Query.Tokens
import SelectForm.Proofs.Sql.WrittenItem
import SelectForm.Proofs.Statement.ReadText

/-!
# What an item holds

Whatever a reader accepts, its text is made of the names that it read, of reserved words
and of separators.  So an item holds what was read from it and no literal, and a word that
the reader did not use would show.
-/

namespace SelectForm

namespace Text.Holds

variable {text front word : Text} {tokens others : List Token}

theorem of_trim (htrim : Text.Holds (trim text) tokens) : Text.Holds text tokens := by
  obtain ⟨front, back, htext, hfront, hback⟩ := exists_trim text
  rw [htext]
  exact (htrim.pad_right (Lexeme.Holds.isSeparator_of_blanks hback)).pad_left
    (Lexeme.Holds.isSeparator_of_blanks hfront)

theorem of_trimStart (htrim : Text.Holds (trimStart text) tokens) : Text.Holds text tokens := by
  obtain ⟨front, htext, hfront⟩ := exists_trimStart text
  rw [htext]
  exact htrim.pad_left (Lexeme.Holds.isSeparator_of_blanks hfront)

theorem of_trimEnd (htrim : Text.Holds (trimEnd text) tokens) : Text.Holds text tokens := by
  obtain ⟨back, htext, hback⟩ := exists_trimEnd text
  rw [htext]
  exact htrim.pad_right (Lexeme.Holds.isSeparator_of_blanks hback)

theorem of_splitLastWord? (hsplit : splitLastWord? text = some (front, word))
    (hfront : Text.Holds front tokens) (hword : Text.Holds word others) :
    Text.Holds text (tokens ++ others) := by
  obtain ⟨gap, htext, hne, hblank⟩ := exists_of_splitLastWord? hsplit
  rw [htext]
  exact hfront.between hne (Lexeme.Holds.isSeparator_of_blanks hblank) hword

theorem of_isValid {name : String} (hvalid : Identifier.isValid name = true) :
    Text.Holds name.toList (Token.ofName name) := by
  have hholds := of_isName (Identifier.isName_of_isValid hvalid)
  rwa [String.ofList_toList] at hholds

/-- A name behind another and a dot between them. -/
theorem dotted {first second gap gap' : Text} (hfirst : Text.Holds first tokens)
    (hgap : ∀ c ∈ gap, isBlank c = true) (hgap' : ∀ c ∈ gap', isBlank c = true)
    (hsecond : Text.Holds second others) :
    Text.Holds (first ++ (gap ++ '.' :: (gap' ++ second))) (tokens ++ others) := by
  have hseparator : ∀ c ∈ gap ++ '.' :: gap', isSeparator c = true := by
    rw [List.forall_mem_append, List.forall_mem_cons]
    exact ⟨Lexeme.Holds.isSeparator_of_blanks hgap, rfl, Lexeme.Holds.isSeparator_of_blanks hgap'⟩
  have hwhole := hfirst.between (by simp) hseparator hsecond
  rwa [List.append_assoc, List.cons_append] at hwhole

end Text.Holds

/-! ## Columns -/

namespace ColumnTerm

variable {text : Text} {term : ColumnTerm} {clause : Clause} {fragment : Fragment}

theorem holds_of_columnName? {table : Option Text} {column : Text}
    (hcolumn : Text.columnName? text = some (table, column)) :
    Text.Holds text ((table.map String.ofList).toList.flatMap Token.ofName ++
      Token.ofName (String.ofList column)) := by
  have hname : ∀ column : Text, column == ['*'] || Text.isName column →
      Text.Holds column (Token.ofName (String.ofList column)) := by
    intro column hname
    rw [Bool.or_eq_true, beq_iff_eq] at hname
    rcases hname with rfl | hname
    · exact .star
    · exact .of_isName hname
  apply Text.Holds.of_trim
  unfold Text.columnName? at hcolumn
  split at hcolumn
  · rename_i htrim
    obtain ⟨rfl, rfl⟩ := Prod.mk.inj (Option.some.inj hcolumn)
    rw [htrim]
    exact hname ['*'] rfl
  · split at hcolumn
    · rename_i name htake
      obtain ⟨rfl, rfl⟩ := Prod.mk.inj (Option.some.inj hcolumn)
      obtain ⟨htext, hrun⟩ := Text.exists_of_takeRun? htake
      rw [htext, List.append_nil]
      exact .of_isName hrun
    · rename_i name rest _ htake
      split at hcolumn
      · rename_i behind hdot
        dsimp only at hcolumn
        split at hcolumn
        · rename_i hvalid
          obtain ⟨rfl, rfl⟩ := Prod.mk.inj (Option.some.inj hcolumn)
          obtain ⟨htext, hrun⟩ := Text.exists_of_takeRun? htake
          obtain ⟨gap, hgap, hblank⟩ := Text.exists_trimStart rest
          obtain ⟨gap', hgap', hblank'⟩ := Text.exists_trimStart behind
          have hwhole := (Text.Holds.of_isName hrun).dotted hblank hblank' (hname _ hvalid)
          rw [← hgap', ← hdot, ← hgap, ← htext] at hwhole
          simpa using hwhole
        · exact absurd hcolumn (by simp)
      · exact absurd hcolumn (by simp)
    · exact absurd hcolumn (by simp)

theorem holds_of_ofName? (hname : ofName? text = some term) :
    Text.Holds text (term.table.toList.flatMap Token.ofName ++ Token.ofName term.column) := by
  rw [ofName?] at hname
  cases hcolumn : Text.columnName? text with
  | none => simp [hcolumn] at hname
  | some name =>
      obtain ⟨table, column⟩ := name
      simp only [hcolumn, Option.ite_none_right_eq_some, Option.some.injEq] at hname
      rw [← hname.2]
      exact holds_of_columnName? hcolumn

theorem holds_of_aggregate {name : Text} {aggregate : Aggregate}
    (hname : Aggregate.ofName? (String.ofList name) = some aggregate) :
    Text.Holds name [.name aggregate.keyword.toList] := by
  have hsame := List.find?_some hname
  rw [String.toList_ofList] at hsame
  apply Text.Holds.of_trim
  exact ⟨ofChar?_of_sameLetters aggregate.isAlpha_keyword hsame, .function hsame⟩

/-- A call holds the name of its function and its argument. -/
theorem holds_of_call? {name argument : Text} {distinct : Bool} {heldName held : List Token}
    (hcall : Text.call? text = some (name, distinct, argument)) (hname : Text.Holds name heldName)
    (hargument : Text.Holds argument held) : Text.Holds text (heldName ++ held) := by
  unfold Text.call? at hcall
  split at hcall
  · exact absurd hcall (by simp)
  · rename_i first rest htake
    split at hcall
    · rename_i behind hopen
      split at hcall
      · rename_i hclose
        dsimp only at hcall
        have hinside : first = name ∧ Text.Holds (Text.trimStart behind.dropLast) held := by
          split at hcall
          · rename_i hdistinct
            obtain ⟨hfirst, hrest⟩ := Prod.mk.inj (Option.some.inj hcall)
            obtain ⟨-, rfl⟩ := Prod.mk.inj hrest
            rw [Bool.and_eq_true] at hdistinct
            obtain ⟨hword, hblank⟩ := hdistinct
            refine ⟨hfirst, ?_⟩
            have hkeyword : Text.Holds ((Text.trimStart behind.dropLast).take 8) [] :=
              .folded (by decide) hword
            have hhead : ((Text.trimStart behind.dropLast).drop 8).head?.any Text.isTokenChar =
                false := by
              cases hc : ((Text.trimStart behind.dropLast).drop 8).head? with
              | none => rfl
              | some c =>
                  rw [hc] at hblank
                  exact Text.isTokenChar_of_isSeparator (Text.isSeparator_of_isBlank hblank)
            have hwhole := hkeyword.append hargument.of_trim hhead
            rwa [List.take_append_drop] at hwhole
          · obtain ⟨hfirst, hrest⟩ := Prod.mk.inj (Option.some.inj hcall)
            obtain ⟨-, rfl⟩ := Prod.mk.inj hrest
            exact ⟨hfirst, hargument.of_trimEnd⟩
        obtain ⟨rfl, hinside⟩ := hinside
        obtain ⟨htext, -⟩ := Text.exists_of_takeRun? htake
        obtain ⟨gap, hgap, hblank⟩ := Text.exists_trimStart rest
        have hlast : behind = behind.dropLast ++ [')'] :=
          (List.dropLast_append_getLast? _ hclose).symm
        have hsep : ∀ c ∈ gap ++ ['('], Text.isSeparator c = true := by
          rw [List.forall_mem_append, List.forall_mem_singleton]
          exact ⟨Lexeme.Holds.isSeparator_of_blanks hblank, rfl⟩
        have hend : ∀ c ∈ [')'], Text.isSeparator c = true := List.forall_mem_singleton.mpr rfl
        have hwhole := hname.between (by simp) hsep (hinside.of_trimStart.pad_right hend)
        rw [← hlast, List.append_assoc, List.singleton_append, ← hopen, ← hgap, ← htext] at hwhole
        exact hwhole
      · exact absurd hcall (by simp)
    · exact absurd hcall (by simp)

theorem holds_of_read (hread : read clause fragment = .ok term) :
    fragment.text.Holds term.tokens := by
  apply Text.Holds.of_trim
  rcases cases_of_read hread with
    hname | ⟨name, argument, distinct, aggregate, named, hcall, haggregate, hname, -, rfl⟩
  · rw [tokens, (isSpelled_of_ofName? hname).1]
    exact holds_of_ofName? hname
  · exact holds_of_call? hcall (holds_of_aggregate haggregate)
      (holds_of_ofName? hname : Text.Holds argument _)

end ColumnTerm

/-! ## Items -/

theorem Text.holds_of_splitAlias {text expression : Text} {aliasName : Option Text}
    {held : List Token} (hsplit : splitAlias text = (expression, aliasName))
    (hexpression : Text.Holds expression held) (hvalid : ∀ name ∈ aliasName, isName name = true) :
    Text.Holds text (held ++ (aliasName.map String.ofList).toList.flatMap Token.ofName) := by
  have hword : ∀ word, some word = aliasName →
      Text.Holds word ((aliasName.map String.ofList).toList.flatMap Token.ofName) := by
    rintro word rfl
    simpa using Text.Holds.of_isName (hvalid word rfl)
  have hbare : ∀ front word, splitLastWord? (trim text) = some (front, word) →
      splitAlias.bare text front word = (expression, aliasName) →
        Text.Holds text (held ++ (aliasName.map String.ofList).toList.flatMap Token.ofName) := by
    intro front word hlast hbare
    unfold splitAlias.bare at hbare
    dsimp only at hbare
    apply Holds.of_trim
    split at hbare
    · obtain ⟨rfl, halias⟩ := Prod.mk.inj hbare
      exact .of_splitLastWord? hlast hexpression (hword word halias)
    · obtain ⟨rfl, rfl⟩ := Prod.mk.inj hbare
      simpa using hexpression
  unfold splitAlias at hsplit
  split at hsplit
  · obtain ⟨rfl, rfl⟩ := Prod.mk.inj hsplit
    apply Holds.of_trim
    simpa using hexpression
  · rename_i front word hlast
    split at hsplit
    · rename_i before as has
      split at hsplit
      · rename_i hkeyword
        obtain ⟨rfl, halias⟩ := Prod.mk.inj hsplit
        rw [Bool.and_eq_true] at hkeyword
        have hfront := Holds.of_splitLastWord? has hexpression (.folded (by decide) hkeyword.1)
        rw [List.append_nil] at hfront
        apply Holds.of_trim
        exact .of_splitLastWord? hlast hfront (hword word halias)
      · exact hbare front word hlast hsplit
    · exact hbare front word hlast hsplit

theorem SelectItem.holds_of_read {fragment : Fragment} {item : SelectItem}
    (hread : read fragment = .ok item) : fragment.text.Holds item.tokens := by
  unfold read at hread
  generalize hsplit : Text.splitAlias fragment.text = split at hread
  obtain ⟨expression, aliasName⟩ := split
  rw [bind_eq_ok] at hread
  obtain ⟨term, hterm, hread⟩ := hread
  have hexpression := ColumnTerm.holds_of_read hterm
  cases aliasName with
  | none =>
      obtain rfl := Except.ok.inj hread
      exact Text.holds_of_splitAlias hsplit hexpression (by simp)
  | some name =>
      simp only [Option.map_some] at hread
      split at hread
      next => simp at hread
      next hvalid =>
        split at hread
        next => simp at hread
        next =>
          obtain rfl := Except.ok.inj hread
          apply Text.holds_of_splitAlias hsplit hexpression
          intro other hother
          obtain rfl : name = other := Option.some.inj hother
          have hname := Identifier.isName_of_isValid (by simpa using hvalid)
          rwa [String.toList_ofList] at hname

theorem GroupItem.holds_of_read {fragment : Fragment} {item : GroupItem}
    (hread : read fragment = .ok item) : fragment.text.Holds item.term.tokens := by
  unfold read at hread
  rw [bind_eq_ok] at hread
  obtain ⟨term, hterm, hread⟩ := hread
  split at hread
  next => simp at hread
  next haggregate =>
    split at hread
    next => simp at hread
    next =>
      obtain rfl := Except.ok.inj hread
      have hholds := ColumnTerm.holds_of_read hterm
      rw [ColumnTerm.tokens, Option.not_isSome_iff_eq_none.mp haggregate] at hholds
      exact hholds

theorem Text.holds_of_splitDirection {text expression : Text} {direction : Direction}
    {held : List Token} (hsplit : splitDirection text = (expression, direction))
    (hexpression : Text.Holds expression held) : Text.Holds text held := by
  unfold splitDirection at hsplit
  apply Holds.of_trim
  split at hsplit
  · rename_i front word hlast
    split at hsplit
    · rename_i hkeyword
      obtain ⟨rfl, -⟩ := Prod.mk.inj hsplit
      rw [Bool.or_eq_true] at hkeyword
      have hword : Text.Holds word [] := by
        rcases hkeyword with hkeyword | hkeyword
        · exact .folded (by decide) hkeyword
        · exact .folded (by decide) hkeyword
      have hholds := Holds.of_splitLastWord? hlast hexpression hword
      rwa [List.append_nil] at hholds
    · obtain ⟨rfl, -⟩ := Prod.mk.inj hsplit
      exact hexpression
  · obtain ⟨rfl, -⟩ := Prod.mk.inj hsplit
    exact hexpression

theorem OrderItem.holds_of_read {fragment : Fragment} {item : OrderItem}
    (hread : read fragment = .ok item) : fragment.text.Holds item.term.tokens := by
  unfold read at hread
  generalize hsplit : Text.splitDirection fragment.text = split at hread
  obtain ⟨expression, direction⟩ := split
  rw [bind_eq_ok] at hread
  obtain ⟨term, hterm, hread⟩ := hread
  split at hread
  next => simp at hread
  next =>
    obtain rfl := Except.ok.inj hread
    exact Text.holds_of_splitDirection hsplit (ColumnTerm.holds_of_read hterm)

/-! ## Tables -/

namespace Text

variable {text name rest : Text} {aliasName : Option Text}

theorem holds_of_isValidTable {name : String} (hvalid : Identifier.isValidTable name = true) :
    Text.Holds name.toList ((Identifier.parts name).flatMap Token.ofName) := by
  rw [Identifier.isValidTable, Bool.and_eq_true, decide_eq_true_eq, List.all_eq_true] at hvalid
  have hjoin := intercalate_splitOn '.' name.toList
  have hne := splitOn_ne_nil '.' name.toList
  rw [Identifier.parts] at hvalid ⊢
  generalize splitOn '.' name.toList = pieces at hvalid hjoin hne ⊢
  obtain ⟨hlength, hparts⟩ := hvalid
  rw [List.length_map] at hlength
  have hpiece : ∀ piece ∈ pieces, Text.Holds piece (Token.ofName (String.ofList piece)) := by
    intro piece hmem
    have hholds := Holds.of_isValid (hparts (String.ofList piece) (List.mem_map_of_mem hmem))
    rwa [String.toList_ofList] at hholds
  rcases pieces with _ | ⟨schema, _ | ⟨table, _ | ⟨_, _⟩⟩⟩
  · exact absurd rfl hne
  · rw [List.intercalate_singleton] at hjoin
    rw [← hjoin]
    simpa using hpiece schema List.mem_cons_self
  · have hschema := hpiece schema List.mem_cons_self
    have htable := hpiece table (List.mem_cons_of_mem _ List.mem_cons_self)
    have hwhole := @Holds.dotted _ _ schema table [] [] hschema (by simp) (by simp) htable
    rw [← hjoin, List.intercalate_cons_cons, List.intercalate_singleton]
    simpa using hwhole
  · simp at hlength

theorem append_of_takeTableName? (htake : takeTableName? text = some (name, rest)) :
    text = name ++ rest := by
  unfold takeTableName? at htake
  split at htake
  · rename_i schema behind hschema
    split at htake
    · rename_i table back htable
      obtain ⟨rfl, rfl⟩ := Prod.mk.inj (Option.some.inj htake)
      rw [append_of_takeRun? hschema, append_of_takeRun? htable]
      simp
    · exact absurd htake (by simp)
  · exact append_of_takeRun? htake

theorem holds_of_tableAlias? {word : Text} (halias : tableAlias? text = some word)
    (hvalid : isName word = true) : Text.Holds text (Token.ofName (String.ofList word)) := by
  unfold tableAlias? at halias
  split at halias
  · obtain rfl := Option.some.inj halias
    exact .of_isName hvalid
  · split at halias
    · rename_i as last hlast
      split at halias
      · rename_i hkeyword
        obtain rfl := Option.some.inj halias
        rw [Bool.and_eq_true] at hkeyword
        exact .of_splitLastWord? hlast (.folded (by decide) hkeyword.1) (.of_isName hvalid)
      · exact absurd halias (by simp)
    · exact absurd halias (by simp)

theorem holds_of_tableReference? {held : List Token}
    (hreference : tableReference? text = some (name, aliasName)) (hname : Text.Holds name held)
    (hvalid : ∀ word ∈ aliasName, isName word = true) :
    Text.Holds text (held ++ (aliasName.map String.ofList).toList.flatMap Token.ofName) := by
  unfold tableReference? at hreference
  split at hreference
  · exact absurd hreference (by simp)
  · rename_i first htake
    obtain ⟨rfl, rfl⟩ := Prod.mk.inj (Option.some.inj hreference)
    rw [append_of_takeTableName? htake]
    simpa using hname
  · rename_i first c rest htake
    split at hreference
    · rename_i hblank
      obtain ⟨word, halias, hpair⟩ := Option.map_eq_some_iff.mp hreference
      obtain ⟨rfl, rfl⟩ := Prod.mk.inj hpair
      have hword := (holds_of_tableAlias? halias (hvalid word rfl)).of_trimStart
      have hgap : ∀ d ∈ [c], isSeparator d = true :=
        List.forall_mem_singleton.mpr (isSeparator_of_isBlank hblank)
      rw [append_of_takeTableName? htake]
      simpa using hname.between (List.cons_ne_nil c []) hgap hword
    · exact absurd hreference (by simp)

end Text

theorem TableItem.holds_of_read {clause : Clause} {fragment : Fragment} {table : TableItem}
    (hread : read clause fragment = .ok table) : fragment.text.Holds table.tokens := by
  unfold read at hread
  dsimp only at hread
  apply Text.Holds.of_trim
  split at hread
  · exact absurd hread (by simp)
  · split at hread
    · exact absurd hread (by simp)
    · rename_i name aliasName hreference
      split at hread
      · exact absurd hread (by simp)
      · rename_i hvalid
        have hname := Text.holds_of_isValidTable (by simpa using hvalid)
        rw [String.toList_ofList] at hname
        cases aliasName with
        | none =>
            obtain rfl := Except.ok.inj hread
            exact Text.holds_of_tableReference? hreference hname (by simp)
        | some word =>
            simp only [Option.map_some] at hread
            split at hread
            · rename_i hvalid
              obtain rfl := Except.ok.inj hread
              apply Text.holds_of_tableReference? hreference hname
              intro other hother
              obtain rfl : word = other := Option.some.inj hother
              have hname := Identifier.isName_of_isValid hvalid
              rwa [String.toList_ofList] at hname
            · exact absurd hread (by simp)

/-! ## Comparisons of columns -/

/-- A condition of a join without the parentheses around it holds its four names. -/
theorem JoinCondition.holds_of_read {fragment : Fragment} {condition : JoinCondition}
    (hread : read fragment = .ok condition) : fragment.openAll.text.Holds condition.tokens := by
  have hqualified : ∀ table column : Text, Text.isName table = true → Text.isName column = true →
      Text.Holds (table ++ ('.' :: column))
        (Token.ofName (String.ofList table) ++ Token.ofName (String.ofList column)) := by
    intro table column htable hcolumn
    exact @Text.Holds.dotted _ _ table column [] [] (.of_isName htable) (by simp) (by simp)
      (.of_isName hcolumn)
  unfold read at hread
  dsimp only at hread
  split at hread
  · exact absurd hread (by simp)
  · rename_i hcomparison
    obtain rfl := Except.ok.inj hread
    obtain ⟨gap, symbol, gap', htext, hgap, hgap', hne, hsymbol, -, hleft, hright⟩ :=
      Text.exists_of_comparison? hcomparison
    have hsep : ∀ c ∈ gap ++ symbol, Text.isSeparator c = true := by
      rw [List.forall_mem_append]
      refine ⟨Lexeme.Holds.isSeparator_of_blanks hgap, fun c hc => ?_⟩
      have hall : ['<', '>', '!', '='].all Text.isSeparator = true := rfl
      exact List.all_eq_true.mp hall c (hsymbol hc)
    have hwhole := (hqualified _ _ hleft.1 hleft.2).between (by simp [hne]) hsep
      ((hqualified _ _ hright.1 hright.2).pad_left (Lexeme.Holds.isSeparator_of_blanks hgap'))
    rw [htext, tokens]
    simpa using hwhole
  · exact absurd hread (by simp)

end SelectForm

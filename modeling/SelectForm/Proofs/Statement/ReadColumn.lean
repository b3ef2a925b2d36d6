import Mathlib
import SelectForm.Statement.Column
import SelectForm.Proofs.Query.Canonical
import SelectForm.Proofs.Sql.WrittenItem

/-!
# Reading written columns

A column that passed the checks is read back from its text, wherever in the
statement the text stands.  Two things decide how the text is read: a parenthesis,
which makes it the call of a function, and a point, which makes it a qualified
name.  Neither can come from a valid name.
-/

namespace SelectForm

namespace Text

/-! ## Names -/

theorem exists_isNameHead {text : Text} (hname : isName text = true) :
    ∃ c rest, text = c :: rest ∧ isNameHead c = true := by
  cases text with
  | nil => simp [isName, isRun] at hname
  | cons c rest =>
      rw [isName, isRun, Bool.and_eq_true] at hname
      exact ⟨c, rest, rfl, hname.1⟩

theorem ne_star_of_isName {text rest : Text} (hname : isName text = true) :
    text ++ rest ≠ ['*'] := by
  obtain ⟨c, others, rfl, hc⟩ := exists_isNameHead hname
  intro hstar
  obtain ⟨rfl, -⟩ := List.cons.inj hstar
  exact absurd hc (by decide)

theorem tight_of_isName {text : Text} (hname : isName text = true) : Tight text := by
  have hchars := forall_of_isName hname
  exact tight_of_forall hchars.1 fun c hc => isBlank_of_isNameTail (hchars.2 c hc)

theorem columnName?_star : columnName? ['*'] = some (none, ['*']) := by
  have htrim : trim ['*'] = ['*'] := Tight.trim_eq ⟨⟨'*', rfl, by decide⟩, ⟨'*', rfl, by decide⟩⟩
  rw [columnName?, htrim]
  rfl

theorem columnName?_name {name : Text} (hname : isName name = true) :
    columnName? name = some (none, name) := by
  have hstar := @ne_star_of_isName name [] hname
  rw [List.append_nil] at hstar
  rw [columnName?, (tight_of_isName hname).trim_eq]
  split
  next => exact absurd rfl hstar
  next => rw [takeName?, takeRun?_eq_some hname]

/-- A name with a point and a column behind it. -/
theorem columnName?_qualified {table column : Text} (htable : isName table = true)
    (hcolumn : column = ['*'] ∨ isName column = true) :
    columnName? (table ++ '.' :: column) = some (some table, column) := by
  have htight : Tight (table ++ ('.' :: column)) := by
    have hback : Tight column := by
      rcases hcolumn with rfl | hcolumn
      · exact ⟨⟨'*', rfl, by decide⟩, ⟨'*', rfl, by decide⟩⟩
      · exact tight_of_isName hcolumn
    exact (tight_of_isName htable).append ['.'] hback
  have htake : takeName? (table ++ '.' :: column) = some (table, '.' :: column) := by
    refine takeRun?_append htable fun c hc => ?_
    obtain rfl : '.' = c := by simpa using hc
    decide
  have hpoint : trimStart ('.' :: column) = '.' :: column :=
    trimStart_eq_self ⟨'.', rfl, by decide⟩
  have hstart : trimStart column = column := by
    rcases hcolumn with rfl | hcolumn
    · exact trimStart_eq_self ⟨'*', rfl, by decide⟩
    · exact trimStart_eq_self (tight_of_isName hcolumn).head
  have hokay : (column == ['*'] || isName column) = true := by
    rw [Bool.or_eq_true, beq_iff_eq]
    exact hcolumn
  rw [columnName?, htight.trim_eq]
  split
  next hcase => exact absurd hcase (ne_star_of_isName htable)
  next =>
    rw [htake]
    simp only [hpoint, hstart, hokay, if_true]

/-! ## Calls -/

theorem call?_of_not_mem {text : Text} (hparen : '(' ∉ text) : call? text = none := by
  rw [call?]
  split
  next => rfl
  next name rest htake =>
    have htext := append_of_takeRun? htake
    have hrest : '(' ∉ trimStart rest := fun hmem =>
      hparen (htext ▸ List.mem_append_right name ((List.dropWhile_sublist _).subset hmem))
    split
    next others hcase => simp [hcase] at hrest
    next => rfl

theorem call?_call {name argument : Text}
    (hname : isRun isFoldedHead (fun c => isParameterChar (foldUpper c)) name = true)
    (hargument : Tight argument) :
    call? (name ++ '(' :: (argument ++ [')'])) =
      if foldsTo "DISTINCT".toList (argument.take 8) && (argument.drop 8).head?.any isBlank then
        some (name, true, trim (argument.drop 8))
      else
        some (name, false, argument) := by
  have htake := @takeRun?_append _ _ name ('(' :: (argument ++ [')'])) hname fun c hc => by
    obtain rfl : '(' = c := by simpa using hc
    decide
  have hparen : trimStart ('(' :: (argument ++ [')'])) = '(' :: (argument ++ [')']) :=
    trimStart_eq_self ⟨'(', rfl, by decide⟩
  have hend : trimEnd argument = argument := by
    have hback := @trimEnd_append [] argument (List.forall_mem_nil _) hargument.last
    rwa [List.append_nil] at hback
  rw [call?, htake]
  simp only [hparen]
  rw [if_pos List.getLast?_concat, List.dropLast_concat, trimStart_eq_self hargument.head, hend]

end Text

/-! ## Columns -/

namespace ColumnTerm

open Lexeme

theorem ofName?_written {table : Option String} {column : String}
    (hspelled : IsSpelledName table column) :
    ofName? (Operand.qualified table column).toList = some { table, column } := by
  have hcolumn : column.toList = ['*'] ∨ Text.isName column.toList = true := by
    rcases hspelled.column with hvalid | rfl
    · exact .inr (Identifier.isName_of_isValid hvalid)
    · exact .inl rfl
  have hokay : (column == "*" || Identifier.isValid column) = true := by
    rw [Bool.or_eq_true, beq_iff_eq]
    exact hspelled.column.symm
  cases table with
  | none =>
      have hread : Text.columnName? column.toList = some (none, column.toList) := by
        rcases hcolumn with hstar | hname
        · rw [hstar, Text.columnName?_star]
        · exact Text.columnName?_name hname
      rw [Operand.qualified, ofName?, hread]
      simp [hokay]
  | some table =>
      have htable := hspelled.table table rfl
      have hread := Text.columnName?_qualified (Identifier.isName_of_isValid htable) hcolumn
      have htext : (Operand.qualified (some table) column).toList =
          table.toList ++ '.' :: column.toList := by simp [Operand.qualified]
      rw [htext, ofName?, hread]
      simp [hokay, htable]

theorem ofName?_aggregate (aggregate : Aggregate) :
    Aggregate.ofName? (String.ofList aggregate.keyword.toList) = some aggregate := by
  cases aggregate <;> rfl

theorem not_mem_qualified {table : Option String} {column : String}
    (hspelled : IsSpelledName table column) :
    '(' ∉ (Operand.qualified table column).toList := by
  intro hmem
  have hparen : Text.isNameTail '(' = false := by decide
  have hname : ∀ name, Identifier.isValid name = true → '(' ∉ name.toList := by
    intro name hvalid hmem
    have htail := (forall_of_isValid hvalid).2 '(' hmem
    simp [hparen] at htail
  have hcolumn : '(' ∉ column.toList := by
    rcases hspelled.column with hvalid | rfl
    · exact hname column hvalid
    · decide
  cases table with
  | none => exact hcolumn hmem
  | some table =>
      have htable := hname table (hspelled.table table rfl)
      simp [Operand.qualified, htable, hcolumn] at hmem

/-- No blank stands in a name. -/
theorem isBlank_qualified {table : Option String} {column : String}
    (hspelled : IsSpelledName table column) :
    ∀ c ∈ (Operand.qualified table column).toList, Text.isBlank c = false := by
  have hname : ∀ name, Identifier.isValid name = true →
      ∀ c ∈ name.toList, Text.isBlank c = false :=
    fun name hvalid => (forall_isWordChar (forall_of_isValid hvalid).2).2
  have hcolumn : ∀ c ∈ column.toList, Text.isBlank c = false := by
    rcases hspelled.column with hvalid | rfl
    · exact hname column hvalid
    · intro c hc
      obtain rfl : c = '*' := by simpa using hc
      decide
  cases table with
  | none => exact hcolumn
  | some table =>
      intro c hc
      simp only [Operand.qualified, String.toList_append, List.mem_append] at hc
      rcases hc with (hc | hc) | hc
      · exact hname table (hspelled.table table rfl) c hc
      · obtain rfl : c = '.' := by simpa using hc
        decide
      · exact hcolumn c hc

theorem textOf_argumentLexemes (term : ColumnTerm) :
    textOf term.argumentLexemes =
      (if term.distinct then "DISTINCT".toList ++ [' '] else []) ++
        (Operand.qualified term.table term.column).toList := by
  rw [argumentLexemes]
  cases term.distinct <;> simp [textOf_ofName, Lexeme.text]

theorem textOf_lexemes_aggregate {term : ColumnTerm} {aggregate : Aggregate}
    (haggregate : term.aggregate = some aggregate) :
    textOf term.lexemes =
      aggregate.keyword.toList ++ '(' :: (textOf term.argumentLexemes ++ [')']) := by
  simp [lexemes, haggregate, Lexeme.text]

/-- The argument of an aggregate function, with or without `DISTINCT`. -/
theorem call?_aggregate {term : ColumnTerm} (aggregate : Aggregate)
    (hspelled : IsSpelledName term.table term.column) :
    Text.call? (aggregate.keyword.toList ++ '(' :: (textOf term.argumentLexemes ++ [')'])) =
      some (aggregate.keyword.toList, term.distinct,
        (Operand.qualified term.table term.column).toList) := by
  have hrun : Text.isRun Text.isFoldedHead
      (fun c => Text.isParameterChar (Text.foldUpper c)) aggregate.keyword.toList = true := by
    cases aggregate <;> rfl
  have htight := (solid_ofName hspelled).tight
  have hblank := isBlank_qualified hspelled
  rw [textOf_ofName] at htight
  rw [textOf_argumentLexemes]
  generalize (Operand.qualified term.table term.column).toList = name at *
  cases term.distinct with
  | true =>
      have hkeyword : Solid [word "DISTINCT".toList] :=
        solid_keyword (by simp) rfl
      have hwhole : Text.Tight ("DISTINCT".toList ++ ([' '] ++ name)) := by
        simpa [Lexeme.text] using hkeyword.tight.append [' '] htight
      have htrim := @Text.trim_padded [' '] name [] (by simp [Text.isBlank]) (by simp) htight
      rw [List.append_nil] at htrim
      have hcall := Text.call?_call hrun hwhole
      have hfolds : Text.foldsTo "DISTINCT".toList
          (("DISTINCT".toList ++ ([' '] ++ name)).take 8) = true := by
        rw [List.take_left' (by simp)]
        rfl
      rw [hfolds, List.drop_left' (by simp), htrim] at hcall
      simpa [Text.isBlank] using hcall
  | false =>
      have hbehind : (name.drop 8).head?.any Text.isBlank = false := by
        cases hdrop : name.drop 8 with
        | nil => rfl
        | cons c rest =>
            have hmem : c ∈ name.drop 8 := by simp [hdrop]
            exact hblank c (List.mem_of_mem_drop hmem)
      simp only [Bool.false_eq_true, if_false, List.nil_append]
      rw [Text.call?_call hrun htight, hbehind, Bool.and_false]
      rfl

/-! ### The first piece of a column -/

/-- A column begins with the name of a function, a star, a word with a point or the
name of the column. -/
theorem head?_lexemes (term : ColumnTerm) :
    ∀ lexeme ∈ term.lexemes.head?,
      (∃ aggregate : Aggregate, lexeme = word aggregate.keyword.toList) ∨ lexeme = mark '*' ∨
        (∃ table rest, lexeme = word (table ++ '.' :: rest)) ∨
          (term.column ≠ "*" ∧ lexeme = word term.column.toList) := by
  intro lexeme hmem
  rw [lexemes] at hmem
  cases haggregate : term.aggregate with
  | some aggregate =>
      obtain rfl : word aggregate.keyword.toList = lexeme := by simpa [haggregate] using hmem
      exact .inl ⟨aggregate, rfl⟩
  | none =>
      rw [haggregate] at hmem
      cases htable : term.table with
      | none =>
          rw [htable, ofName] at hmem
          by_cases hcolumn : term.column = "*"
          · exact .inr (.inl (by simpa [hcolumn, eq_comm] using hmem))
          · exact .inr (.inr (.inr ⟨hcolumn, by simpa [hcolumn, eq_comm] using hmem⟩))
      | some table =>
          rw [htable, ofName] at hmem
          by_cases hcolumn : term.column = "*"
          · exact .inr (.inr (.inl ⟨table.toList, [], by simpa [hcolumn, eq_comm] using hmem⟩))
          · exact .inr (.inr (.inl ⟨table.toList, term.column.toList,
              by simpa [hcolumn, eq_comm] using hmem⟩))

/-- No reserved word begins a column. -/
theorem label_head_ne {clause : Clause} {term : ColumnTerm} {reserved : String}
    (hspelled : term.IsSpelled clause) (hreserved : reserved ∈ Identifier.reservedWords) :
    ∀ lexeme ∈ term.lexemes.head?, lexeme.label ≠ reserved.toList := by
  intro lexeme hmem
  rcases head?_lexemes term lexeme hmem with
    ⟨aggregate, rfl⟩ | rfl | ⟨table, rest, rfl⟩ | ⟨hcolumn, rfl⟩
  · have hkeyword : ∀ reserved ∈ Identifier.reservedWords,
        (word aggregate.keyword.toList).label ≠ reserved.toList := by
      cases aggregate <;> decide
    exact hkeyword reserved hreserved
  · have hstar : ∀ reserved ∈ Identifier.reservedWords, (mark '*').label ≠ reserved.toList := by
      decide
    exact hstar reserved hreserved
  · have hpoint : ∀ reserved ∈ Identifier.reservedWords, '.' ∉ reserved.toList := by
      decide
    intro hlabel
    exact hpoint reserved hreserved (hlabel ▸ by simp [label])
  · exact Identifier.toUpper_ne_of_isValid (hspelled.name.column.resolve_right hcolumn) hreserved

theorem head_ne_paren (term : ColumnTerm) :
    ∀ lexeme ∈ term.lexemes.head?, lexeme ≠ mark '(' := by
  intro lexeme hmem
  rcases head?_lexemes term lexeme hmem with
    ⟨aggregate, rfl⟩ | rfl | ⟨table, rest, rfl⟩ | ⟨hcolumn, rfl⟩ <;> simp

/-! ### Reading -/

/-- A wildcard in an aggregate function is the argument of `COUNT`, without a table
and without `DISTINCT`. -/
theorem IsSpelled.aggregatedWildcard {clause : Clause} {term : ColumnTerm}
    {aggregate : Aggregate} (hspelled : term.IsSpelled clause)
    (haggregate : term.aggregate = some aggregate) :
    ((term.column == "*") &&
      (term.table.isSome || term.distinct || !aggregate.acceptsWildcard)) = false := by
  rcases hspelled.column with hvalid | ⟨-, ⟨-, hnone⟩ | ⟨hcount, htable, hdistinct⟩⟩
  · simp [column_ne_star hvalid]
  · simp [haggregate] at hnone
  · obtain rfl : aggregate = .count := by simpa [haggregate] using hcount
    simp [htable, hdistinct, Aggregate.acceptsWildcard]

/-- A written column is read back, in any clause. -/
theorem read_written {clause reading : Clause} {term : ColumnTerm} {text : Text}
    (hspelled : term.IsSpelled clause) (htext : Text.trim text = textOf term.lexemes)
    (start : Nat) : read reading ⟨text, start⟩ = .ok term.canonical := by
  have hname := ofName?_written hspelled.name
  rw [read]
  simp only [Fragment.trim, htext]
  cases haggregate : term.aggregate with
  | none =>
      have hcall := Text.call?_of_not_mem (not_mem_qualified hspelled.name)
      have hdistinct : term.column ≠ "*" → term.distinct = false := by
        intro hcolumn
        have hnone := mt (fun h => hspelled.distinct h hcolumn)
        simpa [haggregate] using hnone
      rw [lexemes, haggregate]
      simp only [textOf_ofName, hcall, hname]
      rw [canonical, isBareWildcard, isWildcard, haggregate]
      obtain ⟨table, column, aggregate, distinct⟩ := term
      by_cases hcolumn : column = "*"
      · simp_all
      · simp_all
  | some aggregate =>
      have hcall := call?_aggregate aggregate hspelled.name
      have hwildcard := hspelled.aggregatedWildcard haggregate
      have hlexemes := textOf_lexemes_aggregate haggregate
      simp only [hlexemes, hcall, ofName?_aggregate, hname, isWildcard, hwildcard]
      rw [canonical, isBareWildcard, haggregate]
      obtain ⟨table, column, aggregate, distinct⟩ := term
      simp_all

end ColumnTerm

end SelectForm

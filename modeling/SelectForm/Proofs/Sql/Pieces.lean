import Mathlib
import SelectForm.Sql.Render
import SelectForm.Proofs.Check.WellFormed
import SelectForm.Proofs.Statement.Split
import SelectForm.Proofs.Text.Number

/-!
# The pieces of a written query

Columns, operands and conditions as they are written, taken apart into words,
marks and literals.  If the names and numbers in them passed the checks, all of
these pieces are solid, and no word or mark at which the reader of a statement
stops is among them, apart from the operator of a condition and the commas of
its list.
-/

namespace SelectForm

namespace Lexeme

/-! ## Words and marks of the reader -/

/-- The first words of the phrases that the reader of a statement looks for. -/
def stopWords : List String :=
  ["AND", "BETWEEN", "CROSS", "EXCEPT", "FROM", "FULL", "GROUP", "HAVING", "IN", "INNER",
    "INTERSECT", "IS", "JOIN", "LEFT", "LIKE", "LIMIT", "NATURAL", "NOT", "OFFSET", "ON", "OR",
    "ORDER", "OVER", "RIGHT", "SELECT", "UNION", "USING", "WHERE", "WITH"]

/-- The marks that the reader of a statement looks for, except parentheses. -/
def stopMarks : List Char := [',', ';', '?', '=', '<', '>', '!']

/-- The labels at which the reader of a statement stops. -/
def stops : List Text := stopWords.map String.toList ++ stopMarks.map ([·])

theorem stopWords_subset : stopWords ⊆ Identifier.reservedWords := by decide

/-- A word is passed over unless it is one of the words looked for. -/
theorem word_not_mem_stops {text : Text} (hword : ∀ c ∈ text, Text.isWordChar c = true)
    (hne : ∀ stop ∈ stopWords, text.map Char.toUpper ≠ stop.toList) :
    (word text).label ∉ stops := by
  intro hmem
  rw [stops, List.mem_append, List.mem_map, List.mem_map] at hmem
  rcases hmem with ⟨stop, hstop, heq⟩ | ⟨c, hc, heq⟩
  · exact hne stop hstop heq.symm
  · rw [label] at heq
    cases text with
    | nil => simp at heq
    | cons d text =>
        obtain ⟨hupper, -⟩ : c = d.toUpper ∧ [] = text.map Char.toUpper := by simpa using heq
        have hd := hword d (by simp)
        have hword : Text.isWordChar d.toUpper = true := by
          by_cases halpha : d.isAlpha = true
          · exact Text.isWordChar_of_isUpper_toUpper (by simpa using halpha)
          · have hlower : ¬ d.isLower = true := fun hlower =>
              halpha (by simp [Char.isAlpha, hlower])
            rwa [Char.toUpper_eq_of_not_isLower hlower]
        have hmarks : (stopMarks.all fun c => !Text.isWordChar c) = true := by decide
        have hmark := List.all_eq_true.mp hmarks c hc
        rw [hupper, hword] at hmark
        simp at hmark

/-- A word with a character that is in no word looked for. -/
theorem word_not_mem_stops_of_mem {text : Text} {c : Char}
    (hword : ∀ c ∈ text, Text.isWordChar c = true) (hc : c ∈ text) (halpha : c.isAlpha = false) :
    (word text).label ∉ stops := by
  refine word_not_mem_stops hword fun stop hstop heq => ?_
  have hlower : ¬ c.isLower = true := fun hlower => by simp [Char.isAlpha, hlower] at halpha
  have hmem : c ∈ stop.toList := by
    rw [← heq, ← Char.toUpper_eq_of_not_isLower hlower]
    exact List.mem_map_of_mem hc
  have hletters : ∀ stop ∈ stopWords, stop.toList.all Char.isAlpha = true := by decide
  have hletter := List.all_eq_true.mp (hletters stop hstop) c hmem
  simp [halpha] at hletter

/-! ## Names -/

/-- A column name behind its table, or a wildcard. -/
def ofName (table : Option String) (column : String) : List Lexeme :=
  match table with
  | some table =>
    if column = "*" then [word (table.toList ++ ['.']), mark '*']
    else [word (table.toList ++ '.' :: column.toList)]
  | none => if column = "*" then [mark '*'] else [word column.toList]

theorem textOf_ofName (table : Option String) (column : String) :
    textOf (ofName table column) = (Operand.qualified table column).toList := by
  cases table with
  | none =>
      rw [ofName, Operand.qualified]
      split
      next hcolumn => simp [hcolumn, text]
      next => simp [text]
  | some table =>
      rw [ofName, Operand.qualified]
      split
      next hcolumn => simp [hcolumn, text]
      next => simp [text]

/-- The name of a column is valid, or a wildcard, and so is the name of its table. -/
structure IsSpelledName (table : Option String) (column : String) : Prop where
  table : ∀ name, table = some name → Identifier.isValid name = true
  column : Identifier.isValid column = true ∨ column = "*"

theorem forall_of_isValid {name : String} (hvalid : Identifier.isValid name = true) :
    name.toList ≠ [] ∧ ∀ c ∈ name.toList, Text.isNameTail c = true :=
  Text.forall_of_isName (Identifier.isName_of_isValid hvalid)

theorem ne_star_of_isName {column : String} (hname : Text.isName column.toList = true) :
    column ≠ "*" := by
  rintro rfl
  exact absurd hname (by decide)

theorem column_ne_star {column : String} (hvalid : Identifier.isValid column = true) :
    column ≠ "*" :=
  ne_star_of_isName (Identifier.isName_of_isValid hvalid)

theorem forall_isWordChar {text : Text} (hname : ∀ c ∈ text, Text.isNameTail c = true) :
    (∀ c ∈ text, Text.isWordChar c = true) ∧ ∀ c ∈ text, Text.isBlank c = false :=
  ⟨fun c hc => Text.isWordChar_of_isNameTail (hname c hc),
    fun c hc => Text.isBlank_of_isNameTail (hname c hc)⟩

theorem solid_name {name : String} (hvalid : Identifier.isValid name = true) :
    Solid [word name.toList] := by
  have hname := forall_of_isValid hvalid
  have hchars := forall_isWordChar hname.2
  exact solid_word hname.1 hchars.1 hchars.2 fun c hc => Text.toNat_lt_of_isNameTail (hname.2 c hc)

theorem name_not_mem_stops {name : String} (hvalid : Identifier.isValid name = true) :
    (word name.toList).label ∉ stops := by
  have hchars := forall_isWordChar (forall_of_isValid hvalid).2
  exact word_not_mem_stops hchars.1 fun stop hstop =>
    Identifier.toUpper_ne_of_isValid hvalid (stopWords_subset hstop)

theorem forall_qualified {table : String} {rest : Text}
    (htable : Text.isName table.toList = true) (hrest : ∀ c ∈ rest, Text.isNameTail c = true) :
    (∀ c ∈ table.toList ++ '.' :: rest, Text.isWordChar c = true) ∧
      ∀ c ∈ table.toList ++ '.' :: rest, Text.isBlank c = false := by
  have htable := forall_isWordChar (Text.forall_of_isName htable).2
  have hrest := forall_isWordChar hrest
  constructor
  · intro c hc
    rcases List.mem_append.mp hc with hc | hc
    · exact htable.1 c hc
    · rcases List.mem_cons.mp hc with rfl | hc
      · decide
      · exact hrest.1 c hc
  · intro c hc
    rcases List.mem_append.mp hc with hc | hc
    · exact htable.2 c hc
    · rcases List.mem_cons.mp hc with rfl | hc
      · decide
      · exact hrest.2 c hc

theorem toNat_lt_qualified {table : String} {rest : Text}
    (htable : Text.isName table.toList = true) (hrest : ∀ c ∈ rest, Text.isNameTail c = true) :
    ∀ c ∈ table.toList ++ '.' :: rest, c.toNat < 0x80 :=
  List.forall_mem_append.mpr
    ⟨fun c hc => Text.toNat_lt_of_isNameTail ((Text.forall_of_isName htable).2 c hc),
      List.forall_mem_cons.mpr
        ⟨by decide, fun c hc => Text.toNat_lt_of_isNameTail (hrest c hc)⟩⟩

theorem solid_star : Solid [mark '*'] := by
  refine ⟨clean_mark (by decide) clean_nil, rfl, ?_, narrow_mark (by decide),
    uncommented_marks ['*']⟩
  exact ⟨⟨'*', rfl, by decide⟩, ⟨'*', rfl, by decide⟩⟩

/-- A qualified name is one word, and the dot in it tells it from the words at which a
reader stops.  Neither of its two names needs to be free of reserved words for that. -/
theorem solid_qualified {table column : String} (htable : Text.isName table.toList = true)
    (hcolumn : Text.isName column.toList = true) :
    Solid (ofName (some table) column) ∧ Quiet stops (ofName (some table) column) := by
  have hchars := forall_qualified htable (Text.forall_of_isName hcolumn).2
  rw [ofName, if_neg (ne_star_of_isName hcolumn)]
  exact ⟨solid_word (by simp) hchars.1 hchars.2
      (toNat_lt_qualified htable (Text.forall_of_isName hcolumn).2),
    quiet_cons.mpr ⟨word_not_mem_stops_of_mem (c := '.') hchars.1 (by simp) (by decide),
      quiet_nil _⟩⟩

theorem solid_qualifiedStar {table : String} (htable : Text.isName table.toList = true) :
    Solid [word (table.toList ++ ['.']), mark '*'] := by
  have hword := (forall_qualified htable (List.forall_mem_nil _)).1
  have htight := @Text.tight_of_forall (table.toList ++ ['.']) (by simp)
    (forall_qualified htable (List.forall_mem_nil _)).2
  constructor
  · intro next hnext
    exact ⟨⟨by simp, hword⟩, rfl, solid_star.clean next hnext⟩
  · rfl
  · have htext : textOf [word (table.toList ++ ['.']), mark '*'] =
        (table.toList ++ ['.']) ++ ([] ++ ['*']) := by simp [text]
    rw [htext]
    exact htight.append [] solid_star.tight
  · have hfront := narrow_word (toNat_lt_qualified htable (List.forall_mem_nil _))
    exact narrow_append.mpr ⟨hfront, solid_star.narrow⟩
  · exact uncommented_append.mpr ⟨uncommented_word _, solid_star.uncommented⟩

theorem solid_ofName {table : Option String} {column : String}
    (hspelled : IsSpelledName table column) : Solid (ofName table column) := by
  by_cases hcolumn : column = "*"
  · cases table with
    | none =>
        rw [ofName, if_pos hcolumn]
        exact solid_star
    | some table =>
        rw [ofName, if_pos hcolumn]
        exact solid_qualifiedStar (Identifier.isName_of_isValid (hspelled.table table rfl))
  · have hvalid := hspelled.column.resolve_right hcolumn
    cases table with
    | none =>
        rw [ofName, if_neg hcolumn]
        exact solid_name hvalid
    | some table =>
        exact (solid_qualified (Identifier.isName_of_isValid (hspelled.table table rfl))
          (Identifier.isName_of_isValid hvalid)).1

theorem quiet_ofName {table : Option String} {column : String}
    (hspelled : IsSpelledName table column) : Quiet stops (ofName table column) := by
  have hstar : (mark '*').label ∉ stops := by decide
  by_cases hcolumn : column = "*"
  · cases table with
    | none =>
        rw [ofName, if_pos hcolumn]
        exact quiet_cons.mpr ⟨hstar, quiet_nil _⟩
    | some table =>
        have hname := Identifier.isName_of_isValid (hspelled.table table rfl)
        have hchars := (forall_qualified hname (List.forall_mem_nil _)).1
        rw [ofName, if_pos hcolumn]
        exact quiet_cons.mpr ⟨word_not_mem_stops_of_mem (c := '.') hchars (by simp) (by decide),
          quiet_cons.mpr ⟨hstar, quiet_nil _⟩⟩
  · have hvalid := hspelled.column.resolve_right hcolumn
    cases table with
    | none =>
        rw [ofName, if_neg hcolumn]
        exact quiet_cons.mpr ⟨name_not_mem_stops hvalid, quiet_nil _⟩
    | some table =>
        exact (solid_qualified (Identifier.isName_of_isValid (hspelled.table table rfl))
          (Identifier.isName_of_isValid hvalid)).2

/-! ## Numbers -/

/-- Code with one more character in front of it. -/
def consCode (c : Char) (lexemes : List Lexeme) : List Lexeme :=
  if Text.isWordChar c then
    match lexemes with
    | word text :: rest => word (c :: text) :: rest
    | rest => word [c] :: rest
  else
    mark c :: lexemes

/-- The words and marks of some code. -/
def ofCode (text : Text) : List Lexeme := text.foldr consCode []

theorem consCode_mark {c : Char} (hc : Text.isWordChar c = false) (lexemes : List Lexeme) :
    consCode c lexemes = mark c :: lexemes := by
  simp [consCode, hc]

theorem consCode_word {c : Char} (hc : Text.isWordChar c = true) (text : Text)
    (rest : List Lexeme) : consCode c (word text :: rest) = word (c :: text) :: rest := by
  simp [consCode, hc]

theorem consCode_first {c : Char} {lexemes : List Lexeme} (hc : Text.isWordChar c = true)
    (hlexemes : lexemes.head?.any isWord = false) :
    consCode c lexemes = word [c] :: lexemes := by
  cases lexemes with
  | nil => simp [consCode, hc]
  | cons lexeme rest =>
      cases lexeme with
      | word text => simp [isWord] at hlexemes
      | mark _ | literal _ _ | lineComment _ | blockComment _ => simp [consCode, hc]

theorem textOf_consCode (c : Char) (lexemes : List Lexeme) :
    textOf (consCode c lexemes) = c :: textOf lexemes := by
  cases hc : Text.isWordChar c with
  | false => rw [consCode_mark hc]; rfl
  | true =>
      cases lexemes with
      | nil => rw [consCode_first hc rfl]; rfl
      | cons lexeme rest =>
          cases lexeme with
          | word text => rw [consCode_word hc]; rfl
          | mark _ | literal _ _ | lineComment _ | blockComment _ =>
              rw [consCode_first hc rfl]
              rfl

theorem ofCode_cons (c : Char) (rest : Text) : ofCode (c :: rest) = consCode c (ofCode rest) :=
  rfl

theorem textOf_ofCode (text : Text) : textOf (ofCode text) = text := by
  induction text with
  | nil => rfl
  | cons c rest ih => rw [ofCode_cons, textOf_consCode, ih]

theorem ofCode_mark {c : Char} (rest : Text) (hc : Text.isWordChar c = false) :
    ofCode (c :: rest) = mark c :: ofCode rest := by
  rw [ofCode_cons, consCode_mark hc]

theorem ofCode_word {text rest : Text} (hne : text ≠ [])
    (hword : ∀ c ∈ text, Text.isWordChar c = true)
    (hrest : (ofCode rest).head?.any isWord = false) :
    ofCode (text ++ rest) = word text :: ofCode rest := by
  induction text with
  | nil => exact absurd rfl hne
  | cons c text ih =>
      have hc := hword c (by simp)
      rw [List.cons_append, ofCode_cons]
      cases text with
      | nil => exact consCode_first hc hrest
      | cons d text =>
          rw [ih (by simp) fun e he => hword e (List.mem_cons_of_mem c he), consCode_word hc]

theorem ofCode_eq_word {text : Text} (hne : text ≠ [])
    (hword : ∀ c ∈ text, Text.isWordChar c = true) : ofCode text = [word text] := by
  have hcode := @ofCode_word text [] hne hword rfl
  rwa [List.append_nil] at hcode

/-- A word of a number: its characters are no blanks, and one of them is no letter. -/
structure IsNumberWord (text : Text) : Prop where
  ne_nil : text ≠ []
  isWordChar : ∀ c ∈ text, Text.isWordChar c = true
  not_isBlank : ∀ c ∈ text, Text.isBlank c = false
  not_isAlpha : ∃ c ∈ text, c.isAlpha = false
  isNarrow : ∀ c ∈ text, c.toNat < 0x80 ∨ Text.isDecimal c = true

theorem IsNumberWord.narrow {text : Text} (hword : IsNumberWord text) : Narrow [word text] :=
  List.forall_mem_singleton.mpr fun _ => hword.isNarrow

theorem isNumberWord_append {mantissa e : Text} (hne : mantissa ≠ [])
    (hmantissa : ∀ c ∈ mantissa, Text.isDecimal c = true ∨ c = '.')
    (he : ∀ c ∈ e, Text.isDecimal c = true ∨ c = 'e' ∨ c = 'E') :
    IsNumberWord (mantissa ++ e) := by
  have hword : ∀ c ∈ mantissa ++ e, Text.isDecimal c = true ∨ c = '.' ∨ c = 'e' ∨ c = 'E' := by
    intro c hc
    rcases List.mem_append.mp hc with hc | hc
    · exact (hmantissa c hc).imp_right .inl
    · exact (he c hc).imp_right .inr
  constructor
  · simp [hne]
  · intro c hc
    rcases hword c hc with hc | rfl | rfl | rfl
    · exact Text.isWordChar_of_isDecimal hc
    all_goals decide
  · intro c hc
    rcases hword c hc with hc | rfl | rfl | rfl
    · exact Text.isBlank_of_isDecimal hc
    all_goals decide
  · obtain ⟨c, rest, rfl⟩ := List.exists_cons_of_ne_nil hne
    refine ⟨c, by simp, ?_⟩
    rcases hmantissa c (by simp) with hc | rfl
    · exact Text.isAlpha_of_isDecimal hc
    · decide
  · intro c hc
    rcases hword c hc with hc | rfl | rfl | rfl
    · exact .inr hc
    all_goals exact .inl (by decide)

/-- The pieces of a number: a sign, a word, and maybe the digits of an exponent behind
a sign of their own. -/
theorem exists_ofCode_number {number : Text} (hnumber : Text.isNumber number = true) :
    ∃ sign body, Text.IsSign sign ∧ IsNumberWord body ∧
      (ofCode number = marks sign ++ [word body] ∨
        ∃ s digits, (s = '+' ∨ s = '-') ∧ IsNumberWord digits ∧
          ofCode number = marks sign ++ [word body, mark s, word digits]) := by
  obtain ⟨sign, mantissa, exponent, htext, hsign, hne, hmantissa, hexponent⟩ :=
    Text.exists_of_isNumber hnumber
  have hfront : ∀ rest, ofCode (sign ++ rest) = marks sign ++ ofCode rest := by
    intro rest
    rcases hsign with rfl | rfl | rfl
    · rfl
    · exact ofCode_mark rest (by decide)
    · exact ofCode_mark rest (by decide)
  rw [htext, hfront]
  rcases Text.exists_of_isExponent hexponent with rfl | ⟨e, exponentSign, digits, hexp, he,
    hexpSign, hdigitsNe, hdigits⟩
  · have hbody := isNumberWord_append hne hmantissa (List.forall_mem_nil _)
    exact ⟨sign, mantissa ++ [], hsign, hbody,
      .inl (by rw [ofCode_eq_word hbody.ne_nil hbody.isWordChar])⟩
  · have hwordDigits : IsNumberWord (digits ++ []) :=
      isNumberWord_append hdigitsNe (fun c hc => .inl (hdigits c hc)) (List.forall_mem_nil _)
    rw [List.append_nil] at hwordDigits
    rcases hexpSign with rfl | hexpSign
    · have hbody : IsNumberWord (mantissa ++ (e :: digits)) := by
        refine isNumberWord_append hne hmantissa fun c hc => ?_
        rcases List.mem_cons.mp hc with rfl | hc
        · exact .inr he
        · exact .inl (hdigits c hc)
      exact ⟨sign, mantissa ++ (e :: digits), hsign, hbody,
        .inl (by rw [hexp, List.nil_append, ofCode_eq_word hbody.ne_nil hbody.isWordChar])⟩
    · have hbody : IsNumberWord (mantissa ++ [e]) :=
        isNumberWord_append hne hmantissa fun c hc => .inr (by
          obtain rfl := List.mem_singleton.mp hc
          exact he)
      obtain ⟨s, hs, rfl⟩ : ∃ s, (s = '+' ∨ s = '-') ∧ exponentSign = [s] := by
        rcases hexpSign with rfl | rfl
        · exact ⟨'+', .inl rfl, rfl⟩
        · exact ⟨'-', .inr rfl, rfl⟩
      have hmark : Text.isWordChar s = false := by
        rcases hs with rfl | rfl <;> decide
      have hbehind : ofCode (s :: digits) = [mark s, word digits] := by
        rw [ofCode_mark digits hmark,
          ofCode_eq_word hwordDigits.ne_nil hwordDigits.isWordChar]
      refine ⟨sign, mantissa ++ [e], hsign, hbody, .inr ⟨s, digits, hs, hwordDigits, ?_⟩⟩
      have hword := @ofCode_word (mantissa ++ [e]) (s :: digits) hbody.ne_nil hbody.isWordChar
        (by rw [hbehind]; rfl)
      rw [hbehind] at hword
      rw [hexp, ← hword]
      simp

theorem clean_sign {c : Char} {body : Text} {rest : List Lexeme} (hc : c = '+' ∨ c = '-')
    (hbody : IsNumberWord body) (hrest : Clean (word body :: rest)) :
    Clean (mark c :: word body :: rest) := by
  intro next hnext
  obtain ⟨d, others, rfl⟩ := List.exists_cons_of_ne_nil hbody.ne_nil
  have hd := hbody.isWordChar d (by simp)
  have hhyphen : d ≠ '-' := by
    rintro rfl
    exact absurd hd (by decide)
  have hstar : d ≠ '*' := by
    rintro rfl
    exact absurd hd (by decide)
  refine ⟨?_, ?_, hrest next hnext⟩
  · rcases hc with rfl | rfl <;> exact ⟨by decide, by decide⟩
  · simp [EndsBefore, text, hhyphen, hstar]

section Sign

variable {sign : Text}

theorem clean_isSign {body : Text} {rest : List Lexeme} (hsign : Text.IsSign sign)
    (hbody : IsNumberWord body) (hrest : Clean (word body :: rest)) :
    Clean (marks sign ++ word body :: rest) := by
  rcases hsign with rfl | rfl | rfl
  · exact hrest
  · exact clean_sign (.inl rfl) hbody hrest
  · exact clean_sign (.inr rfl) hbody hrest

theorem not_isBlank_isSign (hsign : Text.IsSign sign) : ∀ c ∈ sign, Text.isBlank c = false := by
  rcases hsign with rfl | rfl | rfl
  · simp
  · simpa using (by decide : Text.isBlank '+' = false)
  · simpa using (by decide : Text.isBlank '-' = false)

theorem narrow_isSign (hsign : Text.IsSign sign) : Narrow (marks sign) := by
  rcases hsign with rfl | rfl | rfl
  · exact narrow_nil
  all_goals exact narrow_mark (by decide)

/-- A number without a sign in its exponent. -/
theorem solid_signed {body : Text} (hsign : Text.IsSign sign) (hbody : IsNumberWord body) :
    Solid (marks sign ++ [word body]) := by
  refine ⟨clean_isSign hsign hbody (clean_word hbody.ne_nil hbody.isWordChar), ?_, ?_,
    narrow_append.mpr ⟨narrow_isSign hsign, hbody.narrow⟩,
    uncommented_append.mpr ⟨uncommented_marks sign, uncommented_word body⟩⟩
  · rcases hsign with rfl | rfl | rfl <;> rfl
  · refine Text.tight_of_forall (by simp [text, hbody.ne_nil]) fun c hc => ?_
    have hc : c ∈ sign ∨ c ∈ body := by simpa [text] using hc
    exact hc.elim (not_isBlank_isSign hsign c) (hbody.not_isBlank c)

/-- A number whose exponent has a sign of its own: the sign ends the word in front of it. -/
theorem solid_exponent {body digits : Text} {s : Char} (hsign : Text.IsSign sign)
    (hbody : IsNumberWord body) (hs : s = '+' ∨ s = '-') (hdigits : IsNumberWord digits) :
    Solid (marks sign ++ [word body, mark s, word digits]) := by
  have htail : Clean [mark s, word digits] :=
    clean_sign hs hdigits (clean_word hdigits.ne_nil hdigits.isWordChar)
  have hmark : Text.isWordChar s = false := by
    rcases hs with rfl | rfl <;> decide
  have hblank : Text.isBlank s = false := by
    rcases hs with rfl | rfl <;> decide
  have hnarrow : Narrow [mark s] := by
    rcases hs with rfl | rfl <;> exact narrow_mark (by decide)
  refine ⟨clean_isSign hsign hbody fun next hnext => ?_, ?_, ?_,
    narrow_append.mpr ⟨narrow_isSign hsign, narrow_append.mpr ⟨hbody.narrow,
      narrow_append.mpr ⟨hnarrow, hdigits.narrow⟩⟩⟩,
    uncommented_append.mpr ⟨uncommented_marks sign, uncommented_append.mpr
      ⟨uncommented_word body, uncommented_append.mpr
        ⟨uncommented_marks [s], uncommented_word digits⟩⟩⟩⟩
  · refine ⟨⟨hbody.ne_nil, hbody.isWordChar⟩, ?_, htail next hnext⟩
    simpa [EndsBefore, text] using hmark
  · rcases hs with rfl | rfl <;> rcases hsign with rfl | rfl | rfl <;> rfl
  · refine Text.tight_of_forall (by simp [text, hbody.ne_nil]) fun c hc => ?_
    have hc : c ∈ sign ∨ c ∈ body ∨ c = s ∨ c ∈ digits := by simpa [text] using hc
    rcases hc with hc | hc | rfl | hc
    · exact not_isBlank_isSign hsign c hc
    · exact hbody.not_isBlank c hc
    · exact hblank
    · exact hdigits.not_isBlank c hc

end Sign

theorem solid_number {number : Text} (hnumber : Text.isNumber number = true) :
    Solid (ofCode number) := by
  obtain ⟨sign, body, hsign, hbody, hcode | ⟨s, digits, hs, hdigits, hcode⟩⟩ :=
    exists_ofCode_number hnumber
  · rw [hcode]
    exact solid_signed hsign hbody
  · rw [hcode]
    exact solid_exponent hsign hbody hs hdigits

theorem IsNumberWord.not_mem_stops {text : Text} (hword : IsNumberWord text) :
    (word text).label ∉ stops := by
  obtain ⟨c, hc, halpha⟩ := hword.not_isAlpha
  exact word_not_mem_stops_of_mem hword.isWordChar hc halpha

theorem quiet_number {number : Text} (hnumber : Text.isNumber number = true) :
    Quiet stops (ofCode number) := by
  obtain ⟨sign, body, hsign, hbody, hform⟩ := exists_ofCode_number hnumber
  have hplus : (mark '+').label ∉ stops := by decide
  have hhyphen : (mark '-').label ∉ stops := by decide
  have hsign : Quiet stops (marks sign) := by
    rcases hsign with rfl | rfl | rfl
    · exact quiet_nil _
    · exact quiet_cons.mpr ⟨hplus, quiet_nil _⟩
    · exact quiet_cons.mpr ⟨hhyphen, quiet_nil _⟩
  rcases hform with hcode | ⟨s, digits, hs, hdigits, hcode⟩
  · rw [hcode]
    exact quiet_append.mpr ⟨hsign, quiet_cons.mpr ⟨hbody.not_mem_stops, quiet_nil _⟩⟩
  · have hmark : (mark s).label ∉ stops := by
      rcases hs with rfl | rfl
      · exact hplus
      · exact hhyphen
    rw [hcode]
    exact quiet_append.mpr ⟨hsign, quiet_cons.mpr ⟨hbody.not_mem_stops,
      quiet_cons.mpr ⟨hmark, quiet_cons.mpr ⟨hdigits.not_mem_stops, quiet_nil _⟩⟩⟩⟩

end Lexeme

/-! ## Columns -/

namespace ColumnTerm

open Lexeme

/-- The column inside the parentheses of an aggregate function. -/
def argumentLexemes (term : ColumnTerm) : List Lexeme :=
  if term.distinct then
    word "DISTINCT".toList :: mark ' ' :: ofName term.table term.column
  else
    ofName term.table term.column

def lexemes (term : ColumnTerm) : List Lexeme :=
  match term.aggregate with
  | some aggregate =>
    word aggregate.keyword.toList :: mark '(' :: (term.argumentLexemes ++ [mark ')'])
  | none => ofName term.table term.column

theorem textOf_lexemes (term : ColumnTerm) : textOf term.lexemes = term.render.toList := by
  cases haggregate : term.aggregate with
  | none => simp [lexemes, render, haggregate, textOf_ofName]
  | some aggregate =>
      cases hdistinct : term.distinct <;>
        simp [lexemes, render, haggregate, argumentLexemes, hdistinct, textOf_ofName, text]

/-- What the checks demand of a column in a clause, apart from the scope. -/
structure IsSpelled (clause : Clause) (term : ColumnTerm) : Prop where
  table : ∀ name, term.table = some name → Identifier.isValid name = true
  column : Identifier.isValid term.column = true ∨ term.IsWildcardIn clause
  distinct : term.distinct = true → term.column ≠ "*" → term.aggregate.isSome = true

theorem IsSpelled.name {clause : Clause} {term : ColumnTerm} (hspelled : term.IsSpelled clause) :
    IsSpelledName term.table term.column :=
  ⟨hspelled.table, hspelled.column.imp_right And.left⟩

theorem solid_aggregate (aggregate : Aggregate) : Solid [word aggregate.keyword.toList] := by
  cases aggregate <;>
    exact solid_keyword (by simp [Aggregate.keyword]) rfl

theorem solid_lexemes {clause : Clause} {term : ColumnTerm} (hspelled : term.IsSpelled clause) :
    Solid term.lexemes := by
  have hname := solid_ofName hspelled.name
  rw [lexemes]
  cases term.aggregate with
  | none => exact hname
  | some aggregate =>
      refine (solid_aggregate aggregate).call ?_
      rw [argumentLexemes]
      split
      · have hdistinct : Solid [word "DISTINCT".toList] :=
          solid_keyword (by simp) rfl
        exact hdistinct.glue_space hname
      · exact hname

theorem quiet_lexemes {clause : Clause} {term : ColumnTerm} (hspelled : term.IsSpelled clause) :
    Quiet stops term.lexemes := by
  have hname := quiet_ofName hspelled.name
  rw [lexemes]
  cases term.aggregate with
  | none => exact hname
  | some aggregate =>
      have hword : (word aggregate.keyword.toList).label ∉ stops := by
        cases aggregate <;> decide
      refine quiet_cons.mpr ⟨hword, quiet_cons.mpr ⟨by decide, quiet_append.mpr ⟨?_, ?_⟩⟩⟩
      · rw [argumentLexemes]
        split
        · exact quiet_cons.mpr ⟨by decide, quiet_cons.mpr ⟨by decide, hname⟩⟩
        · exact hname
      · exact quiet_cons.mpr ⟨by decide, quiet_nil _⟩

end ColumnTerm

/-! ## Operands -/

namespace Operand

open Lexeme

def lexemes : Operand → List Lexeme
  | parameter name => [word (':' :: name.toList)]
  | literal (.string value) => [Lexeme.literal .single value.toList]
  | literal (.number text) => ofCode text.toList
  | literal (.boolean true) => [word "TRUE".toList]
  | literal (.boolean false) => [word "FALSE".toList]
  | literal .null => [word "NULL".toList]
  | column table name => ofName table name

theorem textOf_lexemes (operand : Operand) : textOf operand.lexemes = operand.render.toList := by
  cases operand with
  | parameter name => simp [lexemes, render, text]
  | literal value =>
      cases value with
      | string value => simp [lexemes, render, Literal.render, text]
      | number number => simp [lexemes, render, Literal.render, textOf_ofCode]
      | boolean value => cases value <;> simp [lexemes, render, Literal.render, text]
      | null => simp [lexemes, render, Literal.render, text]
  | column table name => simp [lexemes, render, textOf_ofName]

/-- What the checks demand of an operand, apart from the scope. -/
structure IsWritten (operand : Operand) : Prop where
  spelled : operand.IsSpelled
  name : ∀ table column, operand = .column table column →
    (∀ name, table = some name → Identifier.isValid name = true) ∧
      Identifier.isValid column = true

theorem forall_parameter {name : String} (hname : Text.isParameterName name.toList = true) :
    (∀ c ∈ ':' :: name.toList, Text.isWordChar c = true) ∧
      ∀ c ∈ ':' :: name.toList, Text.isBlank c = false := by
  have hchars := (Text.forall_of_isRun (fun _ => id) hname).2
  have hnames := forall_isWordChar fun c hc =>
    Text.isNameTail_of_isParameterChar (hchars c hc)
  exact ⟨List.forall_mem_cons.mpr ⟨by decide, hnames.1⟩,
    List.forall_mem_cons.mpr ⟨by decide, hnames.2⟩⟩

theorem solid_lexemes {operand : Operand} (hwritten : operand.IsWritten) :
    Solid operand.lexemes := by
  cases operand with
  | parameter name =>
      have hchars := forall_parameter hwritten.spelled
      have hletters := (Text.forall_of_isRun (fun _ => id) hwritten.spelled).2
      exact solid_word (by simp) hchars.1 hchars.2 (List.forall_mem_cons.mpr ⟨by decide, fun c hc =>
        Text.toNat_lt_of_isNameTail (Text.isNameTail_of_isParameterChar (hletters c hc))⟩)
  | literal value =>
      cases value with
      | string value => exact solid_literal .single value.toList
      | number number => exact solid_number hwritten.spelled
      | boolean value =>
          cases value <;> exact solid_keyword (by simp) rfl
      | null => exact solid_keyword (by simp) rfl
  | column table column =>
      have hname := hwritten.name table column rfl
      exact solid_ofName ⟨hname.1, .inl hname.2⟩

theorem quiet_lexemes {operand : Operand} (hwritten : operand.IsWritten) :
    Quiet stops operand.lexemes := by
  cases operand with
  | parameter name =>
      have hchars := forall_parameter hwritten.spelled
      exact quiet_cons.mpr
        ⟨word_not_mem_stops_of_mem hchars.1 List.mem_cons_self (by decide), quiet_nil _⟩
  | literal value =>
      cases value with
      | string value =>
          have hlabel : ([] : Text) ∉ stops := by decide
          exact quiet_cons.mpr ⟨hlabel, quiet_nil _⟩
      | number number => exact quiet_number hwritten.spelled
      | boolean value => cases value <;> exact quiet_cons.mpr ⟨by decide, quiet_nil _⟩
      | null => exact quiet_cons.mpr ⟨by decide, quiet_nil _⟩
  | column table column =>
      have hname := hwritten.name table column rfl
      exact quiet_ofName ⟨hname.1, .inl hname.2⟩

/-- An operand with its string, if it is one, between other quotation marks. -/
def spelledLexemes (quote : Quote) : Operand → List Lexeme
  | literal (.string value) => [Lexeme.literal quote value.toList]
  | operand => operand.lexemes

theorem spelledLexemes_single (operand : Operand) :
    operand.spelledLexemes .single = operand.lexemes := by
  rcases operand with _ | (_ | _ | _ | _) | _ <;> rfl

theorem spelledLexemes_cases (quote : Quote) (operand : Operand) :
    (∃ value, operand = literal (.string value) ∧
        operand.spelledLexemes quote = [Lexeme.literal quote value.toList]) ∨
      operand.spelledLexemes quote = operand.lexemes := by
  rcases operand with _ | (value | _ | _ | _) | _
  · exact .inr rfl
  · exact .inl ⟨value, rfl, rfl⟩
  all_goals exact .inr rfl

theorem solid_spelledLexemes {operand : Operand} (hwritten : operand.IsWritten) (quote : Quote) :
    Solid (operand.spelledLexemes quote) := by
  rcases operand.spelledLexemes_cases quote with ⟨value, rfl, hlexemes⟩ | hlexemes
  · rw [hlexemes]
    exact solid_literal quote value.toList
  · rw [hlexemes]
    exact solid_lexemes hwritten

theorem quiet_spelledLexemes {operand : Operand} (hwritten : operand.IsWritten) (quote : Quote) :
    Quiet stops (operand.spelledLexemes quote) := by
  rcases operand.spelledLexemes_cases quote with ⟨value, rfl, hlexemes⟩ | hlexemes
  · have hlabel : ([] : Text) ∉ stops := by decide
    rw [hlexemes]
    exact quiet_cons.mpr ⟨hlabel, quiet_nil _⟩
  · rw [hlexemes]
    exact quiet_lexemes hwritten

end Operand

end SelectForm

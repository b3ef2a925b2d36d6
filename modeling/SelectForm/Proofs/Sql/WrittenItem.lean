import Mathlib
import SelectForm.Statement.LocatedClause
import SelectForm.Statement.Table
import SelectForm.Proofs.Sql.WrittenCondition

/-!
# Written items and joins

The entries of SELECT, ORDER BY and FROM and the joins behind them, taken apart
into pieces.  A table name may be qualified by a schema, and then it is still
one word.  The conditions of a join form a chain that only `AND` holds together.

Each of them may be spelled in more ways than it is written: with or without `AS`, `ASC`,
`INNER` and `OUTER`, and with parentheses around the conditions of a join.
-/

namespace SelectForm

open Lexeme

/-! ## Table names -/

namespace Text

theorem splitOn_ne_nil (separator : Char) (text : Text) : splitOn separator text ≠ [] := by
  cases text with
  | nil => simp [splitOn]
  | cons c rest =>
      rw [splitOn]
      split
      · split <;> simp
      · simp

theorem intercalate_splitOn (separator : Char) (text : Text) :
    [separator].intercalate (splitOn separator text) = text := by
  induction text with
  | nil => rfl
  | cons c rest ih =>
      rw [splitOn]
      cases hpieces : splitOn separator rest with
      | nil =>
          rw [hpieces] at ih
          simp [← ih]
      | cons piece pieces =>
          rw [hpieces] at ih
          simp only
          split
          next hc =>
            rw [List.intercalate_cons_cons, ih, hc]
            rfl
          next hc =>
            cases pieces with
            | nil =>
                rw [List.intercalate_singleton] at ih ⊢
                rw [ih]
            | cons other pieces =>
                rw [List.intercalate_cons_cons] at ih ⊢
                rw [← ih]
                rfl

end Text

namespace Identifier

/-- A valid table name is one name, or a schema and a name. -/
theorem isValidTable_cases {name : String} (hvalid : isValidTable name = true) :
    isValid name = true ∨ ∃ schema table, isValid schema = true ∧ isValid table = true ∧
      name.toList = schema.toList ++ '.' :: table.toList := by
  rw [isValidTable, Bool.and_eq_true, decide_eq_true_eq, List.all_eq_true] at hvalid
  have hjoin := Text.intercalate_splitOn '.' name.toList
  have hne := Text.splitOn_ne_nil '.' name.toList
  rw [parts] at hvalid
  generalize Text.splitOn '.' name.toList = pieces at hvalid hjoin hne
  obtain ⟨hlength, hparts⟩ := hvalid
  rw [List.length_map] at hlength
  match pieces, hlength, hparts, hjoin with
  | [], _, _, _ => exact absurd rfl hne
  | [piece], _, hparts, hjoin =>
      rw [List.intercalate_singleton] at hjoin
      have hpiece := hparts (String.ofList piece) (by simp)
      rw [hjoin, String.ofList_toList] at hpiece
      exact .inl hpiece
  | [schema, table], _, hparts, hjoin =>
      refine .inr ⟨String.ofList schema, String.ofList table, hparts _ (by simp),
        hparts _ (by simp), ?_⟩
      simp [← hjoin, List.intercalate_cons_cons, List.intercalate_singleton]

end Identifier

/-! ## Items -/

/-- An alias with or without `AS` in front of it. -/
def aliasLexemes (asWord : Bool) (aliasName : String) : List Lexeme :=
  (if asWord then [word "AS".toList, mark ' '] else []) ++ [word aliasName.toList]

theorem solid_aliasLexemes (asWord : Bool) {aliasName : String}
    (hvalid : Identifier.isValid aliasName = true) : Solid (aliasLexemes asWord aliasName) := by
  have has : Solid [word "AS".toList] := solid_keyword (by simp) rfl
  cases asWord with
  | true => exact has.glue_space (solid_name hvalid)
  | false => exact solid_name hvalid

theorem quiet_aliasLexemes (asWord : Bool) {aliasName : String}
    (hvalid : Identifier.isValid aliasName = true) :
    Quiet stops (aliasLexemes asWord aliasName) := by
  have hname := quiet_cons.mpr ⟨name_not_mem_stops hvalid, quiet_nil _⟩
  cases asWord with
  | true => exact quiet_cons.mpr ⟨by decide, quiet_cons.mpr ⟨by decide, hname⟩⟩
  | false => exact hname

namespace SelectItem

def lexemes (item : SelectItem) : List Lexeme :=
  match item.aliasName with
  | some aliasName =>
    item.term.lexemes ++ [mark ' ', word "AS".toList, mark ' ', word aliasName.toList]
  | none => item.term.lexemes

theorem textOf_lexemes (item : SelectItem) : textOf item.lexemes = item.render.toList := by
  have hterm := item.term.textOf_lexemes
  cases halias : item.aliasName <;> simp [lexemes, render, halias, hterm, text]

/-- What the checks demand of an entry of SELECT, apart from the scope. -/
structure IsWritten (item : SelectItem) : Prop where
  term : item.term.IsSpelled .select
  aliasName : ∀ aliasName, item.aliasName = some aliasName →
    Identifier.isValid aliasName = true ∧ item.term.isBareWildcard = false

/-- An entry with or without `AS` in front of its alias. -/
def spelledLexemes (asWord : Bool) (item : SelectItem) : List Lexeme :=
  match item.aliasName with
  | some aliasName => item.term.lexemes ++ mark ' ' :: aliasLexemes asWord aliasName
  | none => item.term.lexemes

theorem spelledLexemes_plain (item : SelectItem) : item.spelledLexemes true = item.lexemes := by
  rw [spelledLexemes, lexemes]
  cases item.aliasName <;> rfl

theorem solid_spelledLexemes {item : SelectItem} (hwritten : item.IsWritten) (asWord : Bool) :
    Solid (item.spelledLexemes asWord) := by
  have hterm := ColumnTerm.solid_lexemes hwritten.term
  rw [spelledLexemes]
  cases halias : item.aliasName with
  | none => exact hterm
  | some aliasName =>
      exact hterm.glue_space (solid_aliasLexemes asWord (hwritten.aliasName aliasName halias).1)

theorem quiet_spelledLexemes {item : SelectItem} (hwritten : item.IsWritten) (asWord : Bool) :
    Quiet stops (item.spelledLexemes asWord) := by
  have hterm := ColumnTerm.quiet_lexemes hwritten.term
  rw [spelledLexemes]
  cases halias : item.aliasName with
  | none => exact hterm
  | some aliasName =>
      have hname := quiet_aliasLexemes asWord (hwritten.aliasName aliasName halias).1
      exact quiet_append.mpr ⟨hterm, quiet_cons.mpr ⟨by decide, hname⟩⟩

end SelectItem

namespace OrderItem

def lexemes (item : OrderItem) : List Lexeme :=
  match item.direction with
  | .ascending => item.term.lexemes
  | .descending => item.term.lexemes ++ [mark ' ', word "DESC".toList]

theorem textOf_lexemes (item : OrderItem) : textOf item.lexemes = item.render.toList := by
  have hterm := item.term.textOf_lexemes
  cases hdirection : item.direction <;> simp [lexemes, render, hdirection, hterm, text]

/-- An entry with or without `ASC`, if it is ascending. -/
def spelledLexemes (ascWord : Bool) (item : OrderItem) : List Lexeme :=
  match item.direction with
  | .ascending =>
    item.term.lexemes ++ if ascWord then [mark ' ', word "ASC".toList] else []
  | .descending => item.term.lexemes ++ [mark ' ', word "DESC".toList]

theorem spelledLexemes_plain (item : OrderItem) : item.spelledLexemes false = item.lexemes := by
  rw [spelledLexemes, lexemes]
  cases item.direction with
  | ascending => exact List.append_nil _
  | descending => rfl

theorem solid_spelledLexemes {item : OrderItem} (hterm : item.term.IsSpelled .orderBy)
    (ascWord : Bool) : Solid (item.spelledLexemes ascWord) := by
  have hsolid := ColumnTerm.solid_lexemes hterm
  have hasc : Solid [word "ASC".toList] := solid_keyword (by simp) rfl
  have hdesc : Solid [word "DESC".toList] := solid_keyword (by simp) rfl
  rw [spelledLexemes]
  cases item.direction with
  | ascending =>
      cases ascWord with
      | true => exact hsolid.glue_space hasc
      | false => simpa using hsolid
  | descending => exact hsolid.glue_space hdesc

theorem quiet_spelledLexemes {item : OrderItem} (hterm : item.term.IsSpelled .orderBy)
    (ascWord : Bool) : Quiet stops (item.spelledLexemes ascWord) := by
  have hquiet := ColumnTerm.quiet_lexemes hterm
  have hwords : Quiet stops [mark ' ', word "ASC".toList] ∧
      Quiet stops [mark ' ', word "DESC".toList] := by
    simp only [quiet_cons, quiet_nil, and_true]
    decide
  rw [spelledLexemes]
  cases item.direction with
  | ascending =>
      cases ascWord with
      | true => exact quiet_append.mpr ⟨hquiet, hwords.1⟩
      | false => simpa using hquiet
  | descending => exact quiet_append.mpr ⟨hquiet, hwords.2⟩

end OrderItem

namespace TableItem

def lexemes (table : TableItem) : List Lexeme :=
  match table.aliasName with
  | some aliasName => [word table.tableName.toList, mark ' ', word aliasName.toList]
  | none => [word table.tableName.toList]

theorem textOf_lexemes (table : TableItem) : textOf table.lexemes = table.render.toList := by
  cases halias : table.aliasName <;> simp [lexemes, render, halias, text]

/-- What the checks demand of a table, apart from the scope. -/
structure IsWritten (table : TableItem) : Prop where
  name : Identifier.isValidTable table.tableName = true
  aliasName : ∀ aliasName, table.aliasName = some aliasName →
    Identifier.isValid aliasName = true

theorem solid_name {name : String} (hvalid : Identifier.isValidTable name = true) :
    Solid [word name.toList] ∧ (word name.toList).label ∉ stops := by
  rcases Identifier.isValidTable_cases hvalid with hname | ⟨schema, table, hschema, htable, hname⟩
  · exact ⟨Lexeme.solid_name hname, name_not_mem_stops hname⟩
  · have hchars := forall_qualified (Identifier.isName_of_isValid hschema)
      (forall_of_isValid htable).2
    rw [hname]
    exact ⟨solid_word (by simp) hchars.1 hchars.2
        (toNat_lt_qualified (Identifier.isName_of_isValid hschema) (forall_of_isValid htable).2),
      word_not_mem_stops_of_mem hchars.1 (List.mem_append_right _ List.mem_cons_self)
        (by decide)⟩

/-- A table with or without `AS` in front of its alias. -/
def spelledLexemes (asWord : Bool) (table : TableItem) : List Lexeme :=
  match table.aliasName with
  | some aliasName => word table.tableName.toList :: mark ' ' :: aliasLexemes asWord aliasName
  | none => [word table.tableName.toList]

theorem spelledLexemes_plain (table : TableItem) :
    table.spelledLexemes false = table.lexemes := by
  rw [spelledLexemes, lexemes]
  cases table.aliasName <;> rfl

theorem solid_spelledLexemes {table : TableItem} (hwritten : table.IsWritten) (asWord : Bool) :
    Solid (table.spelledLexemes asWord) := by
  have hname := (solid_name hwritten.name).1
  rw [spelledLexemes]
  cases halias : table.aliasName with
  | none => exact hname
  | some aliasName =>
      exact hname.glue_space (solid_aliasLexemes asWord (hwritten.aliasName aliasName halias))

theorem quiet_spelledLexemes {table : TableItem} (hwritten : table.IsWritten) (asWord : Bool) :
    Quiet stops (table.spelledLexemes asWord) := by
  have hname := (solid_name hwritten.name).2
  rw [spelledLexemes]
  cases halias : table.aliasName with
  | none => exact quiet_cons.mpr ⟨hname, quiet_nil _⟩
  | some aliasName =>
      have halias := quiet_aliasLexemes asWord (hwritten.aliasName aliasName halias)
      exact quiet_cons.mpr ⟨hname, quiet_cons.mpr ⟨by decide, halias⟩⟩

end TableItem

/-! ## Joins -/

namespace Lexeme

/-- Pieces in a number of parentheses. -/
def enclosed : Nat → List Lexeme → List Lexeme
  | 0, inner => inner
  | count + 1, inner => mark '(' :: (enclosed count inner ++ [mark ')'])

theorem solid_enclosed {inner : List Lexeme} (count : Nat) (hinner : Solid inner) :
    Solid (enclosed count inner) := by
  induction count with
  | zero => exact hinner
  | succ count ih => exact ih.group

theorem quiet_enclosed {labels : List Text} {inner : List Lexeme} (count : Nat)
    (hlabels : labels ⊆ stops) (hinner : Quiet labels inner) :
    Quiet labels (enclosed count inner) := by
  have hparen : ∀ c, [c] ∉ stops → (mark c).label ∉ labels := fun c hc hmem => hc (hlabels hmem)
  induction count with
  | zero => exact hinner
  | succ count ih =>
      exact quiet_cons.mpr ⟨hparen '(' (by decide), quiet_append.mpr ⟨ih,
        quiet_cons.mpr ⟨hparen ')' (by decide), quiet_nil _⟩⟩⟩

end Lexeme

namespace JoinCondition

def lexemes (condition : JoinCondition) : List Lexeme :=
  ofName (some condition.leftTable) condition.leftColumn ++ mark ' ' ::
    (condition.operator.lexemes ++ mark ' ' ::
      ofName (some condition.rightTable) condition.rightColumn)

theorem textOf_lexemes (condition : JoinCondition) :
    textOf condition.lexemes = condition.render.toList := by
  simp [lexemes, render, textOf_ofName, Operator.textOf_lexemes, Operand.qualified, text]

/-- What the text of a condition of a join needs to be read back.  The checks demand more:
a name must not be reserved, but behind or in front of a dot the reader takes it for a name
all the same. -/
structure IsWritten (condition : JoinCondition) : Prop where
  leftTable : Text.isName condition.leftTable.toList = true
  leftColumn : Text.isName condition.leftColumn.toList = true
  rightTable : Text.isName condition.rightTable.toList = true
  rightColumn : Text.isName condition.rightColumn.toList = true
  operator : condition.operator.isComparison = true

/-- The choices that the text of a condition of a join leaves: whether inequality is `!=`,
and the number of parentheses around it. -/
structure Spelling where
  bang : Bool := false
  parentheses : Nat := 0

/-- The comparison inside the parentheses. -/
def comparisonLexemes (bang : Bool) (condition : JoinCondition) : List Lexeme :=
  ofName (some condition.leftTable) condition.leftColumn ++ mark ' ' ::
    (condition.operator.spelledLexemes bang ++ mark ' ' ::
      ofName (some condition.rightTable) condition.rightColumn)

/-- The condition in a spelling. -/
def spelledLexemes (spelling : Spelling) (condition : JoinCondition) : List Lexeme :=
  enclosed spelling.parentheses (condition.comparisonLexemes spelling.bang)

theorem spelledLexemes_plain (condition : JoinCondition) :
    condition.spelledLexemes {} = condition.lexemes := by
  rw [spelledLexemes, enclosed, comparisonLexemes, Operator.spelledLexemes_plain, lexemes]

variable {condition : JoinCondition} {spelling : Spelling}

theorem solid_comparisonLexemes (hwritten : condition.IsWritten) (bang : Bool) :
    Solid (condition.comparisonLexemes bang) :=
  (solid_qualified hwritten.leftTable hwritten.leftColumn).1.glue_space
    ((condition.operator.solid_spelledLexemes bang).glue_space
      (solid_qualified hwritten.rightTable hwritten.rightColumn).1)

theorem solid_spelledLexemes (hwritten : condition.IsWritten) :
    Solid (condition.spelledLexemes spelling) :=
  solid_enclosed _ (solid_comparisonLexemes hwritten _)

/-- The comparison is the only thing in a condition of a join at which a reader may
stop. -/
theorem quiet_spelledLexemes {labels : List Text} (hwritten : condition.IsWritten)
    (hlabels : labels ⊆ stops)
    (hown : ∀ label ∈ [['='], ['<'], ['>'], ['!']], label ∉ labels) :
    Quiet labels (condition.spelledLexemes spelling) := by
  have hspace : (mark ' ').label ∉ labels := fun hmem =>
    absurd (hlabels hmem) (by decide)
  have hleft := (solid_qualified hwritten.leftTable hwritten.leftColumn).2.mono hlabels
  have hright := (solid_qualified hwritten.rightTable hwritten.rightColumn).2.mono hlabels
  simp only [List.forall_mem_cons] at hown
  obtain ⟨hequal, hless, hgreater, hbang, -⟩ := hown
  have hoperator : Quiet labels (condition.operator.spelledLexemes spelling.bang) := by
    have hcomparison := hwritten.operator
    cases hcase : condition.operator <;> rw [hcase] at hcomparison <;> cases spelling.bang <;>
      simp_all [Operator.isComparison, Operator.spelledLexemes, Operator.lexemes,
        Operator.keyword, marks, label]
  exact quiet_enclosed _ hlabels (quiet_append.mpr ⟨hleft, quiet_cons.mpr ⟨hspace,
    quiet_append.mpr ⟨hoperator, quiet_cons.mpr ⟨hspace, hright⟩⟩⟩⟩)

/-- A condition of a join as a link of a chain. -/
def link (condition : JoinCondition) : ChainLink := { front := condition.lexemes }

/-- A condition of a join in a spelling as a link of a chain. -/
def spelledLink (spelling : Spelling) (condition : JoinCondition) : ChainLink :=
  { front := condition.spelledLexemes spelling }

theorem spelledLink_plain (condition : JoinCondition) :
    condition.spelledLink {} = condition.link := by
  rw [spelledLink, spelledLexemes_plain, link]

theorem lexemes_spelledLink (spelling : Spelling) (condition : JoinCondition) :
    (condition.spelledLink spelling).lexemes = condition.spelledLexemes spelling := by
  simp [spelledLink, ChainLink.lexemes, ChainLink.row, Marked.lexemesOf]

theorem lexemes_link (condition : JoinCondition) :
    condition.link.lexemes = condition.lexemes := by
  rw [← spelledLink_plain, lexemes_spelledLink, spelledLexemes_plain]

theorem isProper_spelledLink (hwritten : condition.IsWritten) :
    (condition.spelledLink spelling).IsProper := by
  intro piece hmem
  obtain rfl : piece = condition.spelledLexemes spelling := by
    simpa [ChainLink.pieces, spelledLink] using hmem
  exact ⟨solid_spelledLexemes hwritten, quiet_spelledLexemes hwritten (by decide) (by decide)⟩

end JoinCondition

namespace JoinKind

/-- The keyword of a join. -/
def lexemes : JoinKind → List Lexeme
  | inner => [word "INNER".toList, mark ' ', word "JOIN".toList]
  | left => [word "LEFT".toList, mark ' ', word "JOIN".toList]
  | right => [word "RIGHT".toList, mark ' ', word "JOIN".toList]
  | fullOuter =>
    [word "FULL".toList, mark ' ', word "OUTER".toList, mark ' ', word "JOIN".toList]

theorem textOf_lexemes (kind : JoinKind) : textOf kind.lexemes = kind.keyword.toList := by
  cases kind <;> rfl

/-- The keyword of a join with or without the word that may be left out. -/
def spelledLexemes (long : Bool) (kind : JoinKind) : List Lexeme :=
  let join := [word "JOIN".toList]
  let outer := if long then word "OUTER".toList :: mark ' ' :: join else join
  match kind with
  | inner => if long then word "INNER".toList :: mark ' ' :: join else join
  | left => word "LEFT".toList :: mark ' ' :: outer
  | right => word "RIGHT".toList :: mark ' ' :: outer
  | fullOuter => word "FULL".toList :: mark ' ' :: outer

/-- Whether the keyword of a join is written with the word that may be left out. -/
def isLong : JoinKind → Bool
  | inner | fullOuter => true
  | left | right => false

theorem spelledLexemes_plain (kind : JoinKind) :
    kind.spelledLexemes kind.isLong = kind.lexemes := by
  cases kind <;> rfl

theorem solid_spelledLexemes (long : Bool) (kind : JoinKind) :
    Solid (kind.spelledLexemes long) := by
  have hjoin : Solid [word "JOIN".toList] := solid_keyword (by simp) rfl
  have houter : Solid [word "OUTER".toList] := solid_keyword (by simp) rfl
  have hinner : Solid [word "INNER".toList] := solid_keyword (by simp) rfl
  have hleft : Solid [word "LEFT".toList] := solid_keyword (by simp) rfl
  have hright : Solid [word "RIGHT".toList] := solid_keyword (by simp) rfl
  have hfull : Solid [word "FULL".toList] := solid_keyword (by simp) rfl
  cases long with
  | true =>
      have hlong := houter.glue_space hjoin
      cases kind with
      | inner => exact hinner.glue_space hjoin
      | left => exact hleft.glue_space hlong
      | right => exact hright.glue_space hlong
      | fullOuter => exact hfull.glue_space hlong
  | false =>
      cases kind with
      | inner => exact hjoin
      | left => exact hleft.glue_space hjoin
      | right => exact hright.glue_space hjoin
      | fullOuter => exact hfull.glue_space hjoin

end JoinKind

namespace Join

/-- What stands between a join keyword and the next one. -/
def bodyLexemes (join : Join) : List Lexeme :=
  mark ' ' :: (join.table.lexemes ++
    match join.conditions with
    | [] => []
    | first :: others =>
      mark ' ' :: word "ON".toList :: mark ' ' ::
        ChainLink.chain [' '] first.link
          (others.map fun condition => (Connector.and, condition.link)))

/-- A join behind a separator. -/
def marked (separator : Text) (join : Join) : Marked JoinMark where
  lead := marks separator
  label := .join join.kind
  mark := join.kind.lexemes
  body := join.bodyLexemes

/-- What the checks demand of a join, apart from the scope. -/
structure IsWritten (join : Join) : Prop where
  table : join.table.IsWritten
  hasConditions : join.conditions ≠ []
  conditions : ∀ condition ∈ join.conditions, condition.IsWritten

theorem textOf_lexemes (join : Join) :
    textOf (join.kind.lexemes ++ join.bodyLexemes) = join.render.toList := by
  have htable := join.table.textOf_lexemes
  have hcondition := JoinCondition.textOf_lexemes
  have hkind := join.kind.textOf_lexemes
  rw [bodyLexemes, render]
  cases join.conditions with
  | nil => simp [htable, hkind, text]
  | cons first others =>
      simp [htable, hkind, hcondition, ChainLink.textOf_chain, JoinCondition.lexemes_link,
        List.flatMap_map, Connector.keyword, String.toList_join, text]

/-- The choices that the text of a join leaves: whether the word that may be left out of its
keyword stands there, and the spellings of its table and its conditions. -/
structure Spelling where
  long : Bool
  asWord : Bool := false
  conditions : Nat → JoinCondition.Spelling := fun _ => {}

/-- Conditions behind `ON`. -/
def onLexemes : List ChainLink → List Lexeme
  | [] => []
  | first :: others =>
    mark ' ' :: word "ON".toList :: mark ' ' ::
      ChainLink.chain [' '] first (others.map fun link => (Connector.and, link))

/-- The conditions of a join in a spelling. -/
def spelledLinks (spelling : Spelling) (join : Join) : List ChainLink :=
  join.conditions.mapIdx fun place condition =>
    condition.spelledLink (spelling.conditions place)

/-- What stands between a join keyword and the next one, in a spelling. -/
def spelledBody (spelling : Spelling) (join : Join) : List Lexeme :=
  mark ' ' :: (join.table.spelledLexemes spelling.asWord ++
    onLexemes (join.spelledLinks spelling))

/-- A join in a spelling behind a separator. -/
def spelledMarked (separator : Text) (spelling : Spelling) (join : Join) : Marked JoinMark where
  lead := marks separator
  label := .join join.kind
  mark := join.kind.spelledLexemes spelling.long
  body := join.spelledBody spelling

theorem spelledMarked_plain (separator : Text) (join : Join) :
    join.spelledMarked separator { long := join.kind.isLong } = join.marked separator := by
  have hlinks : join.spelledLinks { long := join.kind.isLong } =
      join.conditions.map JoinCondition.link := by
    refine List.ext_getElem (by simp [spelledLinks]) fun place _ _ => ?_
    simp [spelledLinks, JoinCondition.spelledLink_plain]
  rw [spelledMarked, marked, JoinKind.spelledLexemes_plain, spelledBody, bodyLexemes, hlinks,
    TableItem.spelledLexemes_plain]
  cases join.conditions with
  | nil => rfl
  | cons first others => simp [onLexemes, Function.comp_def]

variable {join : Join} {spelling : Spelling}

/-- The conditions of a join are proper links, and a reader stops in them only at their
comparison. -/
theorem forall_spelledLinks (hwritten : join.IsWritten) {labels : List Text}
    (hlabels : labels ⊆ stops) (hown : ∀ label ∈ [['='], ['<'], ['>'], ['!']], label ∉ labels) :
    ∀ link ∈ join.spelledLinks spelling, link.IsProper ∧ Quiet labels link.lexemes := by
  intro link hmem
  obtain ⟨place, hplace, rfl⟩ := List.mem_mapIdx.mp hmem
  have hcondition := hwritten.conditions _ (List.getElem_mem hplace)
  rw [JoinCondition.lexemes_spelledLink]
  exact ⟨JoinCondition.isProper_spelledLink hcondition,
    JoinCondition.quiet_spelledLexemes hcondition hlabels hown⟩

theorem spelledLinks_ne_nil (hwritten : join.IsWritten) : join.spelledLinks spelling ≠ [] := by
  simpa [spelledLinks] using hwritten.hasConditions

theorem solid_spelledBody (hwritten : join.IsWritten) :
    Solid (join.kind.spelledLexemes spelling.long ++ join.spelledBody spelling) := by
  have hkind := join.kind.solid_spelledLexemes spelling.long
  have htable := TableItem.solid_spelledLexemes hwritten.table spelling.asWord
  have hon : Solid [word "ON".toList] := solid_keyword (by simp) rfl
  have hlinks := fun link hmem =>
    (@forall_spelledLinks join spelling hwritten [] (List.nil_subset _) (by simp) link hmem).1
  rw [spelledBody]
  cases hcases : join.spelledLinks spelling with
  | nil => exact absurd hcases (spelledLinks_ne_nil hwritten)
  | cons first others =>
      rw [hcases] at hlinks
      have hchain := @ChainLink.solid_chain [' '] first
        (others.map fun link => (Connector.and, link)) (by simp [isLayoutBlank]) (by simp)
        (hlinks first List.mem_cons_self) (List.forall_mem_map.mpr fun link hmem =>
          hlinks link (List.mem_cons_of_mem first hmem))
      exact hkind.glue_space (htable.glue_space (hon.glue_space hchain))

theorem quiet_spelledBody {labels : List Text} (hwritten : join.IsWritten)
    (hlabels : labels ⊆ stops)
    (hown : ∀ label ∈ ["ON".toList, "AND".toList, ['='], ['<'], ['>'], ['!']], label ∉ labels) :
    Quiet labels (join.spelledBody spelling) := by
  have hspace : (mark ' ').label ∉ labels := fun hmem =>
    absurd (hlabels hmem) (by decide)
  have htable := (TableItem.quiet_spelledLexemes hwritten.table spelling.asWord).mono hlabels
  obtain ⟨hon, hown⟩ := List.forall_mem_cons.mp hown
  obtain ⟨hand, hown⟩ := List.forall_mem_cons.mp hown
  have hlinks := fun link hmem =>
    (@forall_spelledLinks join spelling hwritten labels hlabels hown link hmem).2
  refine quiet_cons.mpr ⟨hspace, quiet_append.mpr ⟨htable, ?_⟩⟩
  cases hcases : join.spelledLinks spelling with
  | nil => exact quiet_nil _
  | cons first others =>
      rw [hcases] at hlinks
      refine quiet_cons.mpr ⟨hspace, quiet_cons.mpr ⟨hon, quiet_cons.mpr ⟨hspace,
        quiet_append.mpr ⟨hlinks first List.mem_cons_self, ?_⟩⟩⟩⟩
      intro lexeme hmem
      simp only [List.flatMap_map, List.mem_flatMap, marks, List.map_cons, List.map_nil,
        List.cons_append, List.nil_append, List.mem_cons] at hmem
      obtain ⟨link, hmem, rfl | rfl | rfl | hlexeme⟩ := hmem
      · exact hspace
      · exact hand
      · exact hspace
      · exact hlinks link (List.mem_cons_of_mem first hmem) lexeme hlexeme

end Join

end SelectForm

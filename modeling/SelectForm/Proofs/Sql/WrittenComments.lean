import Mathlib
import SelectForm.Proofs.Sql.StatementParts
import SelectForm.Proofs.Sql.WrittenLiterals

/-!
# Comments in front of written statements

The comments of a layout describe the query: each line of the summary is a line
comment, or all of them are one block comment.  The summary holds names and counts
only, so it is ASCII, no line ends early and no block does either.
-/

namespace SelectForm

open Lexeme

namespace TableItem

/-- ASCII characters that end neither a line comment nor a block comment. -/
def isSummaryChar (c : Char) : Bool := c.toNat < 0x80 && c != '\n' && c != '*'

theorem isSummaryChar_of_isNameTail {c : Char} (hname : Text.isNameTail c = true) :
    isSummaryChar c = true := by
  have hascii := Text.toNat_lt_of_isNameTail hname
  have hline : c ≠ '\n' := by
    rintro rfl
    exact absurd hname (by decide)
  have hstar : c ≠ '*' := by
    rintro rfl
    exact absurd hname (by decide)
  simp [isSummaryChar, hascii, hline, hstar]

theorem forall_name {name : String} (hvalid : Identifier.isValid name = true) :
    ∀ c ∈ name.toList, isSummaryChar c = true := fun c hc =>
  isSummaryChar_of_isNameTail ((forall_of_isValid hvalid).2 c hc)

/-- A written table holds names, maybe a point between two of them, and a blank. -/
theorem forall_render {table : TableItem} (hwritten : table.IsWritten) :
    ∀ c ∈ table.render.toList, isSummaryChar c = true := by
  have hname : ∀ c ∈ table.tableName.toList, isSummaryChar c = true := by
    rcases Identifier.isValidTable_cases hwritten.name with
      hname | ⟨schema, name, hschema, hname, htable⟩
    · exact forall_name hname
    · rw [htable]
      exact List.forall_mem_append.mpr
        ⟨forall_name hschema, List.forall_mem_cons.mpr ⟨rfl, forall_name hname⟩⟩
  rw [render]
  cases halias : table.aliasName with
  | none => exact hname
  | some aliasName =>
      have haliasName := forall_name (hwritten.aliasName aliasName halias)
      intro c hc
      simp only [String.toList_append, List.mem_append] at hc
      rcases hc with (hc | hc) | hc
      · exact hname c hc
      · obtain rfl : c = ' ' := by simpa using hc
        rfl
      · exact haliasName c hc

end TableItem

namespace Query

open TableItem

variable {query : Query} {layout : Layout}

theorem forall_intercalate {separator : String} {entries : List String}
    (hseparator : ∀ c ∈ separator.toList, isSummaryChar c = true)
    (hentries : ∀ entry ∈ entries, ∀ c ∈ entry.toList, isSummaryChar c = true) :
    ∀ c ∈ (separator.intercalate entries).toList, isSummaryChar c = true := by
  cases entries with
  | nil => simp
  | cons first others =>
      rw [toList_intercalate_cons]
      refine List.forall_mem_append.mpr ⟨hentries first List.mem_cons_self, fun c hc => ?_⟩
      obtain ⟨entry, hentry, hc⟩ := List.mem_flatMap.mp hc
      rcases List.mem_append.mp hc with hc | hc
      · exact hseparator c hc
      · exact hentries entry (List.mem_cons_of_mem first hentry) c hc

theorem forall_toString (number : Nat) :
    ∀ c ∈ (toString number).toList, isSummaryChar c = true := fun c hc =>
  isSummaryChar_of_isNameTail (isNameTail_of_isDigit ((forall_digits number).2 c hc))

/-- The summary of a written query is ASCII and ends no comment. -/
theorem forall_summary (hwritten : query.IsWritten) :
    ∀ line ∈ query.summary, ∀ c ∈ line.toList, isSummaryChar c = true := by
  have htables : ∀ entry ∈ query.tables.map TableItem.render ++
      query.joins.map fun join => join.table.render,
        ∀ c ∈ entry.toList, isSummaryChar c = true := by
    intro entry hmem
    rcases List.mem_append.mp hmem with hmem | hmem
    · obtain ⟨table, htable, rfl⟩ := List.mem_map.mp hmem
      exact forall_render (hwritten.tables table htable)
    · obtain ⟨join, hjoin, rfl⟩ := List.mem_map.mp hmem
      exact forall_render (hwritten.joins join hjoin).table
  have hword : ∀ word : String, word.toList.all isSummaryChar = true →
      ∀ c ∈ word.toList, isSummaryChar c = true := fun word hall => List.all_eq_true.mp hall
  intro line hmem
  simp only [summary, List.mem_cons, List.not_mem_nil, or_false] at hmem
  rcases hmem with rfl | rfl | rfl
  · rw [String.toList_append]
    exact List.forall_mem_append.mpr ⟨hword "Tables: " rfl,
      forall_intercalate (hword ", " rfl) htables⟩
  · rw [String.toList_append]
    exact List.forall_mem_append.mpr ⟨hword "Joins: " rfl, forall_toString _⟩
  · simp only [String.toList_append]
    exact List.forall_mem_append.mpr ⟨List.forall_mem_append.mpr ⟨List.forall_mem_append.mpr
      ⟨List.forall_mem_append.mpr ⟨hword "Filters: " rfl, forall_toString _⟩,
        hword " WHERE, " rfl⟩, forall_toString _⟩,
          hword " HAVING" rfl⟩

/-! ## Comments as pieces -/

/-- The comments in front of a statement. -/
def preamble (layout : Layout) (query : Query) : List Lexeme :=
  if !layout.comments then
    []
  else if layout.multiline then
    query.summary.flatMap fun line => [lineComment (' ' :: line.toList), mark '\n']
  else
    [blockComment (' ' :: ("; ".intercalate query.summary).toList ++ [' ']), mark ' ']

/-- The text of a query under a layout. -/
theorem textOf_preamble (layout : Layout) (query : Query) :
    textOf (query.preamble layout ++ query.lexemes layout) = (query.render layout).toList := by
  have hstatement := query.textOf_lexemes layout
  rw [textOf_append, hstatement, preamble, render]
  cases layout.comments with
  | false => rfl
  | true =>
      cases layout.multiline with
      | true =>
          simp only [Bool.not_true, Bool.false_eq_true, if_false, if_true, summary,
            String.toList_append, statement, List.map_cons, List.map_nil, toList_intercalate_cons]
          simp [Lexeme.text]
      | false =>
          simp only [Bool.not_true, Bool.false_eq_true, if_false, String.toList_append, statement]
          simp [Lexeme.text]

/-- Every piece in front of a statement is a comment or a blank. -/
theorem forall_preamble {holds : Lexeme → Prop}
    (hline : ∀ line ∈ query.summary, holds (lineComment (' ' :: line.toList)))
    (hblock : holds (blockComment (' ' :: ("; ".intercalate query.summary).toList ++ [' '])))
    (hblank : ∀ c, isLayoutBlank c = true → holds (mark c)) :
    ∀ lexeme ∈ query.preamble layout, holds lexeme := by
  rw [preamble]
  cases layout.comments with
  | false => exact List.forall_mem_nil _
  | true =>
      cases layout.multiline with
      | true =>
          intro lexeme hmem
          obtain ⟨line, hmemLine, hmem⟩ := List.mem_flatMap.mp hmem
          rcases List.mem_pair.mp hmem with rfl | rfl
          · exact hline line hmemLine
          · exact hblank '\n' rfl
      | false =>
          intro lexeme hmem
          rcases List.mem_pair.mp hmem with rfl | rfl
          · exact hblock
          · exact hblank ' ' rfl

/-- Line comments in front of a text end with their lines. -/
theorem lexed_lines {lines : List String} {rest : List Lexeme}
    (hlines : ∀ line ∈ lines, ∀ c ∈ line.toList, isSummaryChar c = true)
    (hrest : Lexed none rest) :
    Lexed none ((lines.flatMap fun line => [lineComment (' ' :: line.toList), mark '\n']) ++
      rest) := by
  induction lines with
  | nil => exact hrest
  | cons line lines ih =>
      have hproper : '\n' ∉ ' ' :: line.toList := by
        intro hmem
        rcases List.mem_cons.mp hmem with hspace | hmem
        · exact absurd hspace (by decide)
        · exact absurd (hlines line List.mem_cons_self '\n' hmem) (by decide)
      have hothers := ih fun other hmem => hlines other (List.mem_cons_of_mem line hmem)
      exact ⟨hproper, .inr rfl, ⟨rfl, rfl⟩, ⟨by simp, by simp⟩, hothers⟩

theorem forall_blockSummary (hwritten : query.IsWritten) :
    ∀ c ∈ ' ' :: ("; ".intercalate query.summary).toList ++ [' '], isSummaryChar c = true := by
  have hseparator : ∀ c ∈ "; ".toList, isSummaryChar c = true :=
    List.all_eq_true.mp (show "; ".toList.all isSummaryChar = true from rfl)
  have hsummary := forall_intercalate hseparator (forall_summary hwritten)
  exact List.forall_mem_append.mpr
    ⟨List.forall_mem_cons.mpr ⟨rfl, hsummary⟩, List.forall_mem_singleton.mpr rfl⟩

/-- A block comment in front of a text ends where it was written to end. -/
theorem isProper_blockComment (hwritten : query.IsWritten) :
    (blockComment (' ' :: ("; ".intercalate query.summary).toList ++ [' '])).IsProper := by
  intro hinside
  have hstar := forall_blockSummary hwritten '*' (hinside.subset List.mem_cons_self)
  exact absurd hstar (by decide)

/-- The text of a query is read piece by piece, with its comments. -/
theorem lexed_preamble (hwritten : query.IsWritten) :
    Lexed none (query.preamble layout ++ query.lexemes layout) := by
  have hstatement := (@solid_lexemes query layout hwritten).clean.lexed
  rw [preamble]
  cases layout.comments with
  | false => exact hstatement
  | true =>
      cases layout.multiline with
      | true => exact lexed_lines (forall_summary hwritten) hstatement
      | false =>
          exact ⟨isProper_blockComment hwritten, trivial, ⟨rfl, rfl⟩, ⟨by simp, by simp⟩,
            hstatement⟩

end Query

end SelectForm

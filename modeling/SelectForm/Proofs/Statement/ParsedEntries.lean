import Mathlib
import SelectForm.Proofs.Lexis.Entries
import SelectForm.Proofs.Sql.ScannedStatement
import SelectForm.Proofs.Statement.BeforePaging
import SelectForm.Proofs.Statement.RoundTrip

/-!
# Nothing is lost and nothing is added

The entries of a statement are its words and literals in front of LIMIT and OFFSET, without
reserved words.  They are the entries of the tokens of the query that is read from it.  What
is written for the query is read as the same query, so it has the same entries.
-/

namespace SelectForm

open Lexeme

/-- The words in the code of a text and its literals, up to the first LIMIT or OFFSET outside
parentheses; words that are reserved are left out and the others put in capitals.  Comments
have no entries, so they may be masked before. -/
def Text.entries (text : Text) : List Entry :=
  (text.maskComments.beforePaging.spans.flatMap Span.entries).filterMap Entry.kept?

namespace Lexeme

variable {row : List Lexeme}

/-- A comment, or the spaces in its place, hold no entries. -/
theorem entries_covered (hfine : ∀ lexeme ∈ row, lexeme.IsFine) :
    entries (covered row) = entries row := by
  have hspaces : ∀ (count : Nat) (row : List Lexeme),
      entries (marks (List.replicate count ' ') ++ row) = entries row := by
    intro count row
    induction count with
    | zero => rfl
    | succ count ih => exact (entries_mark rfl).trans ih
  have hhead : ∀ row : List Lexeme, (∀ lexeme ∈ row, lexeme.IsFine) →
      (covered row).head?.any (isMark Text.isNameTail) = row.head?.any (isMark Text.isNameTail) := by
    rintro (_ | ⟨lexeme, row⟩) hfine
    · rfl
    · have hlexeme := hfine lexeme List.mem_cons_self
      obtain ⟨count, hcount⟩ := Nat.exists_eq_succ_of_ne_zero hlexeme.size_pos.ne'
      cases lexeme with
      | word _ => exact hlexeme.elim
      | mark _ | literal _ _ => rfl
      | lineComment _ | blockComment _ =>
          rw [covered, List.flatMap_cons, cover, if_pos (by rfl), hcount]
          rfl
  induction row with
  | nil => rfl
  | cons lexeme row ih =>
      obtain ⟨hlexeme, hrow⟩ := List.forall_mem_cons.mp hfine
      have hrest := ih hrow
      rw [covered, List.flatMap_cons, ← covered]
      cases lexeme with
      | word _ => exact hlexeme.elim
      | mark c =>
          rw [show cover (mark c) = [mark c] from rfl, List.singleton_append, entries, entries,
            hhead row hrow, hrest]
      | literal quote content => exact congrArg (Entry.literal content :: ·) hrest
      | lineComment _ | blockComment _ => exact (hspaces _ _).trans hrest

theorem mem_covered {c : Char} (hmem : mark c ∈ covered row) :
    c = ' ' ∨ mark c ∈ row := by
  obtain ⟨lexeme, hlexeme, hc⟩ := List.mem_flatMap.mp hmem
  rw [cover] at hc
  split at hc
  · obtain ⟨d, hd, heq⟩ := List.mem_map.mp hc
    obtain rfl := mark.inj heq
    exact .inl (List.eq_of_mem_replicate hd)
  · rw [List.mem_singleton.mp hc]
    exact .inr hlexeme

end Lexeme

/-- Masking comments changes no words and no literals. -/
theorem Text.entries_spans_maskComments {text : Text} (hclosed : text.endsOpen = false) :
    text.maskComments.spans.flatMap Span.entries = text.spans.flatMap Span.entries := by
  obtain ⟨row, hfine, rfl⟩ := exists_fine hclosed
  rw [hfine.maskComments_textOf, hfine.sound_covered.fine.spans_textOf, hfine.spans_textOf,
    entries_spansOf 0 hfine.isFine, entries_spansOf 0 hfine.sound_covered.fine.isFine,
    entries_covered hfine.isFine]

namespace Query

variable {query : Query} {text : Text}

/-- The part of a statement in front of LIMIT and OFFSET holds the tokens of the query, and
behind them at most the end of the statement. -/
theorem exists_beforePaging {row : List Lexeme} (hread : ofText text = .ok query)
    (hsound : Sound row) (htext : text.maskComments = textOf row) :
    ∃ front tail, front ++ marks tail <+: row ∧ Lexeme.Holds front query.tokens ∧ tail.IsEnd ∧
      text.maskComments.beforePaging = textOf (front ++ marks tail) := by
  obtain ⟨statement, behind, main, paging, rfl, hcuts, hmain, hpaging, hholds, -, hend⟩ :=
    exists_cuts_of_ofText hread hsound htext
  have hrest := (atomic_append.mp hsound.atomic).1.dropWhile isGap
  obtain ⟨tail, cuts, htail, hfound⟩ := hcuts.exists_paging hrest hmain hpaging hend
  obtain ⟨gap, hgap, hblank⟩ := exists_takeWhile_isMark Text.isAsciiBlank statement
  rw [← funext isGap_eq] at hgap
  have hbefore : (lastOf none (marks gap)).any Text.isWordChar = false := by
    cases gap with
    | nil => rfl
    | cons c gap => exact Cuts.lastOf_gap (List.cons_ne_nil c gap) hblank
  have hwhole : Cuts RowFinder.paging 0 none (statement ++ marks behind)
      (marks gap ++ (main.flatMap RowCut.row ++ marks tail)) cuts := by
    have hsplit := @List.takeWhile_append_dropWhile _ isGap statement
    rw [hgap] at hsplit
    rw [← hsplit, List.append_assoc]
    refine (Cuts.gap_iff pagingKeywords_follows hblank).mpr ⟨_, rfl, ?_⟩
    exact hfound.congr_before (atomic_append.mpr ⟨hrest, atomic_marks behind⟩) rfl hbefore
  have hfollows := hsound.follows pagingKeywords_follows
    (show (Fragment.mk text.maskComments 0).text = _ from htext) hwhole
  rw [hgap] at hholds
  refine ⟨marks gap ++ main.flatMap RowCut.row, tail, ?_, hholds, htail, ?_⟩
  · rw [hwhole.row_eq, List.append_assoc]
    exact List.prefix_append _ _
  · rw [List.append_assoc]
    exact hfollows.head_eq

/-- The entries of a statement that is read are those of the tokens of its query. -/
theorem entries_of_ofText (hread : ofText text = .ok query)
    (hcode : ∀ c ∈ text.code, Text.foldUpper c = c.toUpper) :
    text.entries = query.tokens.flatMap Token.entries := by
  obtain ⟨row, hfine, rfl⟩ := exists_fine_of_ofText hread
  obtain ⟨front, tail, hinitial, hholds, hend, hfront⟩ :=
    exists_beforePaging hread hfine.sound_covered hfine.maskComments_textOf
  have hsound := hfine.sound_covered.part hinitial.isInfix
  have hmark : ∀ c, mark c ∈ front → Text.foldUpper c = c.toUpper := by
    intro c hmem
    rcases mem_covered (hinitial.subset (List.mem_append_left _ hmem)) with rfl | hmem
    · rfl
    · apply hcode
      rw [Text.code, Text.spansOfKind, hfine.spans_textOf, code_spansOf]
      exact List.mem_flatMap.mpr ⟨mark c, List.mem_filter.mpr ⟨hmem, rfl⟩, List.mem_singleton_self c⟩
  have htail : entries (marks tail) = [] := by
    rw [entries_marks, Entry.ofCode, Text.runs_of_forall_not, List.map_nil]
    rcases hend with rfl | ⟨gap, rfl, hgap⟩
    · exact List.forall_mem_nil _
    · refine List.forall_mem_cons.mpr ⟨rfl, fun c hc => ?_⟩
      by_contra hname
      have hblank := hgap c hc
      rw [Text.isBlank_of_isNameTail (Bool.of_not_eq_false hname)] at hblank
      exact absurd hblank (by decide)
  have hhead : (marks tail).head?.any (isMark Text.isNameTail) = false := by
    rcases hend with rfl | ⟨gap, rfl, -⟩ <;> rfl
  rw [Text.entries, hfront, hsound.fine.spans_textOf, entries_spansOf 0 hsound.fine.isFine,
    entries_append hholds.atomic (.inr hhead), htail, List.append_nil, hholds.filterMap_entries hmark]

/-- Neither the long s nor the Kelvin sign stands in the code of a written statement. -/
theorem foldUpper_of_mem_code {layout : Layout} (hwritten : query.IsWritten) :
    ∀ c ∈ Text.code (query.render layout).toList, Text.foldUpper c = c.toUpper := fun c hc =>
  (narrow_code hwritten c hc).elim Text.foldUpper_eq Text.foldUpper_of_isDecimal

/-- A statement that is ASCII outside its literals and comments, and the text that is written
for its query under any layout, have the same words and literals in front of LIMIT and
OFFSET. -/
theorem entries_render_of_parse {sql : String} (layout : Layout) (hparse : parse sql = .ok query)
    (hascii : ∀ c ∈ Text.code sql.toList, c.toNat < 0x80) :
    Text.entries sql.toList = Text.entries (query.render layout).toList := by
  have hwritten := isWritten_of_ofText hparse
  have hread := @parse_render_of_isWritten query layout hwritten
  rw [(isCanonical_of_parse hparse).canonical_eq] at hread
  rw [entries_of_ofText hparse fun c hc => Text.foldUpper_eq (hascii c hc),
    entries_of_ofText hread (foldUpper_of_mem_code hwritten)]

/-- Words in any case, a comment, a literal in other quotation marks and LIMIT behind them. -/
theorem entries_render_of_parse_mixed :
    let sql := "select count(*) c from t as u /* x */ where u.k <> \"it's\" and n = :p limit 5"
    ∃ query, parse sql = .ok query ∧
      Text.entries sql.toList = Text.entries (query.render .compact).toList := by
  intro sql
  have hread : (parse sql).isOk = true := by decide +kernel
  have hascii : (Text.code sql.toList).all (fun c => decide (c.toNat < 0x80)) = true := by
    decide +kernel
  cases hparse : parse sql with
  | error _ => simp [hparse, Except.isOk, Except.toBool] at hread
  | ok query =>
      exact ⟨query, rfl, entries_render_of_parse .compact hparse (by simpa using hascii)⟩

end Query

end SelectForm

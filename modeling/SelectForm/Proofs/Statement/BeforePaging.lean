import Mathlib
import SelectForm.Proofs.Statement.HeldStatement

/-!
# The part of a statement in front of LIMIT and OFFSET

The first LIMIT or OFFSET outside parentheses is where the last clause of a statement
begins.  A search for these two keywords alone passes over the keywords of all other
clauses, and over a semicolon at the end.
-/

namespace SelectForm

open Lexeme

/-- The keywords of the last clause. -/
def Text.pagingKeywords : List (Keyword × Unit) := [(.limit, ()), (.offset, ())]

/-- The part of a text in front of its first LIMIT or OFFSET outside parentheses, or the whole
text. -/
def Text.beforePaging (text : Text) : Text :=
  ((Fragment.mk text 0).segment (.ofKeywords Text.pagingKeywords)).head.text

variable {row back : List Lexeme} {before : Option Char} {word text gap : Text}

/-! ## Words -/

namespace Keyword

variable {keyword : Keyword}

/-- A word does not go on into a text that begins with no letter. -/
theorem restWord?_append (hword : ∀ c ∈ word, c.isUpper = true)
    (htext : text.head?.any Char.isAlpha = false) :
    restWord? word (row ++ marks text) = (restWord? word row).map (· ++ marks text) := by
  induction word generalizing row with
  | nil => rfl
  | cons c word ih =>
      obtain ⟨hc, hword⟩ := List.forall_mem_cons.mp hword
      cases row with
      | nil =>
          cases text with
          | nil => rfl
          | cons d text =>
              have hne : d.toUpper ≠ c := by
                rintro rfl
                rw [Char.isUpper_toUpper_eq_isAlpha] at hc
                rw [List.head?_cons, Option.any_some, hc] at htext
                exact absurd htext (by decide)
              exact if_neg hne
      | cons lexeme row =>
          cases lexeme with
          | mark d =>
              rw [List.cons_append, restWord?, restWord?]
              split
              · exact ih hword
              · rfl
          | word _ | literal _ _ | lineComment _ | blockComment _ => rfl

/-- A keyword of one word is found with a semicolon behind the row as it is found in the row. -/
theorem rest?_append (hform : keyword.form = .phrase [word]) (hword : ∀ c ∈ word, c.isUpper = true)
    (hend : text.IsEnd) :
    keyword.rest? before (row ++ marks text) = (keyword.rest? before row).map (· ++ marks text) := by
  have hhead : text.head?.any Char.isAlpha = false ∧ text.head?.any Text.isWordChar = false := by
    rcases hend with rfl | ⟨gap, rfl, -⟩
    · exact ⟨rfl, rfl⟩
    · exact ⟨rfl, rfl⟩
  rw [rest?_of_word hform, rest?_of_word hform, restWord?_append hword hhead.1]
  split
  · rfl
  · cases restWord? word row with
    | none => rfl
    | some back =>
        have hback : (textOf (back ++ marks text)).head?.any Text.isWordChar =
            (textOf back).head?.any Text.isWordChar := by
          rw [textOf_append, textOf_marks, List.head?_append]
          cases (textOf back).head? with
          | none => exact hhead.2
          | some c => rfl
        rw [Option.map_some, Option.filter_some, Option.filter_some, hback]
        split <;> rfl

/-- Behind a character of a word no phrase begins. -/
theorem rest?_of_isWordChar {words : List Text} (hform : keyword.form = .phrase words)
    (hbefore : before.any Text.isWordChar = true) : keyword.rest? before row = none := by
  simp only [rest?, hform, if_pos hbefore]

end Keyword

/-! ## The search for LIMIT and OFFSET -/

/-- The search on rows. -/
abbrev RowFinder.paging : RowFinder Unit := RowFinder.ofKeywords Text.pagingKeywords

theorem pagingKeywords_follows :
    (Finder.ofKeywords Text.pagingKeywords).Follows RowFinder.paging :=
  Finder.ofKeywords_follows (by decide)

namespace RowFinder

theorem paging_eq_none_iff :
    paging before row = none ↔
      Keyword.limit.rest? before row = none ∧ Keyword.offset.rest? before row = none := by
  simp [paging, ofKeywords, Text.pagingKeywords]

theorem paging_of_isWordChar (hbefore : before.any Text.isWordChar = true) :
    paging before row = none :=
  paging_eq_none_iff.mpr
    ⟨Keyword.rest?_of_isWordChar rfl hbefore, Keyword.rest?_of_isWordChar rfl hbefore⟩

theorem isUpper_limit : ∀ c ∈ "LIMIT".toList, c.isUpper = true :=
  Lexeme.Holds.isUpper_of_mem_reservedWords (by decide)

theorem isUpper_offset : ∀ c ∈ "OFFSET".toList, c.isUpper = true :=
  Lexeme.Holds.isUpper_of_mem_reservedWords (by decide)

theorem paging_append_eq_none_iff (hend : text.IsEnd) :
    paging before (row ++ marks text) = none ↔ paging before row = none := by
  rw [paging_eq_none_iff, paging_eq_none_iff, Keyword.rest?_append rfl isUpper_limit hend,
    Keyword.rest?_append rfl isUpper_offset hend, Option.map_eq_none_iff, Option.map_eq_none_iff]

/-- What is in front of a place matters only if it is a character of a word. -/
theorem paging_congr {before' : Option Char} (hbefore : before.any Text.isWordChar = false)
    (hbefore' : before'.any Text.isWordChar = false) : paging before row = paging before' row := by
  simp only [paging, ofKeywords, Text.pagingKeywords, List.findSome?_cons, List.findSome?_nil,
    Keyword.rest?_of_word (show Keyword.limit.form = .phrase ["LIMIT".toList] from rfl),
    Keyword.rest?_of_word (show Keyword.offset.form = .phrase ["OFFSET".toList] from rfl),
    hbefore, hbefore']

/-- Neither keyword is found where another word stands. -/
theorem paging_of_word (hne : ∀ other ∈ ["LIMIT".toList, "OFFSET".toList],
      ¬ other <+: word ∧ ¬ word <+: other) (htext : text.map Char.toUpper = word) :
    paging before (marks text ++ row) = none := by
  have hnone : ∀ keyword : Keyword, ∀ other ∈ ["LIMIT".toList, "OFFSET".toList],
      keyword.form = .phrase [other] → keyword.rest? before (marks text ++ row) = none := by
    intro keyword other hmem hform
    obtain ⟨hother, hword⟩ := hne other hmem
    rw [Keyword.rest?_of_word hform, Keyword.restWord?_of_ne hother hword htext]
    split <;> rfl
  exact paging_eq_none_iff.mpr ⟨hnone _ _ (by simp) rfl, hnone _ _ (by simp) rfl⟩

end RowFinder

namespace Cuts

open RowFinder

variable {depth : Int} {head : List Lexeme} {cuts : List (RowCut Unit)}

/-- A word that is neither LIMIT nor OFFSET is passed over. -/
theorem pass_word (hnone : paging before (marks text ++ row) = none)
    (htext : ∀ c ∈ text, c.isAlpha = true)
    (hcuts : Cuts paging depth (lastOf before (marks text)) row head cuts) :
    Cuts paging depth before (marks text ++ row) (marks text ++ head) cuts := by
  induction text generalizing before with
  | nil => exact hcuts
  | cons c text ih =>
      obtain ⟨hc, htext⟩ := List.forall_mem_cons.mp htext
      have hword : Text.isWordChar c = true := by simp [Text.isWordChar, Char.isAlphanum, hc]
      have hnesting : (Lexeme.mark c).nesting = 0 := by
        have hne : ∀ d : Char, d.isAlpha = false → c ≠ d := by
          rintro d hd rfl
          rw [hc] at hd
          exact absurd hd (by decide)
        simp [nesting, hne '(' (by decide), hne ')' (by decide)]
      refine .pass (fun _ => hnone) ?_
      rw [hnesting, add_zero]
      exact ih (paging_of_isWordChar hword) htext hcuts

/-- The end of a statement is passed over. -/
theorem pass_end (hend : text.IsEnd) : Cuts paging depth before (marks text) (marks text) [] := by
  have hpass : ∀ (text : Text) (depth : Int) (before : Option Char),
      (∀ c ∈ text, c = ';' ∨ Text.isBlank c = true) →
        Cuts paging depth before (marks text) (marks text) [] := by
    intro text depth before htext
    induction text generalizing before depth with
    | nil => exact .nil
    | cons c text ih =>
        obtain ⟨hc, htext⟩ := List.forall_mem_cons.mp htext
        refine .pass (fun _ => ?_) (ih _ _ htext)
        have hletter : c.isAlpha = false := by
          by_contra halpha
          have hname : Text.isNameTail c = true := by
            simp [Text.isNameTail, Char.isAlphanum, Bool.of_not_eq_false halpha]
          rcases hc with rfl | hblank
          · exact absurd hname (by decide)
          · rw [Text.isBlank_of_isNameTail hname] at hblank
            exact absurd hblank (by decide)
        have hne : ∀ d : Char, d.isUpper = true → c.toUpper ≠ d := by
          rintro d hd rfl
          rw [Char.isUpper_toUpper_eq_isAlpha, hletter] at hd
          exact absurd hd (by decide)
        have hnone : ∀ keyword : Keyword, ∀ other ∈ ["LIMIT".toList, "OFFSET".toList],
            keyword.form = .phrase [other] → keyword.rest? before (marks (c :: text)) = none := by
          intro keyword other hmem hform
          have hword : Keyword.restWord? other (marks (c :: text)) = none := by
            simp only [List.mem_cons, List.not_mem_nil, or_false] at hmem
            rcases hmem with rfl | rfl
            · exact if_neg (hne 'L' (by decide))
            · exact if_neg (hne 'O' (by decide))
          rw [Keyword.rest?_of_word hform, hword]
          split <;> rfl
        exact paging_eq_none_iff.mpr ⟨hnone _ _ (by simp) rfl, hnone _ _ (by simp) rfl⟩
  refine hpass text depth before ?_
  rcases hend with rfl | ⟨gap, rfl, hgap⟩
  · exact List.forall_mem_nil _
  · exact List.forall_mem_cons.mpr ⟨.inl rfl, fun c hc => .inr (hgap c hc)⟩

theorem form_of_entry : ∀ entry ∈ LocatedClause.entries, entry.2.2 ≠ .paging →
    ∃ word words, entry.1.form = .phrase (word :: words) ∧ (words = [] ∨ words = ["BY".toList]) ∧
      (∀ other ∈ ["LIMIT".toList, "OFFSET".toList], ¬ other <+: word ∧ ¬ word <+: other) ∧
      ∀ c ∈ word, c.isUpper = true := by
  intro entry hmem hpaging
  have hupper : ∀ word ∈ Identifier.reservedWords, ∀ c ∈ word.toList, c.isUpper = true :=
    fun _ => Lexeme.Holds.isUpper_of_mem_reservedWords
  fin_cases hmem
  · exact ⟨"SELECT".toList, [], rfl, .inl rfl, by decide, hupper "SELECT" (by decide)⟩
  · exact ⟨"FROM".toList, [], rfl, .inl rfl, by decide, hupper "FROM" (by decide)⟩
  · exact ⟨"WHERE".toList, [], rfl, .inl rfl, by decide, hupper "WHERE" (by decide)⟩
  · exact ⟨"GROUP".toList, _, rfl, .inr rfl, by decide, hupper "GROUP" (by decide)⟩
  · exact ⟨"HAVING".toList, [], rfl, .inl rfl, by decide, hupper "HAVING" (by decide)⟩
  · exact ⟨"ORDER".toList, _, rfl, .inr rfl, by decide, hupper "ORDER" (by decide)⟩
  · exact absurd rfl hpaging
  · exact absurd rfl hpaging

/-- The keyword of another clause is passed over. -/
theorem pass_keyword {entry : Keyword × String × Clause} (hmem : entry ∈ LocatedClause.entries)
    (hpaging : entry.2.2 ≠ .paging) (hspells : entry.1.Spells text)
    (hcuts : Cuts paging depth (lastOf before (marks text)) row head cuts) :
    Cuts paging depth before (marks text ++ row) (marks text ++ head) cuts := by
  obtain ⟨word, words, hform, hwords, hne, hupper⟩ := form_of_entry entry hmem hpaging
  simp only [Keyword.Spells, hform] at hspells
  obtain ⟨first, rest, rfl, hfirst, hrest⟩ := hspells
  rw [marks_append, lastOf_append] at hcuts
  rw [marks_append, List.append_assoc, List.append_assoc]
  refine pass_word (paging_of_word hne hfirst) (Keyword.isAlpha_of_map_toUpper hupper hfirst) ?_
  rcases hwords with rfl | rfl
  · cases hrest
    exact hcuts
  · cases hrest with
    | @cons _ gap second _ _ _ hgap hsecond hnil =>
        cases hnil
        rw [List.append_nil, marks_append, lastOf_append] at hcuts
        rw [List.append_nil, marks_append, List.append_assoc, List.append_assoc]
        refine (gap_iff pagingKeywords_follows hgap).mpr ⟨_, rfl, ?_⟩
        have hby : ∀ c ∈ "BY".toList, c.isUpper = true :=
          Lexeme.Holds.isUpper_of_mem_reservedWords (by decide)
        exact pass_word (paging_of_word (by decide) hsecond)
          (Keyword.isAlpha_of_map_toUpper hby hsecond) hcuts

/-- A row is cut where a mark is found. -/
theorem exists_of_seek {c : Char} (htop : (Lexeme.mark c).isTopLevel depth = true)
    (hatomic : Atomic (.mark c :: row)) (hseek : paging before (.mark c :: row) ≠ none) :
    ∃ cuts, Cuts paging depth before (.mark c :: row) [] cuts := by
  obtain ⟨⟨label, back⟩, hfound⟩ := Option.ne_none_iff_exists'.mp hseek
  obtain ⟨text, hne, hrow⟩ := pagingKeywords_follows.spelled before _ label back hfound
  obtain ⟨d, text, rfl⟩ := List.exists_cons_of_ne_nil hne
  obtain ⟨hc, rfl⟩ := List.cons.inj hrow
  obtain rfl := mark.inj hc
  obtain ⟨head, cuts, hcuts⟩ := exists_cuts pagingKeywords_follows depth
    (lastOf before (marks (c :: text))) (atomic_append.mp (atomic_cons.mp hatomic).2).2
  exact ⟨_, .mark htop rfl hfound hcuts⟩

/-- Blanks in front of a row change no cut. -/
theorem congr_before {before' : Option Char} (hatomic : Atomic row)
    (hbefore : before.any Text.isWordChar = false) (hbefore' : before'.any Text.isWordChar = false)
    (hcuts : Cuts paging depth before row head cuts) : Cuts paging depth before' row head cuts := by
  cases hcuts with
  | nil => exact .nil
  | @pass _ _ lexeme row head _ hnone hrow =>
      have hne := (atomic_cons.mp hatomic).1.text_ne_nil
      have hlast : lastOf before [lexeme] = lastOf before' [lexeme] := by
        rw [lastOf, lastOf, lastOf, lastOf, List.getLast?_eq_some_getLast hne]
        rfl
      rw [hlast] at hrow
      exact .pass (fun htop => paging_congr hbefore' hbefore ▸ hnone htop) hrow
  | @mark _ _ c text label row back body _ htop hrow hseek hback =>
      have hlast : lastOf before (marks (c :: text)) = lastOf before' (marks (c :: text)) := by
        rw [lastOf_eq, lastOf_eq, textOf_marks, List.getLast?_eq_some_getLast (List.cons_ne_nil _ _)]
        rfl
      rw [hlast] at hback
      exact .mark htop hrow (paging_congr hbefore' hbefore ▸ hseek) hback

theorem paging_ne_none {entry : Keyword × String × Clause} {back : List Lexeme}
    (hmem : entry ∈ LocatedClause.entries) (hpaging : entry.2.2 = .paging)
    (hrest : entry.1.rest? before row = some back) : paging before row ≠ none := by
  rw [Ne, paging_eq_none_iff]
  rintro ⟨hlimit, hoffset⟩
  have hentries : ∀ entry ∈ LocatedClause.entries, entry.2.2 = .paging →
      entry.1 = .limit ∨ entry.1 = .offset := by decide
  rcases hentries entry hmem hpaging with heq | heq
  · rw [heq, hlimit] at hrest
    exact absurd hrest (by simp)
  · rw [heq, hoffset] at hrest
    exact absurd hrest (by simp)

/-- The clauses of a row, up to LIMIT and OFFSET, are in front of the first of these. -/
theorem exists_paging {main behind : List (RowCut (String × Clause))} (hatomic : Atomic row)
    (hcuts : Cuts (RowFinder.ofKeywords LocatedClause.entries) depth before row head (main ++ behind))
    (hmain : ∀ cut ∈ main, cut.label.2 ≠ .paging) (hbehind : ∀ cut ∈ behind, cut.label.2 = .paging)
    (hend : text.IsEnd) :
    ∃ (tail : Text) (cuts : List (RowCut Unit)), tail.IsEnd ∧ Cuts paging depth before
      (row ++ marks text) (head ++ (main.flatMap RowCut.row ++ marks tail)) cuts := by
  generalize hall : main ++ behind = all at hcuts
  induction hcuts generalizing main with
  | nil =>
      obtain ⟨rfl, rfl⟩ := List.append_eq_nil_iff.mp hall
      exact ⟨text, [], hend, pass_end hend⟩
  | @pass depth before lexeme row head cuts hnone _ ih =>
      obtain ⟨tail, found, htail, hfound⟩ := ih (atomic_cons.mp hatomic).2 hmain hall
      refine ⟨tail, found, htail, .pass (fun htop => ?_) hfound⟩
      refine (@paging_append_eq_none_iff (lexeme :: row) before text hend).mpr
        (paging_eq_none_iff.mpr ?_)
      have hentries := List.findSome?_eq_none_iff.mp (hnone htop)
      have hrest : ∀ entry ∈ LocatedClause.entries, entry.1.rest? before (lexeme :: row) = none :=
        fun entry hmem => Option.map_eq_none_iff.mp (hentries entry hmem)
      exact ⟨hrest (.limit, Keyword.limit.name, .paging) (by decide),
        hrest (.offset, Keyword.offset.name, .paging) (by decide)⟩
  | @mark depth before c spelled label row back body cuts htop hrow hseek hback ih =>
      subst hrow
      have hatomicBack : Atomic back := (atomic_append.mp (atomic_cons.mp hatomic).2).2
      obtain ⟨entry, hmem, hfound⟩ := List.exists_of_findSome?_eq_some hseek
      obtain ⟨found, hrest, hpair⟩ := Option.map_eq_some_iff.mp hfound
      obtain ⟨rfl, rfl⟩ := Prod.mk.inj hpair.symm
      cases main with
      | nil =>
          obtain rfl : behind = _ := hall
          -- The first of LIMIT and OFFSET: what is behind it is cut anew.
          have hfound := paging_ne_none hmem (hbehind _ List.mem_cons_self) hrest
          have hwhole : Atomic (.mark c :: (marks spelled ++ back) ++ marks text) :=
            atomic_append.mpr ⟨hatomic, atomic_marks text⟩
          obtain ⟨cuts, hcuts⟩ := exists_of_seek htop hwhole
            (mt (@paging_append_eq_none_iff (.mark c :: (marks spelled ++ back)) before text hend).mp
              hfound)
          exact ⟨[], cuts, .inl rfl, hcuts⟩
      | cons cut main =>
          obtain ⟨rfl, hrestAll⟩ := List.cons.inj hall
          rw [List.forall_mem_cons] at hmain
          obtain ⟨tail, others, htail, hothers⟩ := ih hatomicBack hmain.2 hrestAll
          obtain ⟨word, hword, hspells⟩ := Keyword.exists_of_rest? hrest
          have hspelled : marks (c :: spelled) = marks word := List.append_cancel_right hword
          rw [hspelled] at hothers
          have hpass := pass_keyword hmem hmain.1 hspells hothers
          rw [← hspelled] at hpass
          refine ⟨tail, others, htail, ?_⟩
          simpa [RowCut.row, marks] using hpass

end Cuts

end SelectForm

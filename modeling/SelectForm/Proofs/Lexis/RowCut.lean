import Mathlib
import SelectForm.Proofs.Lexis.Cutting
import SelectForm.Proofs.Lexis.Alike

/-!
# Cutting a row at marks

`Cuts` follows the cutting of a text on its row: a piece at which no mark is found is
passed over, and where one is found the row behind it is cut on.  The parts of the row
are rows, so a part can be cut again, and alike rows fall into alike parts.
-/

namespace SelectForm

open Lexeme

/-- A mark of a row, its label and what is behind it up to the next mark. -/
structure RowCut (α : Type) where
  label : α
  mark : List Lexeme
  body : List Lexeme

namespace RowCut

variable {α : Type}

/-- The texts of a cut. -/
def cut (rowCut : RowCut α) : Cut α := ⟨rowCut.label, textOf rowCut.mark, textOf rowCut.body⟩

/-- The row of a cut. -/
def row (rowCut : RowCut α) : List Lexeme := rowCut.mark ++ rowCut.body

/-- Cuts at the same mark, with alike rows. -/
structure Alike (R : Lexeme → Lexeme → Prop) (stretch : Prop) (first second : RowCut α) : Prop where
  label : first.label = second.label
  mark : Lexeme.Alike R stretch first.mark second.mark
  body : Lexeme.Alike R stretch first.body second.body

end RowCut

/-- Whether a mark may begin at a piece. -/
def Lexeme.isTopLevel (depth : Int) (lexeme : Lexeme) : Bool :=
  depth == 0 && lexeme.isCode && lexeme.nesting == 0

theorem Lexeme.Matches.isTopLevel_eq {depth : Int} {lexeme other : Lexeme}
    (hmatch : lexeme.Matches other) :
    lexeme.isTopLevel depth = other.isTopLevel depth := by
  rw [isTopLevel, isTopLevel, hmatch.isCode_eq, hmatch.nesting_eq]

/-- How a row falls into the part before its first mark and the cuts behind it. -/
inductive Cuts {α : Type} (seek : RowFinder α) :
    Int → Option Char → List Lexeme → List Lexeme → List (RowCut α) → Prop
  | nil {depth : Int} {before : Option Char} : Cuts seek depth before [] [] []
  | pass {depth : Int} {before : Option Char} {lexeme : Lexeme} {row head : List Lexeme}
      {cuts : List (RowCut α)}
      (hnone : lexeme.isTopLevel depth = true → seek before (lexeme :: row) = none)
      (hrow : Cuts seek (depth + lexeme.nesting) (lastOf before [lexeme]) row head cuts) :
      Cuts seek depth before (lexeme :: row) (lexeme :: head) cuts
  | mark {depth : Int} {before : Option Char} {c : Char} {text : Text} {label : α}
      {row back body : List Lexeme} {cuts : List (RowCut α)}
      (htop : (Lexeme.mark c).isTopLevel depth = true) (hrow : row = marks text ++ back)
      (hseek : seek before (.mark c :: row) = some (label, back))
      (hback : Cuts seek depth (lastOf before (marks (c :: text))) back body cuts) :
      Cuts seek depth before (.mark c :: row) [] (⟨label, marks (c :: text), body⟩ :: cuts)

theorem Lexeme.cellsOf_marks_append (fresh : Bool) (c : Char) (text : Text) (back : List Lexeme) :
    cellsOf fresh (marks (c :: text) ++ back) =
      ⟨c, .code, fresh⟩ :: (text.map (⟨·, .code, false⟩) ++ cellsOf false back) := by
  induction text generalizing c fresh with
  | nil => exact cellsOf_mark fresh c back
  | cons d text ih =>
      rw [marks, List.map_cons, List.cons_append, cellsOf_mark]
      exact congrArg _ (ih false d)

namespace Cuts

variable {α : Type} {find : Finder α} {seek : RowFinder α} {depth : Int} {before : Option Char}
  {row head : List Lexeme} {cuts : List (RowCut α)}

/-- Every row can be cut. -/
theorem exists_cuts (hfollows : find.Follows seek) (depth : Int) (before : Option Char)
    (hatomic : Atomic row) : ∃ head cuts, Cuts seek depth before row head cuts := by
  induction hlength : row.length using Nat.strong_induction_on generalizing row depth before with
  | _ length ih =>
      cases row with
      | nil => exact ⟨[], [], .nil⟩
      | cons lexeme row =>
          rw [List.length_cons] at hlength
          have hpass : (lexeme.isTopLevel depth = true → seek before (lexeme :: row) = none) →
              ∃ head cuts, Cuts seek depth before (lexeme :: row) head cuts := by
            intro hnone
            obtain ⟨head, cuts, hcuts⟩ := ih row.length (by omega) (depth + lexeme.nesting)
              (lastOf before [lexeme]) (atomic_cons.mp hatomic).2 rfl
            exact ⟨lexeme :: head, cuts, .pass hnone hcuts⟩
          cases htop : lexeme.isTopLevel depth with
          | false => exact hpass (by simp [htop])
          | true =>
              cases hseek : seek before (lexeme :: row) with
              | none => exact hpass fun _ => hseek
              | some found =>
                  obtain ⟨label, back⟩ := found
                  obtain ⟨text, hne, hrow⟩ := hfollows.spelled before (lexeme :: row) label back hseek
                  obtain ⟨c, text, rfl⟩ := List.exists_cons_of_ne_nil hne
                  have hback : Atomic back := (atomic_append.mp (hrow ▸ hatomic)).2
                  have hless : back.length < length := by
                    have hsum := congrArg List.length hrow
                    simp [marks] at hsum
                    omega
                  obtain ⟨body, cuts, hcuts⟩ := ih back.length hless depth
                    (lastOf before (marks (c :: text))) hback rfl
                  obtain ⟨rfl, rfl⟩ := List.cons.inj hrow
                  exact ⟨[], _, .mark htop rfl hseek hcuts⟩

/-- The parts of a row and its marks, in order, are the row. -/
theorem row_eq (hcuts : Cuts seek depth before row head cuts) :
    row = head ++ cuts.flatMap RowCut.row := by
  induction hcuts with
  | nil => rfl
  | pass _ _ ih => exact congrArg _ ih
  | mark _ hrow _ _ ih =>
      rw [List.nil_append, List.flatMap_cons, RowCut.row, List.append_assoc, ← ih, hrow]
      rfl

/-- The marks of a row are found again where the first of them stands. -/
theorem rest (hcuts : Cuts seek depth before row head cuts) :
    Cuts seek 0 (lastOf before head) (cuts.flatMap RowCut.row) [] cuts := by
  induction hcuts with
  | nil => exact .nil
  | pass _ _ ih => exact ih
  | @mark depth before c text label row back body cuts htop hrow hseek hback _ =>
      have hdepth : depth = 0 := by
        simp only [isTopLevel, Bool.and_eq_true, beq_iff_eq] at htop
        exact htop.1.1
      subst hdepth
      subst hrow
      rw [List.flatMap_cons, RowCut.row, List.append_assoc, ← hback.row_eq]
      exact .mark htop rfl hseek hback

theorem takeWhile_isGap (hfollows : find.Follows seek)
    (hcuts : Cuts seek depth before row [] cuts) :
    row.takeWhile isGap = [] ∧ row.dropWhile isGap = row := by
  cases hcuts with
  | nil => exact ⟨rfl, rfl⟩
  | @mark _ _ c _ _ row _ _ _ _ _ hseek _ =>
      have hgap : (Lexeme.mark c).isGap = false := by
        by_contra hblank
        rw [hfollows.silent before c row (Bool.of_not_eq_false hblank)] at hseek
        exact absurd hseek (by simp)
      simp [hgap]

theorem isTopLevel_mark (depth : Int) (c : Char) (fresh : Bool) :
    Cell.isTopLevel depth ⟨c, .code, fresh⟩ = (Lexeme.mark c).isTopLevel depth := by
  simp [Cell.isTopLevel, isTopLevel, Cell.isCode, isCode, kind, Cell.nesting_mark]

/-- A code character at which no mark is found is passed over. -/
theorem cutCells_mark_of_none {c : Char} (hfollows : find.Follows seek) (fresh : Bool)
    (hatomic : Atomic (.mark c :: row))
    (hnone : (Lexeme.mark c).isTopLevel depth = true → seek before (.mark c :: row) = none) :
    cutCells find 0 depth before (cellsOf fresh (.mark c :: row)) =
      Cut.inFront [c] (cutCells find 0 (depth + (Lexeme.mark c).nesting) (some c)
        (cellsOf false row)) := by
  have hfind := hfollows.found before fresh (.mark c :: row) hatomic
  rw [cellsOf_mark] at hfind ⊢
  rw [cutCells_cons, Cell.nesting_mark]
  intro htop
  rw [isTopLevel_mark] at htop
  rw [hfind, hnone htop, Option.map_none]

/-- Where a mark is found a cut begins, and the text behind the mark is cut on. -/
theorem cutCells_marks {c : Char} {text : Text} {label : α} {back : List Lexeme}
    (hfollows : find.Follows seek) (fresh : Bool) (hatomic : Atomic (marks (c :: text) ++ back))
    (htop : (Lexeme.mark c).isTopLevel depth = true)
    (hseek : seek before (marks (c :: text) ++ back) = some (label, back)) :
    cutCells find 0 depth before (cellsOf fresh (marks (c :: text) ++ back)) =
      let found := cutCells find 0 depth (lastOf before (marks (c :: text))) (cellsOf false back)
      ([], ⟨label, c :: text, found.1⟩ :: found.2) := by
  have hfind := hfollows.found before fresh (marks (c :: text) ++ back) hatomic
  rw [hseek, Option.map_some, textOf_append, textOf_marks, List.length_append,
    Nat.add_sub_cancel, cellsOf_marks_append] at hfind
  rw [cellsOf_marks_append, cutCells]
  simp only [isTopLevel_mark, htop, if_true, hfind, List.length_cons]
  have hskip := @cutCells_skip α find depth (some c) (text.map (⟨·, .code, false⟩))
    (cellsOf false back)
  have hmap : Cell.text (text.map fun d => ⟨d, .code, false⟩) = text := by
    simp [Cell.text, Function.comp_def]
  rw [List.length_map, hmap] at hskip
  rw [lastOf_eq, textOf_marks, Text.getLast?_cons_or, hskip]
  simp [Cell.text, Function.comp_def]

/-- The cells of a row are cut as the row is. -/
theorem cutCells_eq (hfollows : find.Follows seek) (fresh : Bool) (hatomic : Atomic row)
    (hcuts : Cuts seek depth before row head cuts) :
    cutCells find 0 depth before (cellsOf fresh row) = (textOf head, cuts.map RowCut.cut) := by
  induction hcuts generalizing fresh with
  | nil => rfl
  | @pass depth before lexeme row head cuts hnone _ ih =>
      have hrest := atomic_cons.mp hatomic
      cases lexeme with
      | mark c =>
          have hback := ih false hrest.2
          rw [show lastOf before [.mark c] = some c from rfl] at hback
          rw [cutCells_mark_of_none hfollows fresh hatomic hnone, hback]
          rfl
      | literal quote content =>
          rw [cellsOf_cons, cutCells_of_not_isCode, text_cells]
          · have hback := ih true hrest.2
            rw [show (literal quote content).nesting = 0 from rfl, add_zero] at hback
            have hcode : (literal quote content).isCode = false := rfl
            rw [hcode, Bool.not_false]
            rw [lastOf, lastOf] at hback
            rw [hback]
            rfl
          · intro cell hmem
            rw [Cell.isCode, kind_of_mem_cells hmem]
            rfl
      | word _ | lineComment _ | blockComment _ => exact hrest.1.elim
  | @mark depth before c text label row back body cuts htop hrow hseek _ ih =>
      subst hrow
      rw [← List.cons_append, show Lexeme.mark c :: marks text = marks (c :: text) from rfl]
        at hatomic hseek ⊢
      rw [cutCells_marks hfollows fresh hatomic htop hseek, ih false (atomic_append.mp hatomic).2,
        List.map_cons, RowCut.cut, textOf_marks]
      rfl

theorem lastOf_gap {gap : Text} (hne : gap ≠ []) (hgap : ∀ c ∈ gap, Text.isAsciiBlank c = true) :
    (lastOf before (marks gap)).any Text.isWordChar = false := by
  rw [lastOf_eq, textOf_marks, List.getLast?_eq_some_getLast hne]
  exact Text.not_isWordChar_of_isAsciiBlank (hgap _ (List.getLast_mem hne))

theorem nesting_of_isAsciiBlank {c : Char} (hblank : Text.isAsciiBlank c = true) :
    (Lexeme.mark c).nesting = 0 := by
  simp only [Text.isAsciiBlank, Bool.or_eq_true, beq_iff_eq] at hblank
  rcases hblank with (((rfl | rfl) | rfl) | rfl) | rfl <;> rfl

/-- A gap in front of a row is passed over. -/
theorem gap_iff {gap : Text} (hfollows : find.Follows seek)
    (hgap : ∀ c ∈ gap, Text.isAsciiBlank c = true) :
    Cuts seek depth before (marks gap ++ row) head cuts ↔
      ∃ back, head = marks gap ++ back ∧
        Cuts seek depth (lastOf before (marks gap)) row back cuts := by
  induction gap generalizing before head with
  | nil => simp [marks, lastOf]
  | cons c gap ih =>
      obtain ⟨hc, hgap⟩ := List.forall_mem_cons.mp hgap
      have hnesting := nesting_of_isAsciiBlank hc
      rw [marks, List.map_cons, List.cons_append, ← marks]
      constructor
      · intro hcuts
        cases hcuts with
        | pass _ hrow =>
            rw [hnesting, add_zero] at hrow
            obtain ⟨back, rfl, hback⟩ := (ih hgap).mp hrow
            exact ⟨back, rfl, hback⟩
        | mark _ _ hseek _ =>
            rw [hfollows.silent before c _ hc] at hseek
            exact absurd hseek (by simp)
      · rintro ⟨back, rfl, hback⟩
        refine .pass (fun _ => hfollows.silent before c _ hc) ?_
        rw [hnesting, add_zero]
        exact (ih hgap).mpr ⟨back, rfl, hback⟩

section Alike

variable {R : Lexeme → Lexeme → Prop} {stretch : Prop} {before' : Option Char} {row' : List Lexeme}

theorem seek_eq_none_of_alike (hsteady : seek.Steady R stretch)
    (hbefore : before.any Text.isWordChar = before'.any Text.isWordChar)
    (halike : Lexeme.Alike R stretch row row') (hnone : seek before row = none) :
    seek before' row' = none := by
  have hseeks := hsteady before before' row row' hbefore halike
  rw [hnone] at hseeks
  cases hseek : seek before' row' with
  | none => rfl
  | some found =>
      rw [hseek] at hseeks
      cases hseeks

/-- Where a steady finder finds a mark, it finds an alike one in every alike row. -/
theorem exists_marks_of_alike {c d : Char} {text : Text} {label : α} {back : List Lexeme}
    (hfollows : find.Follows seek) (hsteady : seek.Steady R stretch)
    (hbefore : before.any Text.isWordChar = before'.any Text.isWordChar)
    (halike : Lexeme.Alike R stretch (marks (c :: text) ++ back) (.mark d :: row'))
    (hseek : seek before (marks (c :: text) ++ back) = some (label, back)) :
    ∃ text' back', row' = marks text' ++ back' ∧
      seek before' (.mark d :: row') = some (label, back') ∧
      Lexeme.Alike R stretch (marks (c :: text)) (marks (d :: text')) ∧
      Lexeme.Alike R stretch back back' := by
  have hseeks := hsteady before before' _ _ hbefore halike
  rw [hseek] at hseeks
  cases hseek' : seek before' (.mark d :: row') with
  | none =>
      rw [hseek'] at hseeks
      cases hseeks
  | some found =>
      obtain ⟨label', back'⟩ := found
      rw [hseek'] at hseeks
      obtain ⟨rfl, front, front', hfront, hfront', hmarks, hbacks⟩ := Option.rel_some_some.mp hseeks
      obtain ⟨text', hne, htext'⟩ := hfollows.spelled before' (.mark d :: row') label back' hseek'
      obtain ⟨e, text', rfl⟩ := List.exists_cons_of_ne_nil hne
      obtain ⟨hd, hrow'⟩ := List.cons.inj htext'
      obtain rfl : d = e := Lexeme.mark.inj hd
      -- Both marks are what their finder took off their rows.
      obtain rfl : marks (c :: text) = front := List.append_cancel_right hfront
      obtain rfl : marks (d :: text') = front' :=
        List.append_cancel_right (htext'.symm.trans hfront')
      exact ⟨text', back', hrow', rfl, hmarks, hbacks⟩

/-- Alike rows fall into alike parts. -/
theorem alike (hblind : Blind R) (hfollows : find.Follows seek) (hsteady : seek.Steady R stretch)
    (hbefore : before.any Text.isWordChar = before'.any Text.isWordChar)
    (halike : Lexeme.Alike R stretch row row') (hcuts : Cuts seek depth before row head cuts) :
    ∃ head' cuts', Cuts seek depth before' row' head' cuts' ∧ Lexeme.Alike R stretch head head' ∧
      List.Forall₂ (RowCut.Alike R stretch) cuts cuts' := by
  -- A cut takes a whole mark off the row and a gap any number of blanks, so neither the cuts
  -- nor the likeness carry the induction alone.
  induction hlength : row.length using Nat.strong_induction_on
    generalizing row row' depth before before' head cuts with
  | _ length ih =>
      have hrows := halike
      cases halike with
      | nil =>
          cases hcuts
          exact ⟨[], [], .nil, .nil, .nil⟩
      | @cons lexeme other row row' hlexeme hrow =>
          have hmatch := hblind _ _ hlexeme
          rw [List.length_cons] at hlength
          have hone : Lexeme.Alike R stretch [lexeme] [other] := .cons hlexeme .nil
          cases hcuts with
          | pass hnone hback =>
              obtain ⟨head', cuts', hcuts', hhead, hforall⟩ := ih row.length (by omega)
                (hone.lastOf_isWordChar hblind hbefore) hrow hback rfl
              rw [hmatch.nesting_eq] at hcuts'
              refine ⟨other :: head', cuts', .pass ?_ hcuts', .cons hlexeme hhead, hforall⟩
              intro htop
              exact seek_eq_none_of_alike hsteady hbefore hrows (hnone (hmatch.isTopLevel_eq ▸ htop))
          | @mark depth before c text label row back body cuts htop hrow hseek hback =>
              subst hrow
              cases other with
              | mark d =>
                  obtain ⟨text', back', hrow', hseek', hmarks, hbacks⟩ :=
                    exists_marks_of_alike hfollows hsteady hbefore hrows hseek
                  have hshort : back.length < length := by
                    rw [List.length_append] at hlength
                    omega
                  obtain ⟨body', cuts', hcuts', hbody, hforall⟩ := ih back.length hshort
                    (hmarks.lastOf_isWordChar hblind hbefore) hbacks hback rfl
                  exact ⟨[], _, .mark (hmatch.isTopLevel_eq ▸ htop) hrow' hseek' hcuts', .nil,
                    .cons ⟨rfl, hmarks, hbody⟩ hforall⟩
              | word _ | literal _ _ | lineComment _ | blockComment _ => exact hmatch.elim
      | @gap gap gap' row row' hstretch hne hne' hgap hgap' hrow =>
          obtain ⟨back, rfl, hback⟩ := (gap_iff hfollows hgap).mp hcuts
          have hshort : row.length < length := by
            have hpos := List.length_pos_of_ne_nil hne
            rw [List.length_append, marks, List.length_map] at hlength
            omega
          obtain ⟨head', cuts', hcuts', hhead, hforall⟩ := ih row.length hshort
            ((lastOf_gap hne hgap).trans (lastOf_gap hne' hgap').symm) hrow hback rfl
          exact ⟨marks gap' ++ head', cuts', (gap_iff hfollows hgap').mpr ⟨head', rfl, hcuts'⟩,
            .gap hstretch hne hne' hgap hgap' hhead, hforall⟩

end Alike

end Cuts

end SelectForm

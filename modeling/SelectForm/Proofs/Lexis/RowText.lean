import Mathlib
import SelectForm.Proofs.Lexis.RowCut

/-!
# Taking the text of a row apart

A row is sound if it is how its own text is read.  Trimming and cutting take the text of a
sound row to texts of parts of the row, and these are sound again.
-/

namespace SelectForm

namespace Lexeme

/-- A row that is how its text is read. -/
structure Sound (row : List Lexeme) : Prop where
  fine : Fine none row
  atomic : Atomic row

variable {row first second : List Lexeme}

theorem sound_nil : Sound [] := ⟨trivial, atomic_nil⟩

theorem Sound.left (hsound : Sound (first ++ second)) : Sound first :=
  ⟨hsound.fine.left, (atomic_append.mp hsound.atomic).1⟩

theorem Sound.right (hsound : Sound (first ++ second)) : Sound second :=
  ⟨hsound.fine.right, (atomic_append.mp hsound.atomic).2⟩

theorem Sound.part (hsound : Sound row) (hpart : first <:+: row) : Sound first := by
  obtain ⟨front, back, rfl⟩ := hpart
  exact hsound.left.right

theorem Sound.cells_textOf (hsound : Sound row) : (textOf row).cells = cellsOf true row :=
  hsound.fine.cells_textOf

/-! ## Trimming -/

/-- A blank of code. -/
def isBlankMark (lexeme : Lexeme) : Bool := lexeme.isMark Text.isBlank

/-- A row without the blanks around it. -/
def trimmed (row : List Lexeme) : List Lexeme :=
  ((row.dropWhile isBlankMark).reverse.dropWhile isBlankMark).reverse

theorem exists_takeWhile_isMark (test : Char → Bool) (row : List Lexeme) :
    ∃ text, row.takeWhile (isMark test) = marks text ∧ ∀ c ∈ text, test c = true := by
  induction row with
  | nil => exact ⟨[], rfl, List.forall_mem_nil _⟩
  | cons lexeme row ih =>
      rw [List.takeWhile_cons]
      split
      · rename_i hmark
        cases lexeme with
        | mark c =>
            obtain ⟨text, htake, htext⟩ := ih
            exact ⟨c :: text, by rw [htake]; rfl, List.forall_mem_cons.mpr ⟨hmark, htext⟩⟩
        | word _ | literal _ _ | lineComment _ | blockComment _ => simp [isMark] at hmark
      · exact ⟨[], rfl, List.forall_mem_nil _⟩

/-- A row is its trimmed part with blanks around it. -/
theorem exists_trimmed (row : List Lexeme) :
    ∃ front back, row = marks front ++ trimmed row ++ marks back ∧
      (∀ c ∈ front, Text.isBlank c = true) ∧ ∀ c ∈ back, Text.isBlank c = true := by
  have hblanks : ∀ row : List Lexeme, ∃ text, row.takeWhile isBlankMark = marks text ∧
      ∀ c ∈ text, Text.isBlank c = true := exists_takeWhile_isMark Text.isBlank
  obtain ⟨front, hfront, hblank⟩ := hblanks row
  obtain ⟨back, hback, hblank'⟩ := hblanks (row.dropWhile isBlankMark).reverse
  refine ⟨front, back.reverse, ?_, hblank, by simpa using hblank'⟩
  have hrow := @List.takeWhile_append_dropWhile _ isBlankMark row
  have hrest := @List.takeWhile_append_dropWhile _ isBlankMark (row.dropWhile isBlankMark).reverse
  rw [hfront] at hrow
  rw [hback] at hrest
  have hreverse := congrArg List.reverse hrest
  rw [List.reverse_append, List.reverse_reverse] at hreverse
  have hmarks : marks back.reverse = (marks back).reverse := List.map_reverse
  rw [List.append_assoc, hmarks, trimmed, hreverse, hrow]

theorem Sound.trimmed (hsound : Sound row) : Sound (trimmed row) := by
  obtain ⟨front, back, hrow, -, -⟩ := exists_trimmed row
  exact hsound.part ⟨marks front, marks back, hrow.symm⟩

theorem IsAtom.isBlank_ends {lexeme : Lexeme} (hatom : lexeme.IsAtom)
    (hblank : lexeme.isBlankMark = false) :
    (∃ c ∈ lexeme.text.head?, Text.isBlank c = false) ∧
      ∃ c ∈ lexeme.text.getLast?, Text.isBlank c = false := by
  cases lexeme with
  | mark c => exact ⟨⟨c, rfl, hblank⟩, ⟨c, rfl, hblank⟩⟩
  | literal quote content =>
      have hquote : Text.isBlank quote.char = false := by cases quote <;> rfl
      exact ⟨⟨quote.char, rfl, hquote⟩, ⟨quote.char, List.getLast?_concat .., hquote⟩⟩
  | word _ | lineComment _ | blockComment _ => exact hatom.elim

theorem Atomic.tight (hatomic : Atomic row) (hne : row ≠ [])
    (hhead : row.head?.any isBlankMark = false) (hlast : row.getLast?.any isBlankMark = false) :
    Text.Tight (textOf row) := by
  constructor
  · cases row with
    | nil => exact absurd rfl hne
    | cons lexeme row =>
        have hatom := (atomic_cons.mp hatomic).1
        rw [textOf_cons, List.head?_append_of_ne_nil _ hatom.text_ne_nil]
        exact (hatom.isBlank_ends hhead).1
  · obtain ⟨front, lexeme, rfl⟩ := List.eq_nil_or_concat' row |>.resolve_left hne
    have hatom := (atomic_cons.mp (atomic_append.mp hatomic).2).1
    rw [List.getLast?_concat] at hlast
    rw [textOf_append, textOf_cons, textOf_nil, List.append_nil,
      List.getLast?_append_of_ne_nil _ hatom.text_ne_nil]
    exact (hatom.isBlank_ends hlast).2

theorem trimmed_ends (row : List Lexeme) :
    (trimmed row).head?.any isBlankMark = false ∧ (trimmed row).getLast?.any isBlankMark = false := by
  have hfirst : ∀ row : List Lexeme, (row.dropWhile isBlankMark).head?.any isBlankMark = false := by
    intro row
    have hhead := List.head?_dropWhile_not isBlankMark row
    cases hdrop : (row.dropWhile isBlankMark).head? with
    | none => rfl
    | some lexeme =>
        rw [hdrop] at hhead
        simpa using hhead
  constructor
  · -- What is left in front of the blanks at the end begins as the whole does.
    have hprefix : trimmed row <+: row.dropWhile isBlankMark := by
      have hsuffix := @List.dropWhile_suffix _ (row.dropWhile isBlankMark).reverse isBlankMark
      rw [← List.reverse_prefix, List.reverse_reverse] at hsuffix
      exact hsuffix
    have hhead := hfirst row
    obtain ⟨back, hback⟩ := hprefix
    rw [← hback] at hhead
    cases htrim : trimmed row with
    | nil => rfl
    | cons lexeme rest => simpa [htrim] using hhead
  · rw [trimmed, List.getLast?_reverse]
    exact hfirst _

theorem Atomic.trim_textOf (hatomic : Atomic row) :
    Text.trim (textOf row) = textOf (Lexeme.trimmed row) := by
  obtain ⟨front, back, hrow, hfront, hback⟩ := exists_trimmed row
  obtain ⟨hhead, hlast⟩ := trimmed_ends row
  generalize Lexeme.trimmed row = middle at hrow hhead hlast
  subst hrow
  rw [atomic_append, atomic_append] at hatomic
  rw [textOf_append, textOf_append, textOf_marks, textOf_marks]
  by_cases hne : middle = []
  · subst hne
    rw [textOf_nil, List.append_nil]
    apply Text.trim_of_forall
    intro c hc
    rcases List.mem_append.mp hc with hc | hc
    · exact hfront c hc
    · exact hback c hc
  · exact Text.trim_padded hfront hback (hatomic.1.2.tight hne hhead hlast)

/-- The characters at the front of the text of a row that pass a test, where quotation
marks do not. -/
theorem Atomic.takeWhile_textOf {test : Char → Bool} (hatomic : Atomic row)
    (hquote : ∀ quote : Quote, test quote.char = false) :
    (textOf row).takeWhile test = textOf (row.takeWhile (isMark test)) := by
  induction row with
  | nil => rfl
  | cons lexeme row ih =>
      obtain ⟨hatom, hrow⟩ := atomic_cons.mp hatomic
      cases lexeme with
      | mark c =>
          rw [textOf_cons, text, List.singleton_append, List.takeWhile_cons, List.takeWhile_cons,
            show (mark c).isMark test = test c from rfl, ih hrow]
          split
          · rfl
          · rfl
      | literal quote content =>
          rw [List.takeWhile_cons_of_neg (by simp [isMark]), textOf_cons, text, Quote.enclose,
            List.cons_append, List.cons_append, List.takeWhile_cons_of_neg (by simp [hquote])]
          rfl
      | word _ | lineComment _ | blockComment _ => exact hatom.elim

theorem Atomic.leading_textOf (hatomic : Atomic row) :
    Text.leading (textOf row) = textOf (row.takeWhile isBlankMark) :=
  hatomic.takeWhile_textOf fun quote => by cases quote <;> rfl

theorem drop_cellsOf (fresh : Bool) (first second : List Lexeme) :
    (cellsOf fresh (first ++ second)).drop (textOf first).length =
      cellsOf (freshBehind fresh first) second := by
  rw [cellsOf_append, ← length_cellsOf fresh first, List.drop_left]

end Lexeme

open Lexeme

/-! ## Cutting -/

namespace Cuts

variable {α : Type} {seek : RowFinder α} {depth : Int} {before : Option Char}
  {row head : List Lexeme} {cuts : List (RowCut α)}

/-- The parts of a sound row are sound, whether they are taken alone or with what is
behind them. -/
theorem sound_head (hcuts : Cuts seek depth before row head cuts) (hsound : Sound row) :
    Sound head := by
  rw [hcuts.row_eq] at hsound
  exact hsound.left

theorem sound_tail (hcuts : Cuts seek depth before row head cuts) (hsound : Sound row) :
    Sound (cuts.flatMap RowCut.row) := by
  rw [hcuts.row_eq] at hsound
  exact hsound.right

end Cuts

theorem RowCut.sound_of_mem {α : Type} {cuts : List (RowCut α)} {cut : RowCut α}
    (hsound : Sound (cuts.flatMap RowCut.row)) (hmem : cut ∈ cuts) :
    Sound cut.mark ∧ Sound cut.body := by
  obtain ⟨front, back, rfl⟩ := List.append_of_mem hmem
  rw [List.flatMap_append, List.flatMap_cons, RowCut.row] at hsound
  exact ⟨hsound.right.left.left, hsound.right.left.right⟩

end SelectForm

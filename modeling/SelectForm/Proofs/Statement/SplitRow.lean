import Mathlib
import SelectForm.Proofs.Text.Name
import SelectForm.Proofs.Statement.Split
import SelectForm.Proofs.Lexis.RowText

/-!
# Chains and groups of a row

A chain of conditions and a group in parentheses are taken apart by their marks alone.
Here both are taken apart on rows, and alike rows give alike parts.
-/

namespace SelectForm

namespace Lexeme

variable {R : Lexeme → Lexeme → Prop} {stretch : Prop} {row row' : List Lexeme}

/-! ## Trimming alike rows -/

theorem Matches.isBlankMark_eq {lexeme other : Lexeme} (hmatch : lexeme.Matches other) :
    lexeme.isBlankMark = other.isBlankMark := by
  refine hmatch.isMark_eq fun _ _ hupper => Text.test_eq_of_toUpper false (fun c hc => ?_) hupper
  exact Text.isBlank_of_isNameTail (by simp [Text.isNameTail, Char.isAlphanum, hc])

theorem Alike.trimmed (hblind : Blind R) (halike : Alike R stretch row row') :
    Alike R stretch (trimmed row) (trimmed row') := by
  have htest : ∀ lexeme other, R lexeme other → lexeme.isBlankMark = other.isBlankMark :=
    fun _ _ hlexeme => (hblind _ _ hlexeme).isBlankMark_eq
  have hblank : ∀ c, Text.isAsciiBlank c = true → (mark c).isBlankMark = true :=
    fun _ => Text.isBlank_of_isAsciiBlank
  have hstart := (halike.dropWhile htest hblank).2
  exact (hstart.reverse.dropWhile htest hblank).2.reverse

/-! ## Groups -/

/-- The inside of a group that is open in front of a row, if it closes with the last piece.
The depth counts the groups that were opened inside it. -/
def closing? (depth : Nat) : List Lexeme → Option (List Lexeme)
  | [] => none
  | lexeme :: row =>
    if lexeme = mark '(' then
      (closing? (depth + 1) row).map (lexeme :: ·)
    else if lexeme = mark ')' then
      if depth = 0 then if row = [] then some [] else none
      else (closing? (depth - 1) row).map (lexeme :: ·)
    else
      (closing? depth row).map (lexeme :: ·)

/-- The inside of a row that is one group in parentheses, up to blanks around it. -/
def inside? (row : List Lexeme) : Option (List Lexeme) :=
  match trimmed row with
  | mark '(' :: rest => closing? 0 rest
  | _ => none

theorem eq_of_closing? {depth : Nat} {inner : List Lexeme}
    (hclosing : closing? depth row = some inner) : row = inner ++ [mark ')'] := by
  induction row generalizing depth inner with
  | nil => simp [closing?] at hclosing
  | cons lexeme row ih =>
      have hgo : ∀ depth, (closing? depth row).map (lexeme :: ·) = some inner →
          lexeme :: row = inner ++ [mark ')'] := by
        intro depth hmap
        obtain ⟨rest, hrest, rfl⟩ := Option.map_eq_some_iff.mp hmap
        rw [ih hrest]
        rfl
      unfold closing? at hclosing
      split at hclosing
      · exact hgo _ hclosing
      · split at hclosing
        · rename_i hclose
          split at hclosing
          · split at hclosing
            · rename_i hnil
              obtain rfl := Option.some.inj hclosing
              rw [hnil, hclose]
              rfl
            · exact absurd hclosing (by simp)
          · exact hgo _ hclosing
        · exact hgo _ hclosing

/-- A row that is a group: its inside in parentheses with blanks around them. -/
theorem exists_of_inside? {inner : List Lexeme} (hinside : inside? row = some inner) :
    ∃ front back, row = marks front ++ (mark '(' :: (inner ++ [mark ')'])) ++ marks back ∧
      (∀ c ∈ front, Text.isBlank c = true) ∧ ∀ c ∈ back, Text.isBlank c = true := by
  obtain ⟨front, back, hrow, hfront, hback⟩ := exists_trimmed row
  unfold inside? at hinside
  split at hinside
  · rename_i rest htrim
    rw [htrim, eq_of_closing? hinside] at hrow
    exact ⟨front, back, hrow, hfront, hback⟩
  · exact absurd hinside (by simp)

theorem Atomic.closesAtEnd_cellsOf {depth : Nat} (fresh : Bool) (hatomic : Atomic row) :
    Fragment.closesAtEnd depth (cellsOf fresh row) = (closing? depth row).isSome := by
  induction row generalizing depth fresh with
  | nil => rfl
  | cons lexeme row ih =>
      obtain ⟨hatom, hrow⟩ := atomic_cons.mp hatomic
      cases lexeme with
      | mark c =>
          rw [cellsOf_mark, Fragment.closesAtEnd_cons, closing?]
          simp only [Cell.isCodeChar, Cell.isCode, beq_self_eq_true, Bool.true_and, beq_iff_eq,
            mark.injEq]
          split
          · rw [ih false hrow, Option.isSome_map]
          · split
            · cases depth with
              | zero =>
                  have hempty : (cellsOf false row).isEmpty = row.isEmpty := by
                    cases row with
                    | nil => rfl
                    | cons other row =>
                        have hcells := length_cellsOf false (other :: row)
                        have hne := (atomic_cons.mp hrow).1.text_ne_nil
                        have hpos := List.length_pos_of_ne_nil hne
                        rw [textOf_cons, List.length_append] at hcells
                        cases hcell : cellsOf false (other :: row) with
                        | nil =>
                            rw [hcell, List.length_nil] at hcells
                            omega
                        | cons cell cells => rfl
                  rw [if_pos rfl, hempty]
                  cases row <;> rfl
              | succ depth =>
                  rw [if_neg (Nat.succ_ne_zero depth), Option.isSome_map]
                  exact ih false hrow
            · rw [ih false hrow, Option.isSome_map]
      | literal quote content =>
          rw [cellsOf_cons, Fragment.closesAtEnd_append, ih _ hrow, closing?]
          · simp
          · intro cell hmem
            simp [Cell.isCodeChar, Cell.isCode, kind_of_mem_cells hmem, kind]
          · intro cell hmem
            simp [Cell.isCodeChar, Cell.isCode, kind_of_mem_cells hmem, kind]
      | word _ | lineComment _ | blockComment _ => exact hatom.elim

/-- The inside of a group is the text of the inside of its row. -/
theorem Sound.inside?_textOf (hsound : Sound row) (start : Nat) :
    (Fragment.mk (textOf row) start).inside?.map Fragment.text = (inside? row).map textOf := by
  have htrim := hsound.atomic.trim_textOf
  have hcells := hsound.trimmed.cells_textOf
  have hatomic := hsound.trimmed.atomic
  unfold Fragment.inside? inside?
  simp only [Fragment.trim, htrim, hcells]
  generalize Lexeme.trimmed row = middle at hatomic
  cases middle with
  | nil => rfl
  | cons lexeme rest =>
      obtain ⟨hatom, hrest⟩ := atomic_cons.mp hatomic
      cases lexeme with
      | mark c =>
          rw [cellsOf_mark]
          simp only [hrest.closesAtEnd_cellsOf]
          by_cases hc : c = '('
          · subst hc
            cases hclosing : closing? 0 rest with
            | none => simp [hclosing]
            | some inner =>
                have hinner : textOf rest = textOf inner ++ [')'] := by
                  rw [eq_of_closing? hclosing, textOf_append]
                  rfl
                simp [Cell.isCodeChar, Cell.isCode, hinner, hclosing]
          · simp [Cell.isCodeChar, hc]
      | literal quote content =>
          obtain ⟨others, hothers⟩ := cellsOf_literal true quote content rest
          rw [hothers]
          simp [Cell.isCodeChar, Cell.isCode]
      | word _ | lineComment _ | blockComment _ => exact hatom.elim

/-- Parentheses match parentheses. -/
theorem Matches.eq_mark_iff {lexeme other : Lexeme} {c : Char} (hmatch : lexeme.Matches other)
    (hletter : c.isAlpha = false) : lexeme = mark c ↔ other = mark c := by
  cases lexeme with
  | mark d =>
      cases other with
      | mark e =>
          rcases Text.eq_or_isAlpha_of_toUpper hmatch with rfl | ⟨hd, he⟩
          · rfl
          · have hne : ∀ e : Char, e.isAlpha = true → mark e ≠ mark c := by
              intro e he heq
              injection heq with heq
              rw [heq, hletter] at he
              exact Bool.false_ne_true he
            simp only [hne d hd, hne e he]
      | word _ | literal _ _ | lineComment _ | blockComment _ => exact hmatch.elim
  | literal _ _ =>
      cases other with
      | literal _ _ => simp
      | word _ | mark _ | lineComment _ | blockComment _ => exact hmatch.elim
  | word _ | lineComment _ | blockComment _ => exact hmatch.elim

theorem closing?_cons_of_ne {lexeme : Lexeme} {depth : Nat} (hopen : lexeme ≠ mark '(')
    (hclose : lexeme ≠ mark ')') :
    closing? depth (lexeme :: row) = (closing? depth row).map (lexeme :: ·) := by
  rw [closing?, if_neg hopen, if_neg hclose]

theorem closing?_gap {gap : Text} {depth : Nat} (hgap : ∀ c ∈ gap, Text.isAsciiBlank c = true) :
    closing? depth (marks gap ++ row) = (closing? depth row).map (marks gap ++ ·) := by
  induction gap with
  | nil => simp [marks]
  | cons c gap ih =>
      obtain ⟨hc, hgap⟩ := List.forall_mem_cons.mp hgap
      have hne : ∀ d, Text.isAsciiBlank d = false → mark c ≠ mark d := by
        intro d hd heq
        injection heq with heq
        rw [heq, hd] at hc
        exact Bool.false_ne_true hc
      rw [marks, List.map_cons, List.cons_append, ← marks,
        closing?_cons_of_ne (hne '(' (by decide)) (hne ')' (by decide)), ih hgap, Option.map_map]
      rfl

theorem Alike.closing? {depth : Nat} (hblind : Blind R) (halike : Alike R stretch row row') :
    Option.Rel (Alike R stretch) (closing? depth row) (closing? depth row') := by
  induction halike generalizing depth with
  | nil => exact .none
  | @cons lexeme other row row' hlexeme hrow ih =>
      have hmatch := hblind _ _ hlexeme
      have hmap : ∀ depth, Option.Rel (Alike R stretch) ((Lexeme.closing? depth row).map (lexeme :: ·))
          ((Lexeme.closing? depth row').map (other :: ·)) := by
        intro depth
        have hrest := @ih depth
        generalize Lexeme.closing? depth row = found at hrest
        generalize Lexeme.closing? depth row' = found' at hrest
        cases hrest with
        | none => exact .none
        | some hinner => exact .some (.cons hlexeme hinner)
      rw [Lexeme.closing?, Lexeme.closing?]
      simp only [hmatch.eq_mark_iff (show '('.isAlpha = false from rfl),
        hmatch.eq_mark_iff (show ')'.isAlpha = false from rfl), hrow.eq_nil_iff]
      split
      · exact hmap _
      · split
        · split
          · split
            · exact .some .nil
            · exact .none
          · exact hmap _
        · exact hmap _
  | @gap gap gap' row row' hstretch hne hne' hgap hgap' hrow ih =>
      have hrest := @ih depth
      rw [closing?_gap hgap, closing?_gap hgap']
      generalize Lexeme.closing? depth row = found at hrest
      generalize Lexeme.closing? depth row' = found' at hrest
      cases hrest with
      | none => exact .none
      | some hinner => exact .some (.gap hstretch hne hne' hgap hgap' hinner)

theorem Alike.inside? (hblind : Blind R) (halike : Alike R stretch row row') :
    Option.Rel (Alike R stretch) (inside? row) (inside? row') := by
  have htrim := halike.trimmed hblind
  unfold Lexeme.inside?
  generalize Lexeme.trimmed row = middle at htrim
  generalize Lexeme.trimmed row' = middle' at htrim
  cases htrim with
  | nil => exact .none
  | @cons lexeme other rest rest' hlexeme hrest =>
      have hsame := (hblind _ _ hlexeme).eq_mark_iff (show '('.isAlpha = false from rfl)
      by_cases hopen : lexeme = mark '('
      · rw [hopen, hsame.mp hopen]
        exact hrest.closing? hblind
      · have hopen' := mt hsame.mpr hopen
        split
        · rename_i heq
          exact absurd (List.cons.inj heq).1 hopen
        · split
          · rename_i heq
            exact absurd (List.cons.inj heq).1 hopen'
          · exact .none
  | @gap gap gap' rest rest' _ hne hne' hgap hgap' _ =>
      -- A blank opens no group.
      have hblank : ∀ (gap : Text) (rest back : List Lexeme), gap ≠ [] →
          (∀ c ∈ gap, Text.isAsciiBlank c = true) → marks gap ++ rest ≠ mark '(' :: back := by
        intro gap rest back hne hgap heq
        cases gap with
        | nil => exact hne rfl
        | cons c gap =>
            have hc := hgap c List.mem_cons_self
            injection (List.cons.inj heq).1 with hopen
            rw [hopen] at hc
            exact absurd hc (by decide)
      split
      · rename_i heq
        exact absurd heq (hblank gap rest _ hne hgap)
      · split
        · rename_i heq
          exact absurd heq (hblank gap' rest' _ hne' hgap')
        · exact .none

/-! ## Chains -/

/-- The parts of a chain with the connectors in front of them. -/
def closeRows (pending : Bool) (connector : Option Connector) (part : List Lexeme) :
    List (RowCut ChainMark) → List (Option Connector × List Lexeme)
  | [] => [(connector, trimmed part)]
  | cut :: rest =>
    match cut.label with
    | .between => closeRows true connector (part ++ cut.row) rest
    | .connector next =>
      if next = .and ∧ pending = true then
        closeRows false connector (part ++ cut.row) rest
      else
        (connector, trimmed part) :: closeRows false (some next) cut.body rest

/-- A chain is closed on its row as on its text. -/
theorem closeTexts_cut {pending : Bool} {connector : Option Connector} {part : List Lexeme}
    {cuts : List (RowCut ChainMark)} (hatomic : Atomic (part ++ cuts.flatMap RowCut.row)) :
    ChainLink.closeTexts pending connector (textOf part) (cuts.map RowCut.cut) =
      (closeRows pending connector part cuts).map fun closed => (closed.1, textOf closed.2) := by
  induction cuts generalizing pending connector part with
  | nil =>
      rw [List.flatMap_nil, List.append_nil] at hatomic
      simp [ChainLink.closeTexts, closeRows, hatomic.trim_textOf]
  | cons cut cuts ih =>
      rw [List.flatMap_cons] at hatomic
      have hgo : ∀ pending connector,
          ChainLink.closeTexts pending connector (textOf part ++ textOf cut.mark ++ textOf cut.body)
              (cuts.map RowCut.cut) =
            (closeRows pending connector (part ++ cut.row) cuts).map
              fun closed => (closed.1, textOf closed.2) := by
        intro pending connector
        rw [← List.append_assoc] at hatomic
        rw [← ih hatomic, RowCut.row, textOf_append, textOf_append, List.append_assoc]
      rw [List.map_cons, ChainLink.closeTexts, closeRows]
      simp only [RowCut.cut]
      cases cut.label with
      | between => exact hgo true connector
      | connector next =>
          simp only
          split
          · exact hgo false connector
          · have hpart := (atomic_append.mp hatomic).1
            have hbody : Atomic (cut.body ++ cuts.flatMap RowCut.row) := by
              rw [RowCut.row, atomic_append, atomic_append, atomic_append] at hatomic
              exact atomic_append.mpr ⟨hatomic.2.1.2, hatomic.2.2⟩
            rw [List.map_cons, ih hbody, hpart.trim_textOf]

theorem closeRows_alike {pending : Bool} {connector : Option Connector} {part part' : List Lexeme}
    {cuts cuts' : List (RowCut ChainMark)} (hblind : Blind R) (hpart : Alike R stretch part part')
    (hcuts : List.Forall₂ (RowCut.Alike R stretch) cuts cuts') :
    List.Forall₂ (fun closed closed' => closed.1 = closed'.1 ∧ Alike R stretch closed.2 closed'.2)
      (closeRows pending connector part cuts) (closeRows pending connector part' cuts') := by
  induction hcuts generalizing pending connector part part' with
  | nil => exact .cons ⟨rfl, hpart.trimmed hblind⟩ .nil
  | @cons cut cut' cuts cuts' hcut _ ih =>
      have hrow : Alike R stretch (part ++ cut.row) (part' ++ cut'.row) :=
        hpart.append (hcut.mark.append hcut.body)
      rw [closeRows, closeRows, hcut.label]
      cases cut'.label with
      | between => exact ih hrow
      | connector next =>
          simp only
          split
          · exact ih hrow
          · exact .cons ⟨rfl, hpart.trimmed hblind⟩ (ih hcut.body)

/-- The parts of a sound chain are sound. -/
theorem sound_of_mem_closeRows {pending : Bool} {connector : Option Connector}
    {part : List Lexeme} {cuts : List (RowCut ChainMark)} {closed : Option Connector × List Lexeme}
    (hsound : Sound (part ++ cuts.flatMap RowCut.row))
    (hmem : closed ∈ closeRows pending connector part cuts) : Sound closed.2 := by
  induction cuts generalizing pending connector part with
  | nil =>
      obtain rfl := List.mem_singleton.mp hmem
      exact hsound.left.trimmed
  | cons cut cuts ih =>
      rw [List.flatMap_cons] at hsound
      have hgo : ∀ pending connector, closed ∈ closeRows pending connector (part ++ cut.row) cuts →
          Sound closed.2 := by
        intro pending connector
        rw [← List.append_assoc] at hsound
        exact ih hsound
      rw [closeRows] at hmem
      cases hlabel : cut.label with
      | between =>
          rw [hlabel] at hmem
          exact hgo true connector hmem
      | connector next =>
          rw [hlabel] at hmem
          simp only at hmem
          split at hmem
          · exact hgo false connector hmem
          · rcases List.mem_cons.mp hmem with rfl | hmem
            · exact hsound.left.trimmed
            · refine ih ?_ hmem
              rw [RowCut.row, List.append_assoc] at hsound
              exact hsound.right.right

end Lexeme

open Lexeme

/-! ## Fragments -/

theorem ChainMark.isFirm_entries (connectors : List Connector) :
    ∀ entry ∈ entries connectors, entry.1.isFirm = true := by
  intro entry hmem
  simp only [entries, List.mem_cons, List.mem_map] at hmem
  rcases hmem with rfl | ⟨connector, -, rfl⟩
  · rfl
  · cases connector <;> rfl

theorem RowCut.flatMap_row_alike {α : Type} {R : Lexeme → Lexeme → Prop} {stretch : Prop}
    {cuts cuts' : List (RowCut α)} (hcuts : List.Forall₂ (RowCut.Alike R stretch) cuts cuts') :
    Lexeme.Alike R stretch (cuts.flatMap RowCut.row) (cuts'.flatMap RowCut.row) := by
  induction hcuts with
  | nil => exact .nil
  | cons hcut _ ih => exact (hcut.mark.append hcut.body).append ih

theorem Lexeme.drop_textOf (front back : List Lexeme) :
    (textOf (front ++ back)).drop ((textOf (front ++ back)).length - (textOf back).length) =
      textOf back := by
  rw [textOf_append, List.length_append, Nat.add_sub_cancel, List.drop_left]

theorem Lexeme.Sound.inside {row inner : List Lexeme} (hsound : Sound row)
    (hinside : inside? row = some inner) : Sound inner := by
  obtain ⟨front, back, rfl, -, -⟩ := exists_of_inside? hinside
  have hgroup := hsound.left.right
  rw [← List.singleton_append] at hgroup
  exact hgroup.right.left

/-- How a segmentation follows the cuts of a sound row. -/
structure Segmentation.Follows {α : Type} (segmentation : Segmentation α) (seek : RowFinder α)
    (head : List Lexeme) (cuts : List (RowCut α)) : Prop where
  sound : Sound (head ++ cuts.flatMap RowCut.row)
  isCut : Cuts seek 0 none (head ++ cuts.flatMap RowCut.row) head cuts
  head_eq : segmentation.head.text = textOf head
  tail_eq : segmentation.tail.map Segment.cut = cuts.map RowCut.cut

/-- The text of a sound row is cut as the row is. -/
theorem Lexeme.Sound.follows {α : Type} {find : Finder α} {seek : RowFinder α}
    {row head : List Lexeme} {cuts : List (RowCut α)} {fragment : Fragment} (hsound : Sound row)
    (hfollows : find.Follows seek) (htext : fragment.text = textOf row)
    (hcuts : Cuts seek 0 none row head cuts) :
    (fragment.segment find).Follows seek head cuts := by
  have hcells := hcuts.cutCells_eq hfollows true hsound.atomic
  refine ⟨hcuts.row_eq ▸ hsound, hcuts.row_eq ▸ hcuts, ?_, ?_⟩
  · rw [Fragment.segment, Segmentation.head_text_ofCells, htext, hsound.cells_textOf, hcells]
  · rw [Fragment.segment, Segmentation.map_cut_tail_ofCells, htext, hsound.cells_textOf, hcells]

namespace Segmentation.Follows

variable {α : Type} {find : Finder α} {seek : RowFinder α} {fragment : Fragment}
  {head : List Lexeme} {cut : RowCut α} {cuts : List (RowCut α)}

theorem text_eq {cuts : List (RowCut α)} (hfollows : (fragment.segment find).Follows seek head cuts) :
    fragment.text = textOf (head ++ cuts.flatMap RowCut.row) := by
  have htext := Fragment.text_segment find fragment
  have hmap := congrArg (List.flatMap fun cut => cut.mark ++ cut.body) hfollows.tail_eq
  rw [List.flatMap_map, List.flatMap_map] at hmap
  rw [← htext, hfollows.head_eq, textOf_append, textOf, textOf, List.flatMap_assoc]
  refine congrArg _ (hmap.trans ?_)
  simp [RowCut.cut, RowCut.row, textOf]

theorem splitFirst?_nil (hfollows : (fragment.segment find).Follows seek head []) :
    fragment.splitFirst? find = none := by
  have htail := hfollows.tail_eq
  rw [List.map_nil, List.map_eq_nil_iff] at htail
  rw [Fragment.splitFirst?, htail]

/-- The first mark, with all that is before and behind it. -/
theorem splitFirst?_cons (hfollows : (fragment.segment find).Follows seek head (cut :: cuts)) :
    ∃ split, fragment.splitFirst? find = some split ∧ split.label = cut.label ∧
      split.before.text = textOf head ∧ split.mark.text = textOf cut.mark ∧
      split.after.text = textOf (cut.body ++ cuts.flatMap RowCut.row) := by
  have htail := hfollows.tail_eq
  rw [List.map_cons, List.map_eq_cons_iff] at htail
  obtain ⟨first, others, hcons, hfirst, hothers⟩ := htail
  obtain ⟨hlabel, hmark, hbody⟩ := Cut.mk.inj hfirst
  have hflat : others.flatMap (fun s => s.mark.text ++ s.body.text) =
      textOf (cuts.flatMap RowCut.row) := by
    have hmap := congrArg (List.flatMap fun cut => cut.mark ++ cut.body) hothers
    rw [List.flatMap_map, List.flatMap_map] at hmap
    rw [textOf, List.flatMap_assoc]
    refine hmap.trans ?_
    simp [RowCut.cut, RowCut.row, textOf]
  rw [Fragment.splitFirst?, hcons]
  refine ⟨_, rfl, hlabel, hfollows.head_eq, hmark, ?_⟩
  simp only [hbody, hflat, textOf_append]

theorem sound_after (hfollows : (fragment.segment find).Follows seek head (cut :: cuts)) :
    Sound (cut.body ++ cuts.flatMap RowCut.row) := by
  have hsound := hfollows.sound.right
  rw [List.flatMap_cons, RowCut.row, List.append_assoc] at hsound
  exact hsound.right

/-- The items of a list are the trimmed parts of its row. -/
theorem texts_splitList {seek : RowFinder Unit} {cuts : List (RowCut Unit)}
    (hfollows : (fragment.segment Finder.comma).Follows seek head cuts) :
    fragment.splitList.map Fragment.text =
      (trimmed head :: cuts.map fun cut => trimmed cut.body).map textOf := by
  have htail := congrArg (List.map fun cut => Text.trim cut.body) hfollows.tail_eq
  rw [List.map_map, List.map_map] at htail
  rw [Fragment.splitList, List.map_cons, List.map_cons, List.map_map, List.map_map]
  congr 1
  · rw [Fragment.trim, hfollows.head_eq, hfollows.sound.left.atomic.trim_textOf]
  · refine htail.trans (List.map_congr_left fun cut hmem => ?_)
    exact (RowCut.sound_of_mem hfollows.sound.right hmem).2.atomic.trim_textOf

theorem sound_items {seek : RowFinder Unit} {cuts : List (RowCut Unit)}
    (hfollows : (fragment.segment Finder.comma).Follows seek head cuts) :
    ∀ row ∈ trimmed head :: cuts.map fun cut => trimmed cut.body, Sound row := by
  refine List.forall_mem_cons.mpr ⟨hfollows.sound.left.trimmed, ?_⟩
  intro row hmem
  obtain ⟨cut, hcut, rfl⟩ := List.mem_map.mp hmem
  exact (RowCut.sound_of_mem hfollows.sound.right hcut).2.trimmed

/-- The parts of a chain are the closed parts of its row. -/
theorem parts_splitChain {connectors : List Connector} {seek : RowFinder ChainMark}
    {cuts : List (RowCut ChainMark)}
    (hfollows : (fragment.segment (ChainMark.finder connectors)).Follows seek head cuts) :
    (fragment.splitChain connectors).map (fun part => (part.connector, part.expression.text)) =
      (closeRows false none head cuts).map fun closed => (closed.1, textOf closed.2) := by
  rw [Fragment.splitChain, ChainLink.map_closeChain, hfollows.tail_eq, hfollows.head_eq,
    closeTexts_cut hfollows.sound.atomic]

end Segmentation.Follows

end SelectForm

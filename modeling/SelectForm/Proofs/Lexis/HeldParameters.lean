import Mathlib
import SelectForm.Lexis.Parameter
import SelectForm.Proofs.Lexis.MaskedRow
import SelectForm.Proofs.Query.Tokens

/-!
# The parameters of a row

Parameters are found by passing over the cells of a text.  Two lists of cells have the
parameters of both, one after the other, unless a name goes on from the first into the
second.  So the parameters of a row are those among its tokens, and masking the comments
of a row neither hides a parameter nor makes one.
-/

namespace SelectForm

open Lexeme

namespace TemplatePart

/-- The names of the parameters among some cells. -/
def namesOf (skip : Nat) (before : Option Char) (cells : List Cell) : List String :=
  (ofCells skip before cells).filterMap name?

/-- A cell that may stand in the name of a parameter. -/
def isNameCell (cell : Cell) : Bool := cell.isCode && Text.isParameterChar cell.char

/-- A cell behind which the name of a parameter may begin or go on. -/
def isOpenCell (cell : Cell) : Bool := cell.isCode && Text.isTokenChar cell.char

variable {skip : Nat} {before : Option Char} {cell : Cell} {cells first second : List Cell}

@[simp] theorem namesOf_nil : namesOf skip before [] = [] := by
  cases skip <;> rfl

@[simp] theorem namesOf_succ :
    namesOf (skip + 1) before (cell :: cells) = namesOf skip (some cell.char) cells := rfl

theorem namesOf_zero :
    namesOf 0 before (cell :: cells) =
      if cell.isCodeChar ':' && before != some ':' && !(cells.takeWhile isNameCell).isEmpty then
        String.ofList (Cell.text (cells.takeWhile isNameCell)) ::
          namesOf (cells.takeWhile isNameCell).length (some cell.char) cells
      else
        namesOf 0 (some cell.char) cells := by
  have hempty : (Cell.text (cells.takeWhile isNameCell)).isEmpty =
      (cells.takeWhile isNameCell).isEmpty := List.isEmpty_map
  rw [namesOf, ofCells, ← hempty]
  rw [apply_ite (List.filterMap name?)]
  congr 1
  rw [Cell.text, List.length_map]
  rfl

theorem isOpenCell_of_isNameCell (hname : isNameCell cell = true) : isOpenCell cell = true := by
  rw [isNameCell, Bool.and_eq_true] at hname
  simp [isOpenCell, hname.1, Text.isTokenChar, Text.isNameTail_of_isParameterChar hname.2]

/-- A name does not go on into cells that stand apart. -/
theorem takeWhile_isNameCell_append (hopen : isOpenCell cell = true)
    (hapart : (cell :: first).getLast?.any isOpenCell = false ∨
      second.head?.any isNameCell = false) :
    (first ++ second).takeWhile isNameCell = first.takeWhile isNameCell := by
  rw [List.takeWhile_append]
  split
  · rename_i hlength
    have hall : ∀ cell ∈ first, isNameCell cell = true := by
      have heq := (List.takeWhile_prefix isNameCell).eq_of_length hlength
      intro cell hmem
      rw [← heq] at hmem
      exact List.mem_takeWhile_imp hmem
    have hsecond : second.takeWhile isNameCell = [] := by
      rcases hapart with hlast | hhead
      · -- The cells in front are the name of a parameter up to their end.
        have hmem := List.getLast_mem (List.cons_ne_nil cell first)
        rw [List.getLast?_eq_some_getLast (List.cons_ne_nil _ _), Option.any_some] at hlast
        rcases List.mem_cons.mp hmem with heq | hmem
        · rw [heq, hopen] at hlast
          exact absurd hlast (by decide)
        · rw [isOpenCell_of_isNameCell (hall _ hmem)] at hlast
          exact absurd hlast (by decide)
      · cases second with
        | nil => rfl
        | cons next second => exact List.takeWhile_cons_of_neg (by simpa using hhead)
    rw [hsecond, List.append_nil]
    exact ((List.takeWhile_prefix isNameCell).eq_of_length hlength).symm
  · rfl

/-- Cells that stand apart have the parameters of both parts. -/
theorem namesOf_append (hskip : skip ≤ first.length)
    (hapart : first.getLast?.any isOpenCell = false ∨ second.head?.any isNameCell = false) :
    namesOf skip before (first ++ second) =
      namesOf skip before first ++ namesOf 0 ((Cell.text first).getLast?.or before) second := by
  induction first generalizing skip before with
  | nil =>
      obtain rfl := Nat.le_zero.mp hskip
      simp [Cell.text]
  | cons cell first ih =>
      have hrest : first.getLast?.any isOpenCell = false ∨ second.head?.any isNameCell = false := by
        refine hapart.imp_left fun hlast => ?_
        cases first with
        | nil => rfl
        | cons _ _ => rwa [List.getLast?_cons_cons] at hlast
      have hbefore : (Cell.text (cell :: first)).getLast?.or before =
          (Cell.text first).getLast?.or (some cell.char) := Text.getLast?_cons_or _ _ _
      rw [hbefore]
      cases skip with
      | succ skip => exact ih (Nat.le_of_succ_le_succ hskip) hrest
      | zero =>
          rw [List.cons_append, namesOf_zero, namesOf_zero]
          by_cases hcolon : cell.isCodeChar ':' = true
          · have hopen : isOpenCell cell = true := by
              rw [Cell.isCodeChar, Bool.and_eq_true, beq_iff_eq] at hcolon
              rw [isOpenCell, hcolon.1, hcolon.2]
              rfl
            rw [takeWhile_isNameCell_append hopen hapart]
            split
            · rw [List.cons_append,
                ih (List.takeWhile_prefix isNameCell).length_le hrest]
            · exact ih (Nat.zero_le _) hrest
          · rw [Bool.not_eq_true] at hcolon
            rw [hcolon]
            exact ih (Nat.zero_le _) hrest

theorem namesOf_of_forall (hcells : ∀ cell ∈ cells, cell.isCodeChar ':' = false) :
    namesOf skip before cells = [] := by
  induction cells generalizing skip before with
  | nil => exact namesOf_nil
  | cons cell cells ih =>
      obtain ⟨hcell, hcells⟩ := List.forall_mem_cons.mp hcells
      cases skip with
      | succ skip => exact ih hcells
      | zero =>
          rw [namesOf_zero, hcell]
          exact ih hcells

/-- The character in front matters only to a colon, and only if it is one. -/
theorem namesOf_before {before' : Option Char}
    (hbefore : before ≠ some ':' ∧ before' ≠ some ':' ∨
      ∀ cell ∈ cells.head?, cell.isCodeChar ':' = false) :
    namesOf 0 before cells = namesOf 0 before' cells := by
  cases cells with
  | nil => rw [namesOf_nil, namesOf_nil]
  | cons cell cells =>
      rw [namesOf_zero, namesOf_zero]
      rcases hbefore with ⟨hbefore, hbefore'⟩ | hcell
      · have hno : (before != some ':') = (before' != some ':') := by
          rw [Bool.eq_iff_iff, bne_iff_ne, bne_iff_ne]
          exact iff_of_true hbefore hbefore'
        rw [hno]
      · rw [hcell cell rfl]
        rfl

/-- A whole parameter. -/
theorem namesOf_parameter {name : Text} (fresh : Bool) (hname : Text.isParameterName name = true)
    (hbefore : before ≠ some ':') :
    namesOf 0 before (cellsOf fresh (marks (':' :: name))) = [String.ofList name] := by
  obtain ⟨hne, hletters⟩ := Text.forall_of_isRun (fun _ => id) hname
  have hcells : cellsOf fresh (marks (':' :: name)) =
      ⟨':', .code, fresh⟩ :: name.map (⟨·, .code, false⟩) := by
    have hmarks := cellsOf_marks_append fresh ':' name []
    simpa using hmarks
  have htake : (name.map fun c => Cell.mk c .code false).takeWhile isNameCell =
      name.map (⟨·, .code, false⟩) := by
    apply List.takeWhile_eq_self_iff.mpr
    rw [List.forall_mem_map]
    intro c hc
    simp [isNameCell, Cell.isCode, hletters c hc]
  have hskip : ∀ (before : Option Char) (cells : List Cell),
      namesOf cells.length before cells = [] := by
    intro before cells
    induction cells generalizing before with
    | nil => exact namesOf_nil
    | cons cell cells ih => exact ih _
  rw [hcells, namesOf_zero, htake, hskip]
  simp [Cell.isCodeChar, Cell.isCode, hbefore, hne, Cell.text, Function.comp_def]

end TemplatePart

/-! ## Tokens -/

/-- The name of a parameter among tokens. -/
def Token.parameterName? : Token → Option String
  | parameter text => some (String.ofList text)
  | _ => none

namespace Lexeme

variable {row : List Lexeme} {tokens : List Token} {before : Option Char} {text : Text}

theorem isCodeChar_marks {c : Char} (fresh : Bool) (hmem : c ∉ text) :
    ∀ cell ∈ cellsOf fresh (marks text), cell.isCodeChar c = false := by
  intro cell hcell
  have hchar : cell.char ∈ text := by
    rw [← textOf_marks text, ← text_cellsOf fresh (marks text)]
    exact List.mem_map_of_mem hcell
  have hne : cell.char ≠ c := fun heq => hmem (heq ▸ hchar)
  simp [Cell.isCodeChar, hne]

/-- A text whose characters pass a test that the colon fails has no parameters. -/
theorem namesOf_marks {test : Char → Bool} (fresh : Bool) (hcolon : test ':' = false)
    (htext : ∀ c ∈ text, test c = true) :
    TemplatePart.namesOf 0 before (cellsOf fresh (marks text)) = [] := by
  apply TemplatePart.namesOf_of_forall
  apply isCodeChar_marks
  intro hmem
  rw [htext _ hmem] at hcolon
  exact absurd hcolon (by decide)

/-- Rows that stand apart have cells that do. -/
theorem Apart.cellsOf {first second : List Lexeme} (fresh fresh' : Bool)
    (hapart : Apart first second) :
    (cellsOf fresh first).getLast?.any TemplatePart.isOpenCell = false ∨
      (cellsOf fresh' second).head?.any TemplatePart.isNameCell = false := by
  refine hapart.imp (fun hlast => ?_) fun hhead => ?_
  · rw [lastOf_eq, Option.or_none, ← text_cellsOf fresh first, Cell.text, List.getLast?_map] at hlast
    cases hcell : (Lexeme.cellsOf fresh first).getLast? with
    | none => rfl
    | some cell =>
        rw [hcell] at hlast
        have hno : Text.isTokenChar cell.char = false := hlast
        simp [TemplatePart.isOpenCell, hno]
  · rw [← text_cellsOf fresh' second, Cell.text, List.head?_map] at hhead
    cases hcell : (Lexeme.cellsOf fresh' second).head? with
    | none => rfl
    | some cell =>
        rw [hcell] at hhead
        have hno : Text.isTokenChar cell.char = false := hhead
        by_contra hname
        have hopen := TemplatePart.isOpenCell_of_isNameCell (Bool.of_not_eq_false hname)
        simp [TemplatePart.isOpenCell, hno] at hopen

/-- The parameters of a row are those among its tokens. -/
theorem Holds.namesOf_cellsOf (hholds : Holds row tokens) (fresh : Bool)
    (hbefore : before.any Text.isTokenChar = false ∨
      (textOf row).head?.any Text.isTokenChar = false) :
    TemplatePart.namesOf 0 before (cellsOf fresh row) = tokens.filterMap Token.parameterName? := by
  induction hholds generalizing fresh before with
  | nil => exact TemplatePart.namesOf_nil
  | @append first second _ _ _ _ hapart ihFirst ihSecond =>
      rw [cellsOf_append, TemplatePart.namesOf_append (Nat.zero_le _) (hapart.cellsOf _ _),
        List.filterMap_append]
      congr 1
      · apply ihFirst
        refine hbefore.imp_right fun hhead => ?_
        cases hfirst : textOf first with
        | nil => rfl
        | cons c rest => simpa [hfirst] using hhead
      · apply ihSecond
        rw [text_cellsOf]
        cases hlast : (textOf first).getLast? with
        | none =>
            rw [List.getLast?_eq_none_iff] at hlast
            rwa [textOf_append, hlast] at hbefore
        | some c =>
            refine hapart.imp_left fun hfirst => ?_
            rw [lastOf_eq, hlast] at hfirst
            exact hfirst
  | @separator c hc =>
      exact @namesOf_marks before [c] Text.isSeparator fresh rfl (List.forall_mem_singleton.mpr hc)
  | keyword hword htext =>
      exact namesOf_marks fresh (by rfl) (isFoldedTail_of_foldsTo hword htext)
  | name hname => exact namesOf_marks fresh (by rfl) (Text.forall_of_isName hname).2
  | @function aggregate text htext =>
      exact namesOf_marks fresh (by rfl) (Text.isAlpha_of_sameLetters aggregate.isAlpha_keyword htext)
  | number hnumber =>
      apply TemplatePart.namesOf_of_forall
      apply isCodeChar_marks
      intro hmem
      rcases Text.forall_of_isNumber hnumber _ hmem with hc | hc
      · exact absurd hc (by decide)
      · simp at hc
  | parameter hname =>
      rw [TemplatePart.namesOf_parameter fresh hname]
      · rfl
      · rintro rfl
        rcases hbefore with hbefore | hhead
        · exact absurd hbefore (by decide)
        · exact absurd (show Text.isTokenChar ':' = false from hhead) (by decide)
  | literal quote content =>
      apply TemplatePart.namesOf_of_forall
      intro cell hmem
      rw [cellsOf_cons, cellsOf_nil, List.append_nil] at hmem
      simp [Cell.isCodeChar, Cell.isCode, kind_of_mem_cells hmem, kind]

/-! ## Comments -/

/-- Whether a span has just ended does not matter to parameters. -/
theorem namesOf_fresh (fresh fresh' : Bool) (row : List Lexeme) :
    TemplatePart.namesOf 0 before (cellsOf fresh row) =
      TemplatePart.namesOf 0 before (cellsOf fresh' row) := by
  cases row with
  | nil => rfl
  | cons lexeme row =>
      rw [cellsOf_cons, cellsOf_cons, cells, cells]
      split
      · rfl
      · rfl

/-- A row without comments, or one that is cut at its first comment. -/
theorem Fine.atomic_or_exists {next : Option Char} (hfine : Fine next row) :
    Atomic row ∨ ∃ front comment back, row = front ++ comment :: back ∧ Atomic front ∧
      comment.kind.isComment = true := by
  induction row with
  | nil => exact .inl atomic_nil
  | cons lexeme row ih =>
      obtain ⟨hlexeme, -, hrow⟩ := hfine
      cases hcomment : lexeme.kind.isComment with
      | true => exact .inr ⟨[], lexeme, row, rfl, atomic_nil, hcomment⟩
      | false =>
          have hatom := hlexeme.isAtom hcomment
          rcases ih hrow with hrow | ⟨front, comment, back, rfl, hfront, hkind⟩
          · exact .inl (atomic_cons.mpr ⟨hatom, hrow⟩)
          · exact .inr ⟨lexeme :: front, comment, back, rfl, atomic_cons.mpr ⟨hatom, hfront⟩, hkind⟩

theorem covered_of_atomic (hatomic : Atomic row) : covered row = row := by
  induction row with
  | nil => rfl
  | cons lexeme row ih =>
      obtain ⟨hatom, hrow⟩ := atomic_cons.mp hatomic
      rw [covered, List.flatMap_cons, ← covered, ih hrow]
      cases lexeme with
      | mark _ | literal _ _ => rfl
      | word _ | lineComment _ | blockComment _ => exact hatom.elim

/-- A comment does not end with a colon, or the end of its line is behind it. -/
theorem IsFine.getLast?_or_head? {comment : Lexeme} (hfine : comment.IsFine)
    (hkind : comment.kind.isComment = true) (hends : comment.EndsBefore (textOf row).head?)
    (fresh : Bool) :
    comment.text.getLast? ≠ some ':' ∧ (none : Option Char) ≠ some ':' ∨
      ∀ cell ∈ (cellsOf fresh row).head?, cell.isCodeChar ':' = false := by
  cases comment with
  | blockComment content =>
      left
      have htext : (blockComment content).text = ('/' :: '*' :: content ++ ['*']) ++ ['/'] := by
        simp [text]
      rw [htext, List.getLast?_concat]
      simp
  | lineComment content =>
      right
      intro cell hcell
      rw [EndsBefore, ← text_cellsOf fresh row, Cell.text, List.head?_map, hcell] at hends
      rcases hends with hnone | hbreak
      · exact absurd hnone (by simp)
      · rw [Cell.isCodeChar, Option.some.inj hbreak]
        simp
  | word _ | mark _ | literal _ _ => simp [kind, SpanKind.isComment] at hkind

/-- Cells of a comment, or of the spaces in its place, have no parameters and let none pass. -/
theorem namesOf_append_of_blank {skip : List Cell} (front back : List Cell) (hne : skip ≠ [])
    (hskip : ∀ cell ∈ skip, TemplatePart.isOpenCell cell = false) :
    TemplatePart.namesOf 0 before (front ++ (skip ++ back)) =
      TemplatePart.namesOf 0 before front ++
        TemplatePart.namesOf 0 (Cell.text skip).getLast? back := by
  have hlast : skip.getLast?.any TemplatePart.isOpenCell = false := by
    rw [List.getLast?_eq_some_getLast hne]
    exact hskip _ (List.getLast_mem hne)
  have hhead : (skip ++ back).head?.any TemplatePart.isNameCell = false := by
    obtain ⟨cell, rest, rfl⟩ := List.exists_cons_of_ne_nil hne
    have hcell := hskip cell List.mem_cons_self
    by_contra hname
    rw [TemplatePart.isOpenCell_of_isNameCell (Bool.of_not_eq_false hname)] at hcell
    exact absurd hcell (by decide)
  have hcolon : ∀ cell ∈ skip, cell.isCodeChar ':' = false := by
    intro cell hmem
    have hcell := hskip cell hmem
    by_contra hcolon
    rw [Bool.not_eq_false, Cell.isCodeChar, Bool.and_eq_true, beq_iff_eq] at hcolon
    rw [TemplatePart.isOpenCell, hcolon.1, hcolon.2] at hcell
    exact absurd hcell (by decide)
  rw [TemplatePart.namesOf_append (Nat.zero_le _) (.inr hhead),
    TemplatePart.namesOf_append (Nat.zero_le _) (.inl hlast), TemplatePart.namesOf_of_forall hcolon,
    List.nil_append]
  rw [Cell.text, List.getLast?_map, List.getLast?_eq_some_getLast hne]
  rfl

theorem not_isOpenCell_of_comment {comment : Lexeme} (fresh : Bool)
    (hkind : comment.kind.isComment = true) :
    ∀ cell ∈ comment.cells fresh, TemplatePart.isOpenCell cell = false := by
  intro cell hmem
  have hcode : ∀ kind : SpanKind, kind.isComment = true → (kind == .code) = false := by
    rintro (_ | _ | _ | _) hcomment <;> first | rfl | exact absurd hcomment (by decide)
  rw [TemplatePart.isOpenCell, Cell.isCode, kind_of_mem_cells hmem, hcode _ hkind, Bool.false_and]

theorem not_isOpenCell_of_spaces (fresh : Bool) (count : Nat) :
    ∀ cell ∈ cellsOf fresh (marks (List.replicate count ' ')),
      TemplatePart.isOpenCell cell = false := by
  intro cell hmem
  have hchar : cell.char ∈ List.replicate count ' ' := by
    rw [← textOf_marks (List.replicate _ ' '), ← text_cellsOf fresh]
    exact List.mem_map_of_mem hmem
  rw [TemplatePart.isOpenCell, List.eq_of_mem_replicate hchar]
  exact Bool.and_false _

/-- A comment and the spaces in its place both end the parameters in front of them, and begin
none. -/
theorem namesOf_comment {comment : Lexeme} {back back' : List Cell} (fresh : Bool)
    (front : List Lexeme) (hcomment : comment.IsFine) (hkind : comment.kind.isComment = true)
    (hback : TemplatePart.namesOf 0 comment.text.getLast? back =
      TemplatePart.namesOf 0 (some ' ') back') :
    TemplatePart.namesOf 0 before
        (cellsOf fresh front ++ (comment.cells (freshBehind fresh front) ++ back)) =
      TemplatePart.namesOf 0 before (cellsOf fresh front ++
        (cellsOf (freshBehind fresh front) (cover comment) ++ back')) := by
  have hspaces : cover comment = marks (List.replicate (Text.size comment.text) ' ') := by
    rw [cover, if_pos hkind]
  obtain ⟨count, hcount⟩ := Nat.exists_eq_succ_of_ne_zero hcomment.size_pos.ne'
  rw [namesOf_append_of_blank _ _ ?_ (not_isOpenCell_of_comment _ hkind), hspaces,
    namesOf_append_of_blank _ _ ?_ (not_isOpenCell_of_spaces _ _), text_cells, text_cellsOf,
    textOf_marks, hback]
  · rw [hcount, List.replicate_succ', List.getLast?_concat]
  · rw [hcount]
    simp [marks, List.replicate_succ]
  · intro hnil
    have htext := text_cells (freshBehind fresh front) comment
    rw [hnil] at htext
    exact hcomment.text_ne_nil htext.symm

/-- Masking comments does not change the parameters. -/
theorem Fine.namesOf_covered {before' : Option Char} (hfine : Fine none row) (fresh fresh' : Bool)
    (hbefore : before ≠ some ':') (hbefore' : before' ≠ some ':') :
    TemplatePart.namesOf 0 before (cellsOf fresh row) =
      TemplatePart.namesOf 0 before' (cellsOf fresh' (covered row)) := by
  -- From comment to comment: in front of one the rows are the same.
  induction hlength : row.length using Nat.strong_induction_on
    generalizing row before before' fresh fresh' with
  | _ length ih =>
      rcases hfine.atomic_or_exists with hatomic | ⟨front, comment, back, rfl, hfront, hkind⟩
      · rw [covered_of_atomic hatomic, namesOf_fresh fresh fresh',
          TemplatePart.namesOf_before (.inl ⟨hbefore, hbefore'⟩)]
      · obtain ⟨hcomment, hends, hback⟩ := hfine.right
        have hcovered : covered (front ++ comment :: back) = front ++ (cover comment ++ covered back) := by
          have hfront := covered_of_atomic hfront
          rw [covered] at hfront
          rw [covered, List.flatMap_append, List.flatMap_cons, hfront, covered]
        have hshort : back.length < length := by
          rw [← hlength, List.length_append, List.length_cons]
          omega
        rw [hcovered, namesOf_fresh fresh' fresh,
          TemplatePart.namesOf_before (.inl ⟨hbefore', hbefore⟩), cellsOf_append, cellsOf_cons,
          cellsOf_append, cellsOf_append]
        refine namesOf_comment fresh front hcomment hkind ?_
        have hlast : TemplatePart.namesOf 0 comment.text.getLast? (cellsOf (!comment.isCode) back) =
            TemplatePart.namesOf 0 none (cellsOf (!comment.isCode) back) :=
          TemplatePart.namesOf_before
            (hcomment.getLast?_or_head? hkind (by rwa [Option.or_none] at hends) _)
        rw [hlast]
        exact ih back.length hshort hback _ _ (show (none : Option Char) ≠ some ':' by simp)
          (by simp) rfl

end Lexeme

end SelectForm

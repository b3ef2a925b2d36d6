import Mathlib
import SelectForm.Proofs.Lexis.HeldParameters

/-!
# Question marks in the places of parameters

A statement with named parameters is rewritten to one with question marks.  A question mark
is code wherever a parameter was, so every other character keeps its lexical class, and a
colon that was no parameter does not become one.  The rewritten statement and the list of
names therefore hold all that the statement held: putting the names back in the places of
the marks restores it.
-/

namespace SelectForm

namespace TemplatePart

variable {before : Option Char} {cell : Cell} {cells back rewritten : List Cell}
  {parts : List TemplatePart}

/-! ## Cells and their pieces -/

/-- Whether a parameter begins at a cell with some cells behind it. -/
def begins (before : Option Char) (cell : Cell) (cells : List Cell) : Bool :=
  cell.isCodeChar ':' && before != some ':' && cells.head?.any isNameCell

/-- Some cells, the pieces that they are taken apart into, and the cells that are left when
every parameter is one question mark. -/
inductive Rewrites : Option Char → List Cell → List TemplatePart → List Cell → Prop
  | nil (before : Option Char) : Rewrites before [] [] []
  | plain {before : Option Char} {cell : Cell} {cells : List Cell} {parts : List TemplatePart}
      {rewritten : List Cell} (hbegins : begins before cell cells = false)
      (hrest : Rewrites (some cell.char) cells parts rewritten) :
      Rewrites before (cell :: cells) (plain cell.char :: parts) (cell :: rewritten)
  | parameter {before : Option Char} {opens : Bool} {name back : List Cell} {last : Cell}
      {parts : List TemplatePart} {rewritten : List Cell} (hbefore : before ≠ some ':')
      (hname : ∀ cell ∈ name, isNameCell cell = true) (hlast : name.getLast? = some last)
      (hback : back.head?.any isNameCell = false)
      (hrest : Rewrites (some last.char) back parts rewritten) :
      Rewrites before (⟨':', .code, opens⟩ :: (name ++ back))
        (parameter (Cell.text name) :: parts) (⟨'?', .code, opens⟩ :: rewritten)

theorem ofCells_length_append (name back : List Cell) (before : Option Char) :
    ofCells name.length before (name ++ back) =
      ofCells 0 ((name.getLast?.map Cell.char).or before) back := by
  induction name generalizing before with
  | nil => rfl
  | cons cell name ih =>
      rw [List.length_cons, List.cons_append, ofCells, ih, List.getLast?_cons]
      cases name.getLast? <;> rfl

theorem isEmpty_takeWhile_isNameCell (cells : List Cell) :
    (cells.takeWhile isNameCell).isEmpty = !cells.head?.any isNameCell := by
  cases cells with
  | nil => rfl
  | cons cell cells =>
      rw [List.takeWhile_cons, List.head?_cons, Option.any_some]
      cases isNameCell cell <;> rfl

/-- The next cell begins a parameter, or is a piece of its own. -/
theorem ofCells_cons (before : Option Char) (cell : Cell) (cells : List Cell) :
    ofCells 0 before (cell :: cells) =
      if begins before cell cells then
        parameter (Cell.text (cells.takeWhile isNameCell)) ::
          ofCells (cells.takeWhile isNameCell).length (some cell.char) cells
      else
        plain cell.char :: ofCells 0 (some cell.char) cells := by
  have hempty : (Cell.text (cells.takeWhile isNameCell)).isEmpty =
      !cells.head?.any isNameCell := by
    rw [← isEmpty_takeWhile_isNameCell]
    exact List.isEmpty_map
  have hlength : (Cell.text (cells.takeWhile isNameCell)).length =
      (cells.takeWhile isNameCell).length := List.length_map _
  rw [begins, ← Bool.not_not (cells.head?.any isNameCell), ← hempty, ← hlength]
  rfl

/-- All cells are taken apart. -/
theorem exists_rewrites (before : Option Char) (cells : List Cell) :
    ∃ rewritten, Rewrites before cells (ofCells 0 before cells) rewritten := by
  induction hlength : cells.length using Nat.strong_induction_on generalizing before cells with
  | _ length ih =>
      cases cells with
      | nil => exact ⟨[], .nil before⟩
      | cons cell cells =>
          rw [List.length_cons] at hlength
          rw [ofCells_cons]
          cases hbegins : begins before cell cells with
          | false =>
              obtain ⟨rewritten, hrest⟩ := ih cells.length (by omega) (some cell.char) cells rfl
              exact ⟨cell :: rewritten, .plain hbegins hrest⟩
          | true =>
              rw [begins, Bool.and_eq_true, Bool.and_eq_true, bne_iff_ne, Cell.isCodeChar,
                Bool.and_eq_true, beq_iff_eq, Cell.isCode, beq_iff_eq] at hbegins
              obtain ⟨⟨⟨hkind, hchar⟩, hbefore⟩, hhead⟩ := hbegins
              obtain ⟨char, kind, opens⟩ := cell
              obtain rfl : char = ':' := hchar
              obtain rfl : kind = .code := hkind
              have hsplit := List.takeWhile_append_dropWhile (p := isNameCell) (l := cells)
              have hname : ∀ cell ∈ cells.takeWhile isNameCell, isNameCell cell = true :=
                fun cell hmem => List.mem_takeWhile_imp hmem
              have hback : (cells.dropWhile isNameCell).head?.any isNameCell = false := by
                have hnot := List.head?_dropWhile_not isNameCell cells
                cases hdrop : (cells.dropWhile isNameCell).head? with
                | none => rfl
                | some next => rwa [hdrop] at hnot
              have hne : cells.takeWhile isNameCell ≠ [] := by
                rw [← List.isEmpty_eq_false_iff, isEmpty_takeWhile_isNameCell, hhead]
                rfl
              generalize cells.takeWhile isNameCell = name at hsplit hname hne
              generalize cells.dropWhile isNameCell = back at hsplit hback
              obtain rfl := hsplit
              have hlast := List.getLast?_eq_some_getLast hne
              rw [List.length_append] at hlength
              obtain ⟨rewritten, hrest⟩ := ih back.length (by omega)
                (some (name.getLast hne).char) back rfl
              refine ⟨⟨'?', .code, opens⟩ :: rewritten, ?_⟩
              rw [if_pos rfl, ofCells_length_append, hlast]
              exact .parameter hbefore hname hlast hback hrest

/-! ## The rewritten cells -/

namespace Rewrites

/-- The rewritten cells are the pieces with question marks among them. -/
theorem text_rewritten (hrewrites : Rewrites before cells parts rewritten) :
    Cell.text rewritten = parts.flatMap positional := by
  induction hrewrites with
  | nil => rfl
  | plain _ _ ih | parameter _ _ _ _ _ ih =>
      rw [List.flatMap_cons, ← ih]
      rfl

/-- Rewriting removes a colon only where a name is behind it. -/
theorem head?_rewritten (hrewrites : Rewrites before cells parts rewritten) :
    rewritten.head? = cells.head? ∨
      ∃ opens, cells.head? = some ⟨':', .code, opens⟩ ∧
        rewritten.head? = some ⟨'?', .code, opens⟩ := by
  cases hrewrites with
  | nil => exact .inl rfl
  | plain => exact .inl rfl
  | @parameter _ opens => exact .inr ⟨opens, rfl, rfl⟩

end Rewrites

end TemplatePart

/-! ## Reading what was rewritten -/

namespace Mode

variable {mode : Mode} {c : Char} {next : Option Char}

theorem snd_enter_of_isCode (fresh : Bool) (hcode : (enter fresh c next).1.isCode = true) :
    (enter fresh c next).2 = .code := by
  unfold enter at hcode ⊢
  cases hquote : Quote.ofChar? c with
  | some quote => simp [hquote, Cell.isCode] at hcode
  | none =>
      simp only [hquote] at hcode ⊢
      split_ifs at hcode ⊢ with hline hblock
      · exact absurd hcode (by simp [Cell.isCode])
      · exact absurd hcode (by simp [Cell.isCode])
      · rfl

theorem snd_step_of_isCode (hcode : (mode.step c next).1.isCode = true) :
    (mode.step c next).2 = .code := by
  cases mode with
  | between => exact snd_enter_of_isCode true hcode
  | code => exact snd_enter_of_isCode false hcode
  | line =>
      by_cases hbreak : c = '\n'
      · simp [step, hbreak]
      · exact absurd hcode (by simp [step, hbreak, Cell.isCode])
  | quoted _ | doubled _ | blockHead | block | blockTail =>
      exact absurd hcode (by simp [step, Cell.isCode])

/-- A question mark is code wherever a colon is. -/
theorem step_questionMark {opens : Bool} {next' : Option Char}
    (hcolon : (mode.step ':' next).1 = ⟨':', .code, opens⟩) :
    mode.step '?' next' = (⟨'?', .code, opens⟩, .code) := by
  cases mode with
  | between | code =>
      have hopens : _ = opens := congrArg Cell.opens hcolon
      rw [← hopens]
      rfl
  | line | quoted _ | doubled _ | blockHead | block | blockTail =>
      exact absurd (congrArg Cell.kind hcolon) (by simp [step])

/-- A question mark behind a character tells as little about it as a colon does. -/
theorem step_next (mode : Mode) (c : Char) :
    mode.step c (some '?') = mode.step c (some ':') := by
  cases mode with
  | between | code => simp [step, enter]
  | quoted quote => cases quote <;> simp [step, Quote.char]
  | block => simp [step]
  | doubled _ | line | blockHead | blockTail => rfl

end Mode

namespace TemplatePart

namespace Rewrites

/-- What is behind a character tells as much about it as before. -/
theorem step_head? (hrewrites : Rewrites before cells parts rewritten) (mode : Mode) (c : Char) :
    mode.step c (Cell.text rewritten).head? = mode.step c (Cell.text cells).head? := by
  rw [Cell.text, Cell.text, List.head?_map, List.head?_map]
  rcases hrewrites.head?_rewritten with hsame | ⟨opens, hcolon, hmark⟩
  · rw [hsame]
  · rw [hcolon, hmark]
    exact mode.step_next c

/-- What is behind a name is read on as code. -/
theorem cells_behind_name {name : List Cell} {mode : Mode}
    (hname : ∀ cell ∈ name, isNameCell cell = true) (hmode : mode = .code)
    (hcells : mode.cells (Cell.text (name ++ back)) = name ++ back) :
    Mode.code.cells (Cell.text back) = back := by
  induction name generalizing mode with
  | nil => rwa [hmode] at hcells
  | cons cell name ih =>
      rw [List.forall_mem_cons, isNameCell, Bool.and_eq_true] at hname
      rw [List.cons_append, Cell.text, List.map_cons, ← Cell.text, Mode.cells,
        List.cons.injEq] at hcells
      refine ih hname.2 (Mode.snd_step_of_isCode ?_) hcells.2
      rw [hcells.1]
      exact hname.1.1

/-- The rewritten text is read as the rewritten cells. -/
theorem cells_rewritten (hrewrites : Rewrites before cells parts rewritten) {mode : Mode}
    (hcells : mode.cells (Cell.text cells) = cells) :
    mode.cells (Cell.text rewritten) = rewritten := by
  induction hrewrites generalizing mode with
  | nil => rfl
  | @plain _ cell cells _ rewritten _ hrest ih =>
      rw [Cell.text, List.map_cons, ← Cell.text, Mode.cells, List.cons.injEq] at hcells ⊢
      rw [hrest.step_head?]
      exact ⟨hcells.1, ih hcells.2⟩
  | @parameter _ opens name back last _ rewritten _ hname _ _ hrest ih =>
      rw [Cell.text, List.map_cons, ← Cell.text, Mode.cells, List.cons.injEq] at hcells ⊢
      have hmark := @Mode.step_questionMark _ _ _ (Cell.text rewritten).head? hcells.1
      rw [hmark]
      refine ⟨rfl, ih ?_⟩
      refine cells_behind_name hname (Mode.snd_step_of_isCode ?_) hcells.2
      rw [hcells.1]
      rfl

/-- The rewritten cells hold no parameter. -/
theorem ofCells_rewritten {before' : Option Char}
    (hrewrites : Rewrites before cells parts rewritten)
    (hbefore : before' = some ':' ↔ before = some ':') :
    ofCells 0 before' rewritten = rewritten.map fun cell => TemplatePart.plain cell.char := by
  induction hrewrites generalizing before' with
  | nil => rfl
  | @plain before cell cells _ rewritten hbegins hrest ih =>
      have hno : begins before' cell rewritten = false := by
        have hcolon : (before' != some ':') = (before != some ':') := by
          rw [Bool.eq_iff_iff, bne_iff_ne, bne_iff_ne, Ne, Ne, hbefore]
        rw [begins, hcolon]
        rcases hrest.head?_rewritten with hsame | ⟨opens, -, hmark⟩
        · rw [hsame]
          exact hbegins
        · rw [hmark]
          exact Bool.and_false _
      rw [ofCells_cons, hno, if_neg Bool.false_ne_true, List.map_cons, ih Iff.rfl]
  | @parameter before opens name back last _ rewritten _ hname hlast _ hrest ih =>
      have hno : begins before' ⟨'?', .code, opens⟩ rewritten = false := rfl
      have hletter := hname last (List.mem_of_getLast? hlast)
      rw [ofCells_cons, hno, if_neg Bool.false_ne_true, List.map_cons, ih]
      refine iff_of_false (by simp) fun hcolon => ?_
      rw [isNameCell, Option.some.inj hcolon] at hletter
      exact absurd hletter (by simp [Text.isParameterChar, Char.isAlphanum])

end Rewrites

end TemplatePart

/-! ## Restoring a statement -/

namespace PositionalStatement

/-- Puts names with their colons in the places of the question marks of code, as long as
there are names. -/
def fill : List String → List Cell → Text
  | _, [] => []
  | [], cell :: cells => cell.char :: fill [] cells
  | name :: names, cell :: cells =>
    if cell.isCodeChar '?' then ':' :: name.toList ++ fill names cells
    else cell.char :: fill (name :: names) cells

/-- The statement with its parameters in the places of the question marks. -/
def restored (statement : PositionalStatement) : Text :=
  fill statement.parameters statement.text.cells

theorem fill_cons_of_not {cell : Cell} (names : List String) (cells : List Cell)
    (hcell : cell.isCodeChar '?' = false) :
    fill names (cell :: cells) = cell.char :: fill names cells := by
  cases names with
  | nil => rfl
  | cons name names => rw [fill, hcell, if_neg Bool.false_ne_true]

end PositionalStatement

namespace TemplatePart.Rewrites

variable {before : Option Char} {cells rewritten : List Cell} {parts : List TemplatePart}

theorem length_filter (hrewrites : Rewrites before cells parts rewritten)
    (hmarks : ∀ cell ∈ cells, cell.isCodeChar '?' = false) :
    (rewritten.filter (Cell.isCodeChar '?')).length = (parts.filterMap name?).length := by
  induction hrewrites with
  | nil => rfl
  | plain _ _ ih =>
      rw [List.forall_mem_cons] at hmarks
      rw [List.filter_cons_of_neg (by simp [hmarks.1]), ih hmarks.2]
      rfl
  | parameter _ _ _ _ _ ih =>
      rw [List.forall_mem_cons, List.forall_mem_append] at hmarks
      rw [List.filter_cons_of_pos (by rfl), List.length_cons, ih hmarks.2.2]
      rfl

/-- The names in the places of the question marks give the text back. -/
theorem fill_rewritten (hrewrites : Rewrites before cells parts rewritten)
    (hmarks : ∀ cell ∈ cells, cell.isCodeChar '?' = false) :
    PositionalStatement.fill (parts.filterMap name?) rewritten = Cell.text cells := by
  induction hrewrites with
  | nil => rfl
  | @plain _ cell _ parts _ _ _ ih =>
      rw [List.forall_mem_cons] at hmarks
      have hparts : (TemplatePart.plain cell.char :: parts).filterMap name? =
          parts.filterMap name? := rfl
      rw [hparts, PositionalStatement.fill_cons_of_not _ _ hmarks.1, ih hmarks.2]
      rfl
  | @parameter _ opens name back _ parts _ _ _ _ _ _ ih =>
      rw [List.forall_mem_cons, List.forall_mem_append] at hmarks
      have hparts : (TemplatePart.parameter (Cell.text name) :: parts).filterMap name? =
          String.ofList (Cell.text name) :: parts.filterMap name? := rfl
      have hmark : (Cell.mk '?' .code opens).isCodeChar '?' = true := rfl
      rw [hparts, PositionalStatement.fill, hmark, if_pos rfl, ih hmarks.2.2, String.toList_ofList]
      simp [Cell.text]

end TemplatePart.Rewrites

/-! ## Binding values -/

namespace PositionalStatement

variable {α : Type} {statement : PositionalStatement} {value? : String → Option α}

theorem bind_cons (text : Text) (name : String) (names : List String) (value? : String → Option α) :
    bind ⟨text, name :: names⟩ value? =
      match value? name with
      | some value => (bind ⟨text, names⟩ value?).map (value :: ·)
      | none => .error (.missing name) := by
  have hmap : ∀ (value : α) (rest : Except BindError (List α)),
      (Except.ok value >>= fun first => rest >>= fun values => pure (first :: values)) =
        rest.map (value :: ·) := by
    intro value rest
    cases rest <;> rfl
  rw [bind, List.mapM_cons]
  cases value? name with
  | none => rfl
  | some value => exact hmap value _

theorem bind_eq_ok_iff {values : List α} :
    statement.bind value? = .ok values ↔ statement.parameters.map value? = values.map some := by
  obtain ⟨text, names⟩ := statement
  induction names generalizing values with
  | nil => cases values <;> simp [bind, pure, Except.pure]
  | cons name names ih =>
      rw [bind_cons, List.map_cons]
      cases hvalue : value? name with
      | none => cases values <;> simp
      | some value =>
          cases values with
          | nil => cases hrest : bind ⟨text, names⟩ value? <;> simp [Except.map]
          | cons first values =>
              rw [List.map_cons, List.cons.injEq, Option.some.injEq, ← ih]
              cases hrest : bind ⟨text, names⟩ value? <;> simp [Except.map]

/-- An error names the first parameter that has no value. -/
theorem bind_eq_error_iff {error : BindError} :
    statement.bind value? = .error error ↔
      ∃ front name back, statement.parameters = front ++ name :: back ∧
        (∀ earlier ∈ front, (value? earlier).isSome = true) ∧ value? name = none ∧
          error = .missing name := by
  obtain ⟨text, names⟩ := statement
  induction names with
  | nil => simp [bind, pure, Except.pure]
  | cons name names ih =>
      rw [bind_cons]
      cases hvalue : value? name with
      | none =>
          constructor
          · rintro hmissing
            exact ⟨[], name, names, rfl, List.forall_mem_nil _, hvalue, (Except.error.inj hmissing).symm⟩
          · rintro ⟨front, missing, back, hnames, hfront, hmissing, rfl⟩
            cases front with
            | nil => rw [(List.cons.inj hnames).1]
            | cons first front =>
                have hfirst := hfront first List.mem_cons_self
                rw [← (List.cons.inj hnames).1, hvalue] at hfirst
                exact absurd hfirst (by simp)
      | some value =>
          have hmap : (bind ⟨text, names⟩ value?).map (value :: ·) = .error error ↔
              bind ⟨text, names⟩ value? = .error error := by
            cases bind ⟨text, names⟩ value? <;> simp [Except.map]
          rw [hmap, ih]
          constructor
          · rintro ⟨front, missing, back, hnames, hfront, hmissing⟩
            refine ⟨name :: front, missing, back, congrArg (name :: ·) hnames, ?_, hmissing⟩
            exact List.forall_mem_cons.mpr ⟨by rw [hvalue]; rfl, hfront⟩
          · rintro ⟨front, missing, back, hnames, hfront, hmissing, herror⟩
            cases front with
            | nil =>
                rw [(List.cons.inj hnames).1, hmissing] at hvalue
                exact absurd hvalue (by simp)
            | cons first front =>
                exact ⟨front, missing, back, (List.cons.inj hnames).2,
                  fun earlier hmem => hfront earlier (List.mem_cons_of_mem _ hmem), hmissing, herror⟩

theorem isOk_bind_iff :
    (∃ values, statement.bind value? = .ok values) ↔
      ∀ name ∈ statement.parameters, (value? name).isSome = true := by
  constructor
  · rintro ⟨values, hvalues⟩ name hmem
    rw [bind_eq_ok_iff] at hvalues
    have hvalue := List.mem_map_of_mem (f := value?) hmem
    rw [hvalues] at hvalue
    obtain ⟨value, -, hvalue⟩ := List.mem_map.mp hvalue
    rw [← hvalue]
    rfl
  · intro hall
    cases hbind : statement.bind value? with
    | ok values => exact ⟨values, rfl⟩
    | error error =>
        obtain ⟨front, name, back, hnames, -, hmissing, -⟩ := bind_eq_error_iff.mp hbind
        have hsome := hall name (by rw [hnames]; simp)
        rw [hmissing] at hsome
        exact absurd hsome (by simp)

/-- A statement without question marks of its own, and its form with question marks in the
places of the parameters: there is one mark for each name, the names in their places restore
the statement, no parameter is left, the names are the parameters of the statement, and
binding gives the values of the names in their order or reports the first name without one. -/
theorem ofText_faithful {text : Text} (hmarks : ∀ cell ∈ text.cells, cell.isCodeChar '?' = false) :
    ((ofText text).text.cells.filter (Cell.isCodeChar '?')).length =
        (ofText text).parameters.length ∧
      (ofText text).restored = text ∧
      ofText (ofText text).text = ⟨(ofText text).text, []⟩ ∧
      (ofText text).parameters.eraseDups = text.parameterNames ∧
      ∀ (α : Type) (value? : String → Option α),
        ((∃ values, (ofText text).bind value? = .ok values) ↔
            ∀ name ∈ (ofText text).parameters, (value? name).isSome = true) ∧
          (∀ values, (ofText text).bind value? = .ok values →
            (ofText text).parameters.map value? = values.map some) ∧
          ∀ error, (ofText text).bind value? = .error error →
            ∃ front name back, (ofText text).parameters = front ++ name :: back ∧
              (∀ earlier ∈ front, (value? earlier).isSome = true) ∧ value? name = none ∧
                error = .missing name := by
  obtain ⟨rewritten, hrewrites⟩ := TemplatePart.exists_rewrites none text.cells
  have htext : (ofText text).text = Cell.text rewritten := hrewrites.text_rewritten.symm
  have hcells : (ofText text).text.cells = rewritten := by
    rw [htext]
    refine hrewrites.cells_rewritten ?_
    rw [Text.cells, Mode.text_cells]
  have hrewritten : ofText (ofText text).text = ⟨(ofText text).text, []⟩ := by
    have hplain := hrewrites.ofCells_rewritten Iff.rfl
    rw [← hcells] at hplain
    have htemplate : (ofText text).text.template =
        (ofText text).text.cells.map fun cell => TemplatePart.plain cell.char := hplain
    rw [ofText, htemplate]
    congr 1
    · rw [List.flatMap_map]
      conv_rhs => rw [htext, ← hcells]
      exact List.map_eq_flatMap.symm
    · rw [List.filterMap_map]
      exact List.filterMap_eq_nil_iff.mpr fun _ _ => rfl
  refine ⟨?_, ?_, hrewritten, rfl, fun α value? =>
    ⟨isOk_bind_iff, fun values => bind_eq_ok_iff.mp, fun error => bind_eq_error_iff.mp⟩⟩
  · rw [hcells]
    exact hrewrites.length_filter hmarks
  · rw [restored, hcells]
    exact (hrewrites.fill_rewritten hmarks).trans (Mode.text_cells _ _)

/-- Casts, a literal and a comment with marks of their own, and a parameter that stands
twice. -/
theorem ofText_faithful_casts :
    let text : Text := "a::int = :lo::text AND b = ':y ?' /* ? */ OR c IN (:é, :x, :lo) -- :z?".toList
    (∀ cell ∈ text.cells, cell.isCodeChar '?' = false) ∧
      (ofText text).text =
        "a::int = ?::text AND b = ':y ?' /* ? */ OR c IN (:é, ?, ?) -- :z?".toList ∧
      (ofText text).parameters = ["lo", "x", "lo"] ∧ (ofText text).restored = text ∧
      ∃ front back, ["lo", "x", "lo"] = front ++ "x" :: back ∧
        (ofText text).bind (fun name => if name = "lo" then some 1 else none) =
          .error (.missing "x") := by
  intro text
  have hmarks : ∀ cell ∈ text.cells, cell.isCodeChar '?' = false := by decide +kernel
  have hnames : (ofText text).parameters = ["lo", "x", "lo"] := by decide +kernel
  have hbind : (ofText text).bind (fun name => if name = "lo" then some 1 else none) =
      .error (.missing "x") := by decide +kernel
  obtain ⟨-, hrestored, -, -, hvalues⟩ := ofText_faithful hmarks
  obtain ⟨front, name, back, hfront, -, -, hname⟩ := (hvalues Nat _).2.2 _ hbind
  obtain rfl : "x" = name := by simpa using hname
  exact ⟨hmarks, by decide +kernel, hnames, hrestored, front, back, hnames ▸ hfront, hbind⟩

end PositionalStatement

end SelectForm

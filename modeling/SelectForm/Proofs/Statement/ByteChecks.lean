import Mathlib
import SelectForm.Proofs.Statement.ByteCursor
import SelectForm.Proofs.Statement.PlacedStatement
import SelectForm.Proofs.Statement.ReadLocated

/-!
# Checking a statement byte by byte

The checks of a whole statement look for single bytes, for parentheses and for keywords.  What they
cut out, the statement in front of a semicolon and the words that may not stand in it, lies between
characters.
-/

namespace SelectForm

theorem Fragment.LiesIn.cut?_eq {whole : Text} {fragment : Fragment}
    (hlies : fragment.LiesIn whole) :
    whole.cut? fragment.start fragment.stop = some fragment.text := by
  obtain ⟨before, behind, rfl, hstart⟩ := hlies
  rw [stop, hstart]
  exact Text.cut?_append before fragment.text behind

namespace Bytewise

/-! ## Checks -/

/-- The first place of a byte in code. -/
def findByte (wanted : UInt8) (text : Text) (mask : List Bool) (place : Nat) :
    Option (Option Nat) :=
  if place < Text.size text then do
    let code ← mask[place]?
    let byte ← text.byteAt? place
    if code && byte == wanted then
      some (some place)
    else
      findByte wanted text mask (place + 1)
  else
    some none
termination_by Text.size text - place

/-- The place of a parenthesis without a partner. -/
def unbalanced (text : Text) (mask : List Bool) (opened : List Nat) (place : Nat) :
    Option (Option (Char × Nat)) :=
  if place < Text.size text then do
    let code ← mask[place]?
    if code then
      let byte ← text.byteAt? place
      if byte = 0x28 then
        unbalanced text mask (place :: opened) (place + 1)
      else if byte = 0x29 then
        match opened with
        | [] => some (some (')', place))
        | _ :: opened => unbalanced text mask opened (place + 1)
      else
        unbalanced text mask opened (place + 1)
    else
      unbalanced text mask opened (place + 1)
  else
    some (opened.head?.map fun place => ('(', place))
termination_by Text.size text - place

/-- Rejects a literal or a comment that is not closed. -/
def rejectUnclosed (text : Text) : Checked Unit := do
  let found ← spans text
  match found.find? fun span => !span.terminated with
  | none => pure ()
  | some span =>
    let cause : ParseError.Cause :=
      match span.kind with
      | .blockComment => .unterminatedComment
      | .quoted .double => .unterminatedIdentifier
      | _ => .unterminatedString
    throw ((Fragment.mk span.text span.start).error cause none)

/-- The statement in front of a semicolon, which nothing may follow. -/
def single (text : Text) : Checked Text := do
  let mask ← codeMask text
  match ← findByte 0x3B text mask 0 with
  | none => pure text
  | some place => do
    let behind ← text.cut? (place + 1) (Text.size text)
    let trailing : Fragment := ⟨behind, place + 1⟩
    if trailing.isBlank then do
      let statement ← text.cut? 0 place
      pure statement
    else
      throw (trailing.trim.error .multipleStatements none)

/-- Rejects parentheses that are not balanced. -/
def rejectUnbalanced (text : Text) : Checked Unit := do
  let mask ← codeMask text
  match ← unbalanced text mask [] 0 with
  | none => pure ()
  | some (c, place) => throw ((Fragment.mk [c] place).error .unbalancedParentheses none)

/-- The first construct of a statement that is not supported. -/
def unsupported (text : Text) : Option (Option ParseError) := do
  let start ← skip Text.isAsciiBlank { text }
  let mask ← codeMask text
  let head ← Statement.rejectedHeads.findSomeM? fun (keyword, cause) =>
    (lengthAt keyword start).map fun length => length.map fun _ =>
      (Fragment.mk keyword.name.toList start.position).error cause none
  let word ← Statement.rejectedWords.findSomeM? fun (keyword, cause, allowed) => do
    let places ← occurrences text mask keyword 0
    match places[allowed]? with
    | none => some none
    | some (first, last) =>
      (text.cut? first last).map fun found => some ((Fragment.mk found first).error cause none)
  let mark ← findByte 0x3F text mask 0
  some (head.or (word.or (mark.map fun place =>
    (Fragment.mk ['?'] place).error .positionalParameter none)))

/-- Rejects constructs that are not supported. -/
def rejectUnsupported (text : Text) : Checked Unit := do
  match ← unsupported text with
  | some error => throw error
  | none => pure ()

/-! ## What is found -/

section Bytes

variable {text : Text} {passed cells : List Cell} {c : Char}

/-- The first place of a character of ASCII in code. -/
theorem findByte_eq (hascii : c.toNat < 0x80) (hcells : text.cells = passed ++ cells) :
    findByte (UInt8.ofNat c.toNat) text text.codeMask (Text.size (Cell.text passed)) =
      some (if cells.any (Cell.isCodeChar c) then
        some (Text.size (Cell.text passed) +
          Text.size (Cell.text (cells.takeWhile fun cell => !cell.isCodeChar c)))
      else none) := by
  induction cells generalizing passed with
  | nil =>
      rw [findByte, if_neg (by simp [size_eq_of_cells hcells, Cell.text])]
      rfl
  | cons cell cells ih =>
      cases hfound : cell.isCodeChar c with
      | true =>
          obtain ⟨-, hinside, hmask, hbyte⟩ := byte_of_isCodeChar hcells hfound hascii
          rw [findByte, if_pos hinside, hmask, hbyte]
          simp [hfound, Cell.text]
      | false =>
          have hpass : findByte (UInt8.ofNat c.toNat) text text.codeMask
                (Text.size (Cell.text passed)) =
              findByte (UInt8.ofNat c.toNat) text text.codeMask
                (Text.size (Cell.text passed) + cell.char.utf8Size) := by
            refine pass_cell hcells fun place byte _ _ hinside hmask hat hmem => ?_
            rw [findByte, if_pos hinside, hmask, hat]
            cases hcode : cell.isCode with
            | false => rfl
            | true =>
                have hne := byte_ne_of_isCodeChar hfound hascii hcode hmem
                simp [hne]
          obtain ⟨hcells', hsize⟩ := append_singleton_of_cells hcells
          have hcons : ∀ rest, Text.size (Cell.text (cell :: rest)) =
              cell.char.utf8Size + Text.size (Cell.text rest) := fun _ => rfl
          rw [hpass, ← hsize, ih hcells', hsize]
          simp only [List.any_cons, List.takeWhile_cons, hfound, Bool.false_or, Bool.not_false,
            if_true, hcons, Nat.add_assoc]

theorem questionMark?_eq (offset : Nat) (cells : List Cell) :
    Statement.questionMark? offset cells =
      if cells.any (Cell.isCodeChar '?') then
        some (offset + Text.size (Cell.text (cells.takeWhile fun cell => !cell.isCodeChar '?')))
      else none := by
  induction cells generalizing offset with
  | nil => rfl
  | cons cell cells ih =>
      rw [Statement.questionMark?]
      cases hfound : cell.isCodeChar '?' with
      | true => simp [hfound, Cell.text]
      | false =>
          have hcons : ∀ rest, Text.size (Cell.text (cell :: rest)) =
              cell.char.utf8Size + Text.size (Cell.text rest) := fun _ => rfl
          simp [hfound, ih, hcons, Nat.add_assoc]

/-- Parentheses are matched in bytes as they are matched in cells. -/
theorem unbalanced_eq (opened : List Nat) (hcells : text.cells = passed ++ cells) :
    unbalanced text text.codeMask opened (Text.size (Cell.text passed)) =
      some (Statement.unbalanced? opened (Text.size (Cell.text passed)) cells) := by
  induction cells generalizing passed opened with
  | nil =>
      rw [unbalanced.eq_def, if_neg (by simp [size_eq_of_cells hcells, Cell.text])]
      rfl
  | cons cell cells ih =>
      obtain ⟨hcells', hsize⟩ := append_singleton_of_cells hcells
      have hrest := fun opened => ih opened hcells'
      rw [hsize] at hrest
      rw [Statement.unbalanced?.eq_def]
      dsimp only
      by_cases hopen : cell.isCodeChar '(' = true
      · obtain ⟨hwidth, hinside, hmask, hbyte⟩ := byte_of_isCodeChar hcells hopen (by decide)
        rw [hwidth] at hrest
        rw [if_pos hopen, unbalanced.eq_def, if_pos hinside, hmask, hbyte, hwidth]
        exact hrest _
      rw [if_neg hopen]
      by_cases hclose : cell.isCodeChar ')' = true
      · obtain ⟨hwidth, hinside, hmask, hbyte⟩ := byte_of_isCodeChar hcells hclose (by decide)
        rw [hwidth] at hrest
        rw [if_pos hclose, unbalanced.eq_def, if_pos hinside, hmask, hbyte, hwidth]
        cases opened with
        | nil => rfl
        | cons first opened => exact hrest opened
      rw [if_neg hclose, ← hrest opened]
      rw [Bool.not_eq_true] at hopen hclose
      refine pass_cell hcells fun place byte _ _ hinside hmask hat hmem => ?_
      rw [unbalanced.eq_def, if_pos hinside, hmask, hat]
      cases hcode : cell.isCode with
      | false => rfl
      | true =>
          have hopenByte : byte ≠ 0x28 := byte_ne_of_isCodeChar hopen (by decide) hcode hmem
          have hcloseByte : byte ≠ 0x29 := byte_ne_of_isCodeChar hclose (by decide) hcode hmem
          simp only [Option.bind_eq_bind, Option.bind_some, if_true, if_neg hopenByte,
            if_neg hcloseByte]

end Bytes

/-! ### The checks -/

theorem rejectUnclosed_eq (text : Text) :
    rejectUnclosed text = .of (Statement.rejectUnclosed text) := by
  rw [rejectUnclosed, spans_eq, Statement.rejectUnclosed]
  simp only [Checked.liftM_some, pure_bind]
  cases text.spans.find? fun span => !span.terminated <;> rfl

/-- A text around the first place of a character in code. -/
theorem exists_around (c : Char) (text : Text) :
    (text.cells.any (Cell.isCodeChar c) = false ∧
      text.length ≤ (text.cells.takeWhile fun cell => !cell.isCodeChar c).length) ∨
    text.cells.any (Cell.isCodeChar c) = true ∧
      ∃ back, text = Cell.text (text.cells.takeWhile fun cell => !cell.isCodeChar c) ++
        ([c] ++ back) := by
  have htexts : Cell.text text.cells = text := Mode.text_cells _ _
  have hsplit := @List.takeWhile_append_dropWhile _ (fun cell => !Cell.isCodeChar c cell) text.cells
  cases hdrop : text.cells.dropWhile fun cell => !cell.isCodeChar c with
  | nil =>
      refine .inl ⟨?_, ?_⟩
      · rw [List.any_eq_false]
        intro cell hcell
        simpa using List.dropWhile_eq_nil_iff.mp hdrop cell hcell
      · rw [hdrop, List.append_nil] at hsplit
        rw [hsplit, ← List.length_map (f := Cell.char)]
        exact (congrArg List.length htexts).ge
  | cons cell back =>
      have hcell : cell.isCodeChar c = true := by
        have hhead := List.head?_dropWhile_not (fun cell => !Cell.isCodeChar c cell) text.cells
        rw [hdrop] at hhead
        simpa using hhead
      have hchar : cell.char = c := by
        simp only [Cell.isCodeChar, Bool.and_eq_true, beq_iff_eq] at hcell
        exact hcell.2
      rw [hdrop] at hsplit
      refine .inr ⟨?_, Cell.text back, ?_⟩
      · rw [List.any_eq_true]
        exact ⟨cell, hsplit ▸ List.mem_append_right _ List.mem_cons_self, hcell⟩
      · conv_lhs => rw [← htexts, ← hsplit, Cell.text_append]
        rw [← hchar]
        rfl

/-- The statement in front of a semicolon is cut out as it is found. -/
theorem single_eq (text : Text) : single text = .of (Statement.single text) := by
  have hfound : findByte 0x3B text text.codeMask 0 =
      some (if text.cells.any (Cell.isCodeChar ';') then
        some (0 + Text.size (Cell.text (text.cells.takeWhile fun cell => !cell.isCodeChar ';')))
      else none) :=
    findByte_eq (c := ';') (by decide) (List.nil_append text.cells).symm
  have haround := exists_around ';' text
  rw [single, codeMask_eq, Statement.single]
  simp only [Checked.liftM_some, pure_bind, hfound, Nat.zero_add]
  generalize text.cells.takeWhile (fun cell => !cell.isCodeChar ';') = front at haround
  obtain ⟨hany, hcount⟩ | ⟨hany, back, htext⟩ := haround
  · rw [hany, Fragment.drop]
    dsimp only
    rw [List.drop_eq_nil_of_le (by omega), List.take_of_length_le hcount]
    rfl
  · have hlength : front.length = (Cell.text front).length := (List.length_map _).symm
    have hmark : Text.size (Cell.text front ++ [';']) = Text.size (Cell.text front) + 1 :=
      Text.size_append _ _
    have hmarkLength : (Cell.text front ++ [';']).length = (Cell.text front).length + 1 :=
      List.length_append
    have hbehind := Text.cut?_back (Cell.text front ++ [';']) back
    have hstatement := Text.cut?_front (Cell.text front) ([';'] ++ back)
    have htake : text.take (front.length + 1) = Cell.text front ++ [';'] := by
      rw [htext, hlength, ← hmarkLength, ← List.append_assoc, List.take_left]
    have hrest : text.drop (front.length + 1) = back := by
      rw [htext, hlength, ← hmarkLength, ← List.append_assoc, List.drop_left]
    have hbefore : text.take front.length = Cell.text front := by
      rw [htext, hlength, List.take_left]
    rw [List.append_assoc, ← htext, hmark] at hbehind
    rw [← htext] at hstatement
    simp only [hany, if_true, hbehind, hstatement, Fragment.drop, htake, hrest, hbefore, hmark,
      Nat.zero_add, Checked.liftM_some, pure_bind]
    split <;> rfl

theorem rejectUnbalanced_eq (text : Text) :
    rejectUnbalanced text = .of (Statement.rejectUnbalanced text) := by
  have hplace : unbalanced text text.codeMask [] 0 =
      some (Statement.unbalanced? [] 0 text.cells) :=
    unbalanced_eq [] (List.nil_append text.cells).symm
  rw [rejectUnbalanced, codeMask_eq, Statement.rejectUnbalanced]
  simp only [Checked.liftM_some, pure_bind, hplace]
  cases Statement.unbalanced? [] 0 text.cells <;> rfl

theorem findSomeM?_some {α β : Type} {look : α → Option (Option β)} {find : α → Option β}
    {list : List α} (hlook : ∀ value ∈ list, look value = some (find value)) :
    list.findSomeM? look = some (list.findSome? find) := by
  induction list with
  | nil => rfl
  | cons value rest ih =>
      obtain ⟨hvalue, hrest⟩ := List.forall_mem_cons.mp hlook
      rw [List.findSomeM?, List.findSome?_cons, hvalue]
      cases find value with
      | none => exact ih hrest
      | some found => rfl

theorem isPlain_rejectedHeads : ∀ entry ∈ Statement.rejectedHeads,
    entry.1.isPlain = true ∧ entry.1.isPhrase = true := by
  decide

theorem isPlain_rejectedWords : ∀ entry ∈ Statement.rejectedWords, entry.1.isPlain = true := by
  decide

theorem unsupported_eq (text : Text) : unsupported text = some (Statement.unsupported? text) := by
  have hwalks : Cursor.WalksIn text { text } := ⟨Fragment.liesIn_whole text, [], text, rfl, rfl⟩
  have hskip := (@Cursor.skipBlanks_start { text } rfl).1
  have hhead : ∀ entry ∈ Statement.rejectedHeads,
      ((lengthAt entry.1 (Cursor.skipBlanks { text })).map fun length => length.map fun _ =>
        (Fragment.mk entry.1.name.toList (Cursor.skipBlanks { text }).position).error entry.2
          none) =
      some ((entry.1.length? none (Fragment.mk text 0).skipAsciiBlanks.text.cells).map fun _ =>
        (Fragment.mk entry.1.name.toList (Fragment.mk text 0).skipAsciiBlanks.start).error entry.2
          none) := by
    intro entry hentry
    obtain ⟨hplain, hphrase⟩ := isPlain_rejectedHeads entry hentry
    have hlength := @LocatedClause.keywordLength?_skipBlanks { text } rfl _ hphrase
    rw [lengthAt_eq hplain hwalks.skipBlanks, hlength, hskip, Fragment.skipAsciiBlanks_eq]
    simp only [Option.map_some, Option.map_map]
    rfl
  have hword : ∀ entry ∈ Statement.rejectedWords,
      ((occurrences text text.codeMask entry.1 0).bind fun places =>
        match places[entry.2.2]? with
        | none => some none
        | some (first, last) =>
          (text.cut? first last).map fun found =>
            some ((Fragment.mk found first).error entry.2.1 none)) =
      some (((Fragment.mk text 0).occurrences entry.1)[entry.2.2]?.map fun place =>
        place.error entry.2.1 none) := by
    intro entry hentry
    have hplain := isPlain_rejectedWords entry hentry
    have hplaces : occurrences text text.codeMask entry.1 0 =
        some (((Fragment.mk text 0).occurrences entry.1).map Fragment.range) :=
      occurrences_eq (Keyword.isFilled_of_isPlain hplain) (Keyword.isCapital_of_isPlain hplain)
        (List.nil_append text.cells).symm
    rw [hplaces, Option.bind_some, List.getElem?_map]
    cases hplace : ((Fragment.mk text 0).occurrences entry.1)[entry.2.2]? with
    | none => rfl
    | some place =>
        have hlies := (Fragment.liesIn_whole text).occurrences entry.1 place
          (List.mem_of_getElem? hplace)
        have hcut := hlies.cut?_eq
        simp only [Option.map_some, Fragment.range, hcut]
  have hmark : findByte 0x3F text text.codeMask 0 =
      some (Statement.questionMark? 0 text.cells) := by
    rw [questionMark?_eq]
    exact findByte_eq (c := '?') (by decide) (List.nil_append text.cells).symm
  rw [unsupported, skipBlanks_eq hwalks, Statement.unsupported?]
  simp only [Option.bind_eq_bind, Option.bind_some, codeMask_eq, findSomeM?_some hhead,
    findSomeM?_some hword, hmark]

theorem rejectUnsupported_eq (text : Text) :
    rejectUnsupported text = .of (Statement.rejectUnsupported text) := by
  rw [rejectUnsupported, unsupported_eq, Statement.rejectUnsupported]
  simp only [Checked.liftM_some, pure_bind]
  cases Statement.unsupported? text <;> rfl

end Bytewise

end SelectForm

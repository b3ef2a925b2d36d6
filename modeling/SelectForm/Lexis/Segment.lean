import SelectForm.Text.Fragment
import SelectForm.Lexis.Keyword

/-!
# Segments between marks

Statements, clauses and lists are taken apart at marks: keywords or commas that
stand in code and outside all parentheses.  Searching a text for marks cuts it
into the part before the first mark and one segment for each mark, which holds
the mark and the part behind it up to the next one.  Nothing is lost: the parts
and the marks, in order, are the text.

The depth of nesting counts the parentheses of code from the place where the
search begins.  It falls below zero behind a closing parenthesis without a
partner, and no mark is found there until it is back at zero.
-/

namespace SelectForm

/-- Recognises a mark at the front of some cells, knowing the character before
them, and tells how many characters it has. -/
abbrev Finder (α : Type) := Option Char → List Cell → Option (α × Nat)

namespace Finder

/-- Finds the first of some labelled keywords that stands at a place. -/
def ofKeywords {α : Type} (keywords : List (Keyword × α)) : Finder α :=
  fun before cells =>
    keywords.findSome? fun (keyword, label) =>
      (keyword.length? before cells).map fun count => (label, count)

/-- Finds one keyword. -/
def ofKeyword (keyword : Keyword) : Finder Unit := ofKeywords [(keyword, ())]

/-- Finds commas. -/
def comma : Finder Unit
  | _, cell :: _ => if cell.char = ',' then some ((), 1) else none
  | _, [] => none

end Finder

/-- The change of nesting at a character. -/
def Cell.nesting (cell : Cell) : Int :=
  if cell.isCodeChar '(' then 1 else if cell.isCodeChar ')' then -1 else 0

/-- Whether a mark may begin at a character. -/
def Cell.isTopLevel (depth : Int) (cell : Cell) : Bool :=
  depth == 0 && cell.isCode && cell.nesting == 0

/-- A mark with its label and the text behind it. -/
structure Cut (α : Type) where
  label : α
  mark : Text
  body : Text

/-- Cuts cells at marks.  `skip` counts the characters of a mark that are still
to be passed over. -/
def cutCells {α : Type} (find : Finder α) (skip : Nat) (depth : Int)
    (before : Option Char) : List Cell → Text × List (Cut α)
  | [] => ([], [])
  | cell :: rest =>
    match skip with
    | count + 1 => cutCells find count depth (some cell.char) rest
    | 0 =>
      match if cell.isTopLevel depth then find before (cell :: rest) else none with
      | some (label, count + 1) =>
        let (body, cuts) := cutCells find count depth (some cell.char) rest
        ([], ⟨label, Cell.text ((cell :: rest).take (count + 1)), body⟩ :: cuts)
      | _ =>
        let (head, cuts) := cutCells find 0 (depth + cell.nesting) (some cell.char) rest
        (cell.char :: head, cuts)

/-- A mark with its label and the part behind it, both with their offsets. -/
structure Segment (α : Type) where
  label : α
  mark : Fragment
  body : Fragment

/-- The part before the first mark and the segments behind it. -/
structure Segmentation (α : Type) where
  head : Fragment
  tail : List (Segment α)

namespace Segmentation

/-- Gives offsets to marks and the parts behind them. -/
def place {α : Type} : Nat → List (Cut α) → List (Segment α)
  | _, [] => []
  | start, cut :: cuts =>
    ⟨cut.label, ⟨cut.mark, start⟩, ⟨cut.body, start + Text.size cut.mark⟩⟩ ::
      place (start + Text.size cut.mark + Text.size cut.body) cuts

/-- Cuts cells at marks, the first cell being at a given offset. -/
def ofCells {α : Type} (find : Finder α) (before : Option Char) (cells : List Cell)
    (start : Nat) : Segmentation α :=
  let (head, cuts) := cutCells find 0 0 before cells
  ⟨⟨head, start⟩, place (start + Text.size head) cuts⟩

end Segmentation

namespace Fragment

/-- Cuts a fragment at marks. -/
def segment {α : Type} (find : Finder α) (fragment : Fragment) : Segmentation α :=
  .ofCells find none fragment.text.cells fragment.start

/-- The first mark of a fragment, with all that is before and behind it. -/
structure Split (α : Type) where
  label : α
  before : Fragment
  mark : Fragment
  after : Fragment

/-- Cuts a fragment at its first mark. -/
def splitFirst? {α : Type} (find : Finder α) (fragment : Fragment) :
    Option (Split α) :=
  match (fragment.segment find).tail with
  | [] => none
  | first :: others =>
    some {
      label := first.label
      before := (fragment.segment find).head
      mark := first.mark
      after :=
        ⟨first.body.text ++ others.flatMap fun s => s.mark.text ++ s.body.text,
          first.body.start⟩ }

end Fragment

/-- All places of a keyword in code, at any depth of nesting. -/
def Fragment.occurrences (keyword : Keyword) (fragment : Fragment) : List Fragment :=
  go 0 none fragment.start fragment.text.cells
where
  go (skip : Nat) (before : Option Char) (start : Nat) : List Cell → List Fragment
    | [] => []
    | cell :: rest =>
      match skip with
      | count + 1 => go count (some cell.char) (start + cell.char.utf8Size) rest
      | 0 =>
        match keyword.length? before (cell :: rest) with
        | some (count + 1) =>
          ⟨Cell.text ((cell :: rest).take (count + 1)), start⟩ ::
            go count (some cell.char) (start + cell.char.utf8Size) rest
        | _ => go 0 (some cell.char) (start + cell.char.utf8Size) rest

end SelectForm

import SelectForm.Lexis.Segment
import SelectForm.Query.Vocabulary

/-!
# Taking an expression apart

A chain of conditions is split at its connectors, a list at its commas, and a
group in parentheses is opened.  Marks count in code only and outside inner
parentheses.  The `AND` between the bounds of `BETWEEN` does not split.
-/

namespace SelectForm

/-! ## Conditions and connectors -/

/-- A condition of a chain with the connector in front of it; the first condition
has none. -/
structure ChainPart where
  connector : Option Connector
  expression : Fragment

namespace Connector

def phrase : Connector → Keyword
  | and => .and_
  | or => .or_

end Connector

/-- A mark in a chain of conditions. -/
inductive ChainMark
  | between
  | connector (connector : Connector)
deriving DecidableEq, Repr

namespace ChainMark

/-- Finds `BETWEEN` and the given connectors. -/
def finder (connectors : List Connector) : Finder ChainMark :=
  .ofKeywords
    ((.between, between) ::
      connectors.map fun connector => (connector.phrase, .connector connector))

end ChainMark

namespace Fragment

/-- The fragment that reaches from the beginning of one to the end of another that
follows it directly. -/
def append (left right : Fragment) : Fragment := ⟨left.text ++ right.text, left.start⟩

/-- Closes the parts of a chain.  `pending` tells that a `BETWEEN` waits for its
`AND`; `part` is what has been read since the last connector. -/
def closeChain (pending : Bool) (connector : Option Connector) (part : Fragment) :
    List (Segment ChainMark) → List ChainPart
  | [] => [⟨connector, part.trim⟩]
  | segment :: rest =>
    match segment.label with
    | .between =>
      closeChain true connector ((part.append segment.mark).append segment.body) rest
    | .connector next =>
      if next = .and ∧ pending = true then
        closeChain false connector ((part.append segment.mark).append segment.body) rest
      else
        ⟨connector, part.trim⟩ :: closeChain false (some next) segment.body rest

/-- The parts of a chain of conditions between the given connectors. -/
def splitChain (connectors : List Connector) (fragment : Fragment) : List ChainPart :=
  let segmentation := fragment.segment (ChainMark.finder connectors)
  closeChain false none segmentation.head segmentation.tail

/-! ## Lists -/

/-- The items of a list between its commas. -/
def splitList (fragment : Fragment) : List Fragment :=
  let segmentation := fragment.segment Finder.comma
  segmentation.head.trim :: segmentation.tail.map fun segment => segment.body.trim

/-! ## Parentheses -/

/-- Whether a group that is open at some cells closes with the last of them.  The
depth counts the groups that were opened inside it. -/
def closesAtEnd (depth : Nat) : List Cell → Bool
  | [] => false
  | cell :: rest =>
    if cell.isCodeChar '(' then
      closesAtEnd (depth + 1) rest
    else if cell.isCodeChar ')' then
      match depth with
      | 0 => rest.isEmpty
      | depth + 1 => closesAtEnd depth rest
    else
      closesAtEnd depth rest

/-- The inside of a fragment that is one group in parentheses, up to blanks around
it. -/
def inside? (fragment : Fragment) : Option Fragment :=
  match fragment.trim.text.cells with
  | first :: rest =>
    if first.isCodeChar '(' && closesAtEnd 0 rest then
      some ⟨(Cell.text rest).dropLast, fragment.trim.start + first.char.utf8Size⟩
    else
      none
  | [] => none

end Fragment

end SelectForm

import SelectForm.Text.Blank

/-!
# Fragments

A fragment is a piece of a statement together with the byte offset at which it
stands.  Readers take fragments apart and errors point at them, so the offset
of a part always follows from the offset of the whole.
-/

namespace SelectForm

/-- A text and the byte offset of its first character. -/
structure Fragment where
  text : Text
  start : Nat
deriving DecidableEq, Repr

namespace Fragment

/-- The byte offset behind the last character. -/
def stop (fragment : Fragment) : Nat := fragment.start + Text.size fragment.text

/-- The fragment without the blanks around it. -/
def trim (fragment : Fragment) : Fragment where
  text := Text.trim fragment.text
  start := fragment.start + Text.size (Text.leading fragment.text)

/-- The fragment without its first characters. -/
def drop (count : Nat) (fragment : Fragment) : Fragment where
  text := fragment.text.drop count
  start := fragment.start + Text.size (fragment.text.take count)

/-- The first characters of the fragment. -/
def take (count : Nat) (fragment : Fragment) : Fragment where
  text := fragment.text.take count
  start := fragment.start

/-- Whether the fragment holds nothing but blanks. -/
def isBlank (fragment : Fragment) : Bool := fragment.text.all Text.isBlank

/-- The text of the fragment. -/
def toString (fragment : Fragment) : String := String.ofList fragment.text

end Fragment

end SelectForm

import SelectForm.Text.Basic

/-!
# Blank characters

Two notions of blank space meet in a statement.  Keywords and the cursor know
the five ASCII blanks only; trimming, and the gaps inside an item, admit every
character with the Unicode property `White_Space`.
-/

namespace SelectForm

namespace Text

/-- The characters with the Unicode property `White_Space`. -/
def isBlank (c : Char) : Bool :=
  let n := c.toNat
  (0x09 ≤ n && n ≤ 0x0D) || n == 0x20 || n == 0x85 || n == 0xA0 || n == 0x1680 ||
    (0x2000 ≤ n && n ≤ 0x200A) || n == 0x2028 || n == 0x2029 || n == 0x202F ||
    n == 0x205F || n == 0x3000

/-- Space, tab, line feed, form feed and carriage return. -/
def isAsciiBlank (c : Char) : Bool :=
  c == ' ' || c == '\t' || c == '\n' || c == '\x0C' || c == '\r'

theorem isBlank_of_isAsciiBlank {c : Char} (h : isAsciiBlank c = true) :
    isBlank c = true := by
  simp only [isAsciiBlank, Bool.or_eq_true, beq_iff_eq] at h
  rcases h with (((h | h) | h) | h) | h <;> subst h <;> decide

/-! ## Trimming -/

/-- The blank characters in front of a text. -/
def leading (text : Text) : Text := text.takeWhile isBlank

/-- A text without the blanks in front of it. -/
def trimStart (text : Text) : Text := text.dropWhile isBlank

/-- A text without the blanks behind it. -/
def trimEnd : Text → Text
  | [] => []
  | c :: rest =>
    match trimEnd rest with
    | [] => if isBlank c then [] else [c]
    | d :: kept => c :: d :: kept

/-- A text without the blanks around it. -/
def trim (text : Text) : Text := trimEnd (trimStart text)

theorem leading_append_trimStart (text : Text) :
    leading text ++ trimStart text = text :=
  List.takeWhile_append_dropWhile

/-- The words of a text: its maximal runs of characters that are not blank. -/
def words : Text → List Text
  | [] => []
  | c :: rest =>
    if isBlank c then
      words rest
    else
      match rest with
      | [] => [[c]]
      | d :: _ =>
        if isBlank d then
          [c] :: words rest
        else
          match words rest with
          | word :: others => (c :: word) :: others
          | [] => [[c]]

end Text

end SelectForm

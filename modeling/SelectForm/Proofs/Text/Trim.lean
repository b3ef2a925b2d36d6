import Mathlib
import SelectForm.Statement.Column

/-!
# Trimming

Readers trim what they read, and take the last word off an item.  Both undo
padding: a text that neither begins nor ends with a blank comes back from any
blanks around it, and a word comes back from behind any gap.
-/

namespace SelectForm

namespace Text

/-- A text that neither begins nor ends with a blank, and is not empty. -/
structure Tight (text : Text) : Prop where
  head : ∃ c ∈ text.head?, isBlank c = false
  last : ∃ c ∈ text.getLast?, isBlank c = false

theorem Tight.ne_nil {text : Text} (htight : Tight text) : text ≠ [] := by
  rintro rfl
  obtain ⟨c, hc, -⟩ := htight.head
  simp at hc

theorem Tight.isAsciiBlank_head {text : Text} (htight : Tight text) (rest : Text) :
    ∀ c ∈ (text ++ rest).head?, isAsciiBlank c = false := by
  intro c hc
  obtain ⟨first, hfirst, hblank⟩ := htight.head
  rw [List.head?_append_of_ne_nil _ htight.ne_nil, hfirst, Option.mem_some_iff] at hc
  subst hc
  by_contra hascii
  rw [isBlank_of_isAsciiBlank (Bool.not_eq_false _ ▸ hascii)] at hblank
  exact absurd hblank (by decide)

theorem Tight.append {first second : Text} (middle : Text) (hfirst : Tight first)
    (hsecond : Tight second) : Tight (first ++ (middle ++ second)) := by
  constructor
  · obtain ⟨c, hc, hblank⟩ := hfirst.head
    exact ⟨c, by rwa [List.head?_append_of_ne_nil _ hfirst.ne_nil], hblank⟩
  · obtain ⟨c, hc, hblank⟩ := hsecond.last
    refine ⟨c, ?_, hblank⟩
    rw [← List.append_assoc, List.getLast?_append_of_ne_nil _ hsecond.ne_nil]
    exact hc

theorem tight_of_forall {text : Text} (hne : text ≠ [])
    (hblank : ∀ c ∈ text, isBlank c = false) : Tight text := by
  constructor
  · exact ⟨text.head hne, List.head?_eq_some_head hne, hblank _ (List.head_mem hne)⟩
  · exact ⟨text.getLast hne, List.getLast?_eq_some_getLast hne,
      hblank _ (List.getLast_mem hne)⟩

/-! ## Padding -/

theorem trimStart_append {pad : Text} (hpad : ∀ c ∈ pad, isBlank c = true) (text : Text) :
    trimStart (pad ++ text) = trimStart text := by
  rw [trimStart, List.dropWhile_append_of_pos hpad]
  rfl

theorem trimStart_eq_self {text : Text} (hhead : ∃ c ∈ text.head?, isBlank c = false) :
    trimStart text = text := by
  obtain ⟨c, hc, hblank⟩ := hhead
  cases text with
  | nil => simp at hc
  | cons d rest =>
      obtain rfl : d = c := by simpa using hc
      rw [trimStart, List.dropWhile_cons_of_neg (by simp [hblank])]

theorem leading_append {pad text : Text} (hpad : ∀ c ∈ pad, isBlank c = true)
    (hhead : ∃ c ∈ text.head?, isBlank c = false) : leading (pad ++ text) = pad := by
  obtain ⟨c, hc, hblank⟩ := hhead
  rw [leading, List.takeWhile_append_of_pos hpad]
  cases text with
  | nil => simp at hc
  | cons d rest =>
      obtain rfl : d = c := by simpa using hc
      rw [List.takeWhile_cons_of_neg (by simp [hblank]), List.append_nil]

theorem trimEnd_of_forall {pad : Text} (hpad : ∀ c ∈ pad, isBlank c = true) :
    trimEnd pad = [] := by
  induction pad with
  | nil => rfl
  | cons c rest ih =>
      rw [trimEnd, ih fun d hd => hpad d (List.mem_cons_of_mem c hd)]
      simp [hpad c (by simp)]

theorem trimEnd_append {pad text : Text} (hpad : ∀ c ∈ pad, isBlank c = true)
    (hlast : ∃ c ∈ text.getLast?, isBlank c = false) : trimEnd (text ++ pad) = text := by
  induction text with
  | nil =>
      obtain ⟨c, hc, -⟩ := hlast
      simp at hc
  | cons c rest ih =>
      cases rest with
      | nil =>
          obtain ⟨d, hd, hblank⟩ := hlast
          obtain rfl : c = d := by simpa using hd
          rw [List.singleton_append, trimEnd, trimEnd_of_forall hpad]
          simp [hblank]
      | cons d rest =>
          have hrest := ih (by simpa [List.getLast?_cons_cons] using hlast)
          rw [List.cons_append, trimEnd, hrest]

theorem trim_padded {front text back : Text} (hfront : ∀ c ∈ front, isBlank c = true)
    (hback : ∀ c ∈ back, isBlank c = true) (htight : Tight text) :
    trim (front ++ text ++ back) = text := by
  have hhead : ∃ c ∈ (text ++ back).head?, isBlank c = false := by
    rw [List.head?_append_of_ne_nil _ htight.ne_nil]
    exact htight.head
  rw [trim, List.append_assoc, trimStart_append hfront, trimStart_eq_self hhead,
    trimEnd_append hback htight.last]

theorem Tight.trim_eq {text : Text} (htight : Tight text) : trim text = text := by
  simpa using @trim_padded [] text [] (by simp) (by simp) htight

theorem trim_of_forall {pad : Text} (hpad : ∀ c ∈ pad, isBlank c = true) : trim pad = [] := by
  rw [trim, trimStart, List.dropWhile_eq_nil_iff.mpr hpad]
  rfl

end Text

namespace Fragment

/-- Trimming a padded fragment moves it behind the blanks in front. -/
theorem trim_padded {front text back : Text} (hfront : ∀ c ∈ front, Text.isBlank c = true)
    (hback : ∀ c ∈ back, Text.isBlank c = true) (htight : Text.Tight text) (start : Nat) :
    (mk (front ++ text ++ back) start).trim = ⟨text, start + Text.size front⟩ := by
  have hhead : ∃ c ∈ (text ++ back).head?, Text.isBlank c = false := by
    rw [List.head?_append_of_ne_nil _ htight.ne_nil]
    exact htight.head
  rw [trim, Text.trim_padded hfront hback htight, List.append_assoc,
    Text.leading_append hfront hhead]

theorem trim_of_tight {text : Text} (htight : Text.Tight text) (start : Nat) :
    (mk text start).trim = ⟨text, start⟩ := by
  simpa using @trim_padded [] text [] (by simp) (by simp) htight start

end Fragment

/-! ## The last word -/

namespace Text

theorem splitLastWord?_of_forall {text : Text} (hblank : ∀ c ∈ text, isBlank c = false) :
    splitLastWord? text = none := by
  have hdrop : (text.reverse.dropWhile fun c => !isBlank c) = [] := by
    rw [List.dropWhile_eq_nil_iff]
    intro c hc
    simp [hblank c (List.mem_reverse.mp hc)]
  rw [splitLastWord?, hdrop]

/-- A word behind a blank is taken off. -/
theorem splitLastWord?_append {front word : Text} {gap : Char}
    (hfront : ∃ c ∈ front.getLast?, isBlank c = false) (hgap : isBlank gap = true)
    (hword : ∀ c ∈ word, isBlank c = false) :
    splitLastWord? (front ++ gap :: word) = some (front, word) := by
  have hreverse : (front ++ gap :: word).reverse = word.reverse ++ gap :: front.reverse := by
    simp
  have hkeep : ∀ c ∈ word.reverse, (!isBlank c) = true := by
    intro c hc
    simp [hword c (List.mem_reverse.mp hc)]
  have hdrop : ((gap :: front.reverse).dropWhile fun c => !isBlank c) = gap :: front.reverse := by
    simp [hgap]
  have htake : ((gap :: front.reverse).takeWhile fun c => !isBlank c) = [] := by
    simp [hgap]
  rw [splitLastWord?, hreverse, List.dropWhile_append_of_pos hkeep, hdrop,
    List.takeWhile_append_of_pos hkeep, htake]
  have hback : trimEnd (front ++ [gap]) = front := trimEnd_append (by simpa using hgap) hfront
  simp [hback]

end Text

end SelectForm

import Mathlib
import SelectForm.Proofs.Lexis.Cutting
import SelectForm.Proofs.Statement.ReadText
import SelectForm.Proofs.Statement.Split
import SelectForm.Proofs.Text.Trim

/-!
# Where fragments lie

A fragment lies in a text if its text stands there at the offset that the fragment gives.
Every way to take a fragment apart leaves fragments that lie in the same text, and parts
that follow each other without a gap can be put together again.
-/

namespace SelectForm

namespace Text

theorem trimEnd_isPrefix (text : Text) : trimEnd text <+: text := by
  obtain ⟨back, htext, -⟩ := exists_trimEnd text
  exact ⟨back, htext.symm⟩

theorem leading_trim (text : Text) : leading (trim text) = [] := by
  have hhead := List.head?_dropWhile_not isBlank text
  obtain ⟨back, htrim⟩ := trimEnd_isPrefix (trimStart text)
  have htext : trim text = trimEnd (trimStart text) := rfl
  rw [← trimStart, ← htrim, ← htext] at hhead
  cases hcases : trim text with
  | nil => rfl
  | cons c rest =>
      rw [hcases] at hhead
      rw [leading, List.takeWhile_cons_of_neg (by simpa using hhead)]

theorem isBlank_getLast?_trimEnd {text : Text} (hne : trimEnd text ≠ []) :
    ∃ c ∈ (trimEnd text).getLast?, isBlank c = false := by
  induction text with
  | nil => exact absurd rfl hne
  | cons c rest ih =>
      rw [trimEnd] at hne ⊢
      cases hkept : trimEnd rest with
      | nil =>
          rw [hkept] at hne
          cases hblank : isBlank c with
          | true => simp [hblank] at hne
          | false => exact ⟨c, by simp, hblank⟩
      | cons d kept =>
          rw [hkept] at ih
          simpa [List.getLast?_cons_cons] using ih

theorem tight_trim {text : Text} (hne : trim text ≠ []) : Tight (trim text) := by
  refine ⟨?_, isBlank_getLast?_trimEnd hne⟩
  have hleading := leading_trim text
  cases htrim : trim text with
  | nil => exact absurd htrim hne
  | cons c rest =>
      rw [htrim, leading, List.takeWhile_cons] at hleading
      refine ⟨c, rfl, ?_⟩
      by_contra hblank
      simp [hblank] at hleading

theorem trim_isPrefix {text : Text} (hleading : leading text = []) : trim text <+: text := by
  have hstart := leading_append_trimStart text
  rw [hleading, List.nil_append] at hstart
  rw [trim, hstart]
  exact trimEnd_isPrefix text

theorem leading_of_isPrefix {text front : Text} (hfront : front <+: text)
    (hleading : leading text = []) : leading front = [] := by
  obtain ⟨back, rfl⟩ := hfront
  cases front with
  | nil => rfl
  | cons c front =>
      rw [leading, List.cons_append, List.takeWhile_cons] at hleading
      rw [leading, List.takeWhile_cons]
      cases hc : isBlank c with
      | false => rfl
      | true => simp [hc] at hleading

theorem splitLastWord?_isPrefix {text front word : Text}
    (hsplit : splitLastWord? text = some (front, word)) : front <+: text := by
  obtain ⟨gap, htext, -⟩ := exists_of_splitLastWord? hsplit
  exact ⟨gap ++ word, htext.symm⟩

theorem splitAlias_isPrefix (text : Text) : (splitAlias text).1 <+: trim text := by
  have hbare : ∀ front word, front <+: trim text →
      (splitAlias.bare text front word).1 <+: trim text := by
    intro front word hfront
    rw [splitAlias.bare]
    split
    · exact hfront
    · exact List.prefix_refl _
  rw [splitAlias]
  split
  · exact List.prefix_refl _
  · rename_i front word hsplit
    have hfront := splitLastWord?_isPrefix hsplit
    split
    · rename_i expression as hsplit
      split
      · exact (splitLastWord?_isPrefix hsplit).trans hfront
      · exact hbare front word hfront
    · exact hbare front word hfront

theorem splitDirection_isPrefix (text : Text) : (splitDirection text).1 <+: trim text := by
  rw [splitDirection]
  split
  · rename_i front word hsplit
    split
    · exact splitLastWord?_isPrefix hsplit
    · exact List.prefix_refl _
  · exact List.prefix_refl _

end Text

namespace Fragment

/-- The text of a fragment stands in a text at the offset of the fragment. -/
def LiesIn (whole : Text) (fragment : Fragment) : Prop :=
  ∃ before behind, whole = before ++ (fragment.text ++ behind) ∧ fragment.start = Text.size before

variable {whole : Text} {fragment left right : Fragment}

theorem liesIn_whole (whole : Text) : (mk whole 0).LiesIn whole :=
  ⟨[], [], by simp, rfl⟩

theorem trim_trim (fragment : Fragment) : fragment.trim.trim = fragment.trim := by
  have hleading : Text.leading fragment.trim.text = [] := Text.leading_trim fragment.text
  have htrim : Text.trim fragment.trim.text = fragment.trim.text := by
    by_cases hne : fragment.trim.text = []
    · rw [hne]
      rfl
    · exact (Text.tight_trim hne).trim_eq
  rw [trim, htrim, hleading]
  rfl

namespace LiesIn

/-- A part of a text that lies in a larger one. -/
theorem part {front text back : Text} {start : Nat}
    (hlies : (mk (front ++ (text ++ back)) start).LiesIn whole) :
    (mk text (start + Text.size front)).LiesIn whole := by
  obtain ⟨before, behind, hwhole, hstart⟩ := hlies
  refine ⟨before ++ front, back ++ behind, ?_, ?_⟩
  · rw [hwhole]
    simp [List.append_assoc]
  · rw [Text.size_append]
    exact congrArg (· + Text.size front) hstart

theorem part_front {text back : Text} {start : Nat}
    (hlies : (mk (text ++ back) start).LiesIn whole) : (mk text start).LiesIn whole :=
  @part whole [] text back start hlies

theorem of_isPrefix {text : Text} {start : Nat} (hlies : (mk text start).LiesIn whole) {front : Text}
    (hfront : front <+: text) : (mk front start).LiesIn whole := by
  obtain ⟨back, rfl⟩ := hfront
  exact hlies.part_front

/-! ## Trimming and taking -/

theorem drop (hlies : fragment.LiesIn whole) (count : Nat) :
    (fragment.drop count).LiesIn whole := by
  obtain ⟨text, start⟩ := fragment
  have hsplit : text = text.take count ++ (text.drop count ++ []) := by
    rw [List.append_nil, List.take_append_drop]
  rw [hsplit] at hlies
  exact hlies.part

theorem take (hlies : fragment.LiesIn whole) (count : Nat) : (fragment.take count).LiesIn whole :=
  hlies.of_isPrefix (List.take_prefix count _)

theorem trim (hlies : fragment.LiesIn whole) : fragment.trim.LiesIn whole := by
  obtain ⟨text, start⟩ := fragment
  obtain ⟨back, htrim, -⟩ := Text.exists_trimEnd (Text.trimStart text)
  rw [← Text.leading_append_trimStart text, htrim] at hlies
  exact hlies.part

theorem skipAsciiBlanks (hlies : fragment.LiesIn whole) : fragment.skipAsciiBlanks.LiesIn whole :=
  hlies.drop _

/-! ## Putting together -/

theorem eq_of_size_eq {first second back back' : Text}
    (htext : first ++ back = second ++ back') (hsize : Text.size first = Text.size second) :
    first = second ∧ back = back' := by
  have hlt : ∀ (c : Char) (rest : Text), 0 < Text.size (c :: rest) := fun c rest => by
    have hc := c.utf8Size_pos
    rw [Text.size_cons]
    omega
  obtain ⟨gap, rfl, rfl⟩ | ⟨gap, rfl, rfl⟩ := List.append_eq_append_iff.mp htext
  all_goals
    cases gap with
    | nil => simp
    | cons c gap =>
        have hc := hlt c gap
        rw [Text.size_append] at hsize
        omega

theorem append (hleft : left.LiesIn whole) (hright : right.LiesIn whole)
    (hnext : right.start = left.stop) : (left.append right).LiesIn whole := by
  obtain ⟨before, behind, hwhole, hstart⟩ := hleft
  obtain ⟨before', behind', hwhole', hstart'⟩ := hright
  have hsize : Text.size (before ++ left.text) = Text.size before' := by
    rw [Text.size_append, ← hstart, ← hstart', hnext, stop]
  have hsame := eq_of_size_eq (by rw [List.append_assoc, ← hwhole, hwhole']) hsize
  exact ⟨before, behind', by rw [hwhole, hsame.2, Fragment.append]; simp, hstart⟩

end LiesIn

@[simp] theorem start_append (left right : Fragment) : (left.append right).start = left.start := rfl

theorem stop_append (left right : Fragment) :
    (left.append right).stop = left.stop + Text.size right.text := by
  simp [stop, append, Nat.add_assoc]

end Fragment

/-! ## Segments -/

/-- Segments that lie in a text one behind the other, from an offset on. -/
def Segment.Tile {α : Type} (whole : Text) : Nat → List (Segment α) → Prop
  | _, [] => True
  | start, segment :: rest =>
    segment.mark.LiesIn whole ∧ segment.mark.start = start ∧ segment.body.LiesIn whole ∧
      segment.body.start = segment.mark.stop ∧ Tile whole segment.body.stop rest

namespace Segment.Tile

variable {α : Type} {whole : Text} {start : Nat} {segments : List (Segment α)}

theorem place {cuts : List (Cut α)} (hlies : (Fragment.mk (Cut.textOf cuts) start).LiesIn whole) :
    Tile whole start (Segmentation.place start cuts) := by
  induction cuts generalizing start with
  | nil => trivial
  | cons cut cuts ih =>
      have htext : Cut.textOf (cut :: cuts) = cut.mark ++ (cut.body ++ Cut.textOf cuts) := by
        simp [Cut.textOf]
      rw [htext] at hlies
      refine ⟨hlies.part_front, rfl, hlies.part, rfl, ?_⟩
      rw [← List.append_assoc, ← List.append_nil (Cut.textOf cuts)] at hlies
      have hrest := hlies.part
      rw [Text.size_append, ← Nat.add_assoc] at hrest
      exact ih hrest

theorem liesIn (htile : Tile whole start segments) :
    ∀ segment ∈ segments, segment.mark.LiesIn whole ∧ segment.body.LiesIn whole := by
  induction segments generalizing start with
  | nil => exact List.forall_mem_nil _
  | cons segment rest ih =>
      obtain ⟨hmark, -, hbody, -, hrest⟩ := htile
      exact List.forall_mem_cons.mpr ⟨⟨hmark, hbody⟩, ih hrest⟩

/-- A part before some segments can be drawn out over the first of them. -/
theorem extend {part : Fragment} {segment : Segment α} (hlies : part.LiesIn whole)
    (htile : Tile whole part.stop (segment :: segments)) :
    ((part.append segment.mark).append segment.body).LiesIn whole ∧
      Tile whole ((part.append segment.mark).append segment.body).stop segments := by
  obtain ⟨hmark, hstart, hbody, hbodyStart, hrest⟩ := htile
  have hstop : (part.append segment.mark).stop = segment.mark.stop := by
    rw [Fragment.stop_append, ← hstart, Fragment.stop]
  have hbehind : ((part.append segment.mark).append segment.body).stop = segment.body.stop := by
    rw [Fragment.stop_append, hstop, Fragment.stop, Fragment.stop, hbodyStart, Fragment.stop]
  exact ⟨(hlies.append hmark hstart).append hbody (hbodyStart.trans hstop.symm), hbehind ▸ hrest⟩

/-- A part and all segments behind it can be put together. -/
theorem join {part : Fragment} (hlies : part.LiesIn whole) (htile : Tile whole part.stop segments) :
    (Fragment.mk
      (part.text ++ segments.flatMap fun segment => segment.mark.text ++ segment.body.text)
      part.start).LiesIn whole := by
  induction segments generalizing part with
  | nil =>
      rw [List.flatMap_nil, List.append_nil]
      exact hlies
  | cons segment rest ih =>
      obtain ⟨hextended, hrest⟩ := extend hlies htile
      have hjoined := ih hextended hrest
      simpa [Fragment.append] using hjoined

end Segment.Tile

/-- What a finder says about each of its marks holds of the marks at which cells are cut. -/
theorem Cut.forall_marks {α : Type} {find : Finder α} {P : α → Text → Prop}
    (hfind : ∀ before cells label count, find before cells = some (label, count) →
      P label (Cell.text (cells.take count)))
    (skip : Nat) (depth : Int) (before : Option Char) (cells : List Cell) :
    ∀ cut ∈ (cutCells find skip depth before cells).2, P cut.label cut.mark := by
  induction cells generalizing skip depth before with
  | nil => exact List.forall_mem_nil _
  | cons cell rest ih =>
      cases skip with
      | succ count => exact ih count depth _
      | zero =>
          rw [cutCells]
          split
          · rename_i label count hfound
            refine List.forall_mem_cons.mpr ⟨?_, ih count depth _⟩
            rw [Option.ite_none_right_eq_some] at hfound
            exact hfind _ _ _ _ hfound.2
          · exact ih 0 _ _

namespace Segmentation

variable {α : Type} {whole : Text} {start : Nat} {cells : List Cell} {find : Finder α}
  {before : Option Char}

theorem liesIn_ofCells (hlies : (Fragment.mk (Cell.text cells) start).LiesIn whole) :
    (ofCells find before cells start).head.LiesIn whole ∧
      Segment.Tile whole (ofCells find before cells start).head.stop
        (ofCells find before cells start).tail := by
  have htext := text_cutCells find 0 0 before cells
  rw [List.drop_zero] at htext
  rw [← htext] at hlies
  refine ⟨hlies.part_front, .place ?_⟩
  rw [← List.append_nil (Cut.textOf _)] at hlies
  exact hlies.part

end Segmentation

namespace Fragment

variable {α : Type} {whole : Text} {fragment : Fragment} {find : Finder α}

theorem LiesIn.segment (hlies : fragment.LiesIn whole) (find : Finder α) :
    (fragment.segment find).head.LiesIn whole ∧
      Segment.Tile whole (fragment.segment find).head.stop (fragment.segment find).tail :=
  Segmentation.liesIn_ofCells (by rw [Text.cells, Mode.text_cells]; exact hlies)

theorem exists_segment_of_splitFirst? {split : Split α}
    (hsplit : fragment.splitFirst? find = some split) :
    ∃ first others, (fragment.segment find).tail = first :: others ∧
      split = ⟨first.label, (fragment.segment find).head, first.mark,
        ⟨first.body.text ++ others.flatMap fun part => part.mark.text ++ part.body.text,
          first.body.start⟩⟩ := by
  rw [Fragment.splitFirst?] at hsplit
  cases htail : (fragment.segment find).tail with
  | nil =>
      rw [htail] at hsplit
      contradiction
  | cons first others =>
      rw [htail] at hsplit
      exact ⟨first, others, rfl, (Option.some.inj hsplit).symm⟩

theorem LiesIn.splitFirst? {split : Split α} (hlies : fragment.LiesIn whole)
    (hsplit : fragment.splitFirst? find = some split) :
    split.before.LiesIn whole ∧ split.mark.LiesIn whole ∧ split.after.LiesIn whole := by
  obtain ⟨hhead, htile⟩ := hlies.segment find
  obtain ⟨first, others, htail, rfl⟩ := exists_segment_of_splitFirst? hsplit
  rw [htail] at htile
  obtain ⟨hmark, -, hbody, -, hothers⟩ := htile
  exact ⟨hhead, hmark, Segment.Tile.join hbody hothers⟩

theorem mark_splitFirst? {split : Split α} {P : α → Text → Prop}
    (hfind : ∀ before cells label count, find before cells = some (label, count) →
      P label (Cell.text (cells.take count)))
    (hsplit : fragment.splitFirst? find = some split) : P split.label split.mark.text := by
  have hcuts := Cut.forall_marks hfind 0 0 none fragment.text.cells
  rw [← Segmentation.map_cut_tail_ofCells none fragment.text.cells fragment.start,
    List.forall_mem_map] at hcuts
  obtain ⟨first, others, htail, rfl⟩ := exists_segment_of_splitFirst? hsplit
  exact hcuts first (by rw [← Fragment.segment, htail]; exact List.mem_cons_self)

/-- A split part begins where the whole begins. -/
theorem before_isPrefix {split : Split α} (hsplit : fragment.splitFirst? find = some split) :
    split.before.text <+: fragment.text := by
  have htext := text_cutCells find 0 0 none fragment.text.cells
  rw [List.drop_zero, Text.cells, Mode.text_cells] at htext
  obtain ⟨first, others, -, rfl⟩ := exists_segment_of_splitFirst? hsplit
  exact ⟨_, htext⟩

theorem LiesIn.closeChain {part : Fragment} {segments : List (Segment ChainMark)} {pending : Bool}
    {connector : Option Connector} (hlies : part.LiesIn whole)
    (htile : Segment.Tile whole part.stop segments) :
    ∀ closed ∈ closeChain pending connector part segments, closed.expression.LiesIn whole := by
  induction segments generalizing pending connector part with
  | nil => simpa [Fragment.closeChain] using hlies.trim
  | cons segment rest ih =>
      obtain ⟨hextended, hrest⟩ := Segment.Tile.extend hlies htile
      obtain ⟨-, -, hbody, -, hbodyRest⟩ := htile
      rw [Fragment.closeChain]
      split
      · exact ih hextended hrest
      · split
        · exact ih hextended hrest
        · exact List.forall_mem_cons.mpr ⟨hlies.trim, ih hbody hbodyRest⟩

theorem LiesIn.splitChain (hlies : fragment.LiesIn whole) (connectors : List Connector) :
    ∀ part ∈ fragment.splitChain connectors, part.expression.LiesIn whole :=
  let ⟨hhead, htile⟩ := hlies.segment (ChainMark.finder connectors)
  hhead.closeChain htile

theorem LiesIn.splitList (hlies : fragment.LiesIn whole) :
    ∀ item ∈ fragment.splitList, item.LiesIn whole := by
  obtain ⟨hhead, htile⟩ := hlies.segment Finder.comma
  rw [Fragment.splitList]
  refine List.forall_mem_cons.mpr ⟨hhead.trim, List.forall_mem_map.mpr fun segment hmem => ?_⟩
  exact (htile.liesIn segment hmem).2.trim

theorem leading_of_mem_splitList {item : Fragment} (hitem : item ∈ fragment.splitList) :
    Text.leading item.text = [] := by
  rw [Fragment.splitList, List.mem_cons, List.mem_map] at hitem
  rcases hitem with rfl | ⟨segment, -, rfl⟩
  · exact Text.leading_trim _
  · exact Text.leading_trim _

theorem LiesIn.inside? {inner : Fragment} (hlies : fragment.LiesIn whole)
    (hinside : fragment.inside? = some inner) : inner.LiesIn whole := by
  have htrim : (mk (Text.trim fragment.text) fragment.trim.start).LiesIn whole := hlies.trim
  rw [trim_of_inside? hinside] at htrim
  have hpart := @LiesIn.part whole ['('] inner.text [')'] fragment.trim.start htrim
  rwa [show fragment.trim.start + Text.size ['('] = inner.start from
    (start_of_inside? hinside).symm] at hpart

theorem LiesIn.openWithin (hlies : fragment.LiesIn whole) (bound : Nat) :
    (fragment.openWithin bound).LiesIn whole := by
  induction bound generalizing fragment with
  | zero => exact hlies.trim
  | succ bound ih =>
      rw [Fragment.openWithin]
      cases hinside : fragment.inside? with
      | none => exact hlies.trim
      | some inner => exact ih (hlies.inside? hinside)

theorem LiesIn.openAll (hlies : fragment.LiesIn whole) : fragment.openAll.LiesIn whole :=
  hlies.openWithin _

end Fragment

namespace Condition

variable {whole : Text} {fragment : Fragment}

theorem liesIn_stripWithin (hlies : fragment.LiesIn whole) (bound : Nat) (negated : Bool) :
    (stripWithin bound negated fragment).1.LiesIn whole := by
  induction bound generalizing fragment negated with
  | zero => exact hlies.trim
  | succ bound ih =>
      rw [stripWithin]
      cases hinside : fragment.trim.inside? with
      | some inner => exact ih (hlies.trim.inside? hinside) negated
      | none =>
          cases Keyword.not_.length? none fragment.trim.text.cells with
          | some count => exact ih (hlies.trim.drop count) (!negated)
          | none => exact hlies.trim

theorem liesIn_strip (hlies : fragment.LiesIn whole) : (strip fragment).1.LiesIn whole :=
  liesIn_stripWithin hlies _ _

theorem leading_strip (fragment : Fragment) : Text.leading (strip fragment).1.text = [] := by
  have hwithin : ∀ bound negated (fragment : Fragment),
      Text.leading (stripWithin bound negated fragment).1.text = [] := by
    intro bound
    induction bound with
    | zero => exact fun _ fragment => Text.leading_trim fragment.text
    | succ bound ih =>
        intro negated fragment
        rw [stripWithin]
        cases fragment.trim.inside? with
        | some inner => exact ih negated inner
        | none =>
            cases Keyword.not_.length? none fragment.trim.text.cells with
            | some count => exact ih (!negated) (fragment.trim.drop count)
            | none => exact Text.leading_trim fragment.text
  exact hwithin _ _ fragment

end Condition

/-! ## Words -/

namespace Keyword

variable {keyword : Keyword} {word : Text}

/-- A keyword of one word is found where the word stands in letters of any case. -/
theorem toUpper_of_length? (hform : keyword.form = .phrase [word]) {before : Option Char}
    {cells : List Cell} {count : Nat} (hcount : keyword.length? before cells = some count) :
    (Cell.text (cells.take count)).map Char.toUpper = word := by
  obtain ⟨rest, hafter, rfl⟩ := Option.map_eq_some_iff.mp hcount
  rw [after?, hform] at hafter
  simp only [Option.ite_none_left_eq_some] at hafter
  obtain ⟨-, hafter⟩ := hafter
  cases hword : afterWord? word cells with
  | none => simp [afterPhrase?, hword] at hafter
  | some behind =>
      simp only [afterPhrase?, afterWords?, hword, Option.ite_none_left_eq_some,
        Option.some.injEq] at hafter
      obtain ⟨-, rfl⟩ := hafter
      obtain ⟨front, rfl, hmap, -⟩ := afterWord?_eq_some_iff.mp hword
      rw [List.length_append, Nat.add_sub_cancel, List.take_left, Cell.text, List.map_map]
      exact hmap

theorem toUpper_of_ofKeyword (hform : keyword.form = .phrase [word]) {before : Option Char}
    {cells : List Cell} {label : Unit} {count : Nat}
    (hfound : Finder.ofKeyword keyword before cells = some (label, count)) :
    (Cell.text (cells.take count)).map Char.toUpper = word := by
  rw [Finder.ofKeyword, Finder.ofKeywords, List.findSome?_singleton,
    Option.map_eq_some_iff] at hfound
  obtain ⟨_, hcount, hpair⟩ := hfound
  obtain ⟨-, rfl⟩ := Prod.mk.inj hpair
  exact toUpper_of_length? hform hcount

end Keyword

end SelectForm

import Mathlib
import SelectForm.Proofs.Statement.JoinedConditions
import SelectForm.Proofs.Statement.KeywordSearch

/-!
# The conditions of a join between `AND`s

A chain of conditions is split with `BETWEEN` in mind: the `AND` behind one does not split.  The
conditions of a join compare two columns each, so no `BETWEEN` stands in what is read as one, and
the parts of such a chain are what is left between the `AND`s outside all parentheses.
-/

namespace SelectForm

open Lexeme

/-! ## Comparisons of columns -/

namespace Text

variable {text : Text}

/-- A qualified name is a word with a dot in it, so it is no word of a chain. -/
theorem isUnmarked_qualified {table column : Text} (htable : isName table = true)
    (hcolumn : isName column = true) :
    (∀ c ∈ table ++ '.' :: column, isWordChar c = true) ∧
      IsUnmarked (table ++ '.' :: column) := by
  have hword : ∀ c ∈ table ++ '.' :: column, isWordChar c = true := by
    intro c hc
    rcases List.mem_append.mp hc with hc | hc
    · exact isWordChar_of_isNameTail ((forall_of_isName htable).2 c hc)
    · rcases List.mem_cons.mp hc with rfl | hc
      · rfl
      · exact isWordChar_of_isNameTail ((forall_of_isName hcolumn).2 c hc)
  refine ⟨hword, isUnmarked_word hword fun hstop => ?_⟩
  have hletter := (isAlpha_of_chainWord hstop).2 '.' (by simp)
  exact absurd hletter (by decide)

theorem isUnmarked_of_comparison? {operator : Operator}
    {leftTable leftColumn rightTable rightColumn : Text}
    (hread : comparison? text =
      some ((some leftTable, leftColumn), operator, (some rightTable, rightColumn))) :
    text.IsUnmarked := by
  obtain ⟨gap, symbol, gap', rfl, hgap, hgap', hne, hsymbol, -, hleft, hright⟩ :=
    exists_of_comparison? hread
  have hsign : ∀ c ∈ symbol, isBreak c = true := by
    have hall : ['<', '>', '!', '='].all isBreak = true := rfl
    exact fun c hc => List.all_eq_true.mp hall c (hsymbol hc)
  have hsymbolRow : IsUnmarked symbol := isUnmarked_signs fun c hc => by
    have hc := hsymbol hc
    simp only [List.mem_cons, List.not_mem_nil, or_false] at hc ⊢
    tauto
  have hbehind := (isUnmarked_blanks hgap').append (isUnmarked_qualified hright.1 hright.2).2
    (clear_blanks_left _ hgap')
  have hfront := (isUnmarked_blanks hgap).append hsymbolRow (clear_blanks_left _ hgap)
  refine (isUnmarked_qualified hleft.1 hleft.2).2.append (hfront.append hbehind ?_) ?_
  · refine clear_of_isBreak_left _ fun a ha => hsign a ?_
    rw [List.getLast?_append_of_ne_nil _ hne] at ha
    exact List.mem_of_getLast? ha
  · refine clear_of_isBreak_right _ fun b hb => ?_
    cases gap with
    | nil =>
        rw [List.nil_append, List.head?_append_of_ne_nil _ hne] at hb
        exact hsign b (List.mem_of_head? hb)
    | cons c gap =>
        obtain rfl := Option.mem_some_iff.mp hb
        exact isBreak_of_isBlank (hgap c List.mem_cons_self)

end Text

namespace Fragment

variable {fragment : Fragment}

/-- Parentheses around an unmarked text leave it unmarked. -/
theorem isUnmarked_of_openWithin {bound : Nat}
    (hbody : (fragment.openWithin bound).text.IsUnmarked) : fragment.text.IsUnmarked := by
  induction bound generalizing fragment with
  | zero => exact .of_trim hbody
  | succ bound ih =>
      rw [openWithin] at hbody
      split at hbody
      · rename_i inner hinside
        apply Text.IsUnmarked.of_trim
        rw [trim_of_inside? hinside]
        exact (ih hbody).isClosed.group
      · exact .of_trim hbody

end Fragment

namespace JoinCondition

theorem isUnmarked_of_read {fragment : Fragment} {condition : JoinCondition}
    (hread : read fragment = .ok condition) : fragment.text.IsUnmarked := by
  unfold read at hread
  dsimp only at hread
  split at hread
  · exact absurd hread (by simp)
  · rename_i hcomparison
    exact Fragment.isUnmarked_of_openWithin (Text.isUnmarked_of_comparison? hcomparison)
  · exact absurd hread (by simp)

end JoinCondition

/-! ## Marks in an unmarked text -/

namespace ChainMark

theorem arePhrases_entries (connectors : List Connector) :
    Finder.ArePhrases (entries connectors) := by
  intro entry hmem
  simp only [entries, List.mem_cons, List.mem_map] at hmem
  rcases hmem with rfl | ⟨connector, -, rfl⟩
  · rfl
  · cases connector <;> rfl

/-- `BETWEEN` is looked for before the connectors. -/
theorem finder_eq (connectors : List Connector) (before : Option Char) (cells : List Cell) :
    finder connectors before cells =
      ((Keyword.between.length? before cells).map fun count => (between, count)).or
        (Finder.ofKeywords
          (connectors.map fun connector => (connector.phrase, ChainMark.connector connector))
          before cells) := by
  rw [finder, Finder.ofKeywords, List.findSome?_cons]
  dsimp only
  cases Keyword.between.length? before cells <;> rfl

theorem keepsLevel_finder (connectors : List Connector) : (finder connectors).KeepsLevel :=
  Finder.keepsLevel_ofKeywords fun entry hmem =>
    Keyword.isSearchable_of_isPhrase (arePhrases_entries connectors entry hmem)

/-- Where no `BETWEEN` is found, a chain without `OR` is searched for `AND` alone. -/
theorem finder_and (before : Option Char) (cells : List Cell) :
    finder [.and] before cells =
        (Finder.ofKeyword .and_ before cells).map (fun found => (.connector .and, found.2)) ∨
      ∃ label count, finder [.and] before cells = some (label, count + 1) ∧ label = .between := by
  cases hcount : Keyword.between.length? before cells with
  | none =>
      left
      rw [finder_eq, hcount, Finder.ofKeyword, Finder.ofKeywords, Finder.ofKeywords]
      cases hand : Keyword.and_.length? before cells <;> simp [Connector.phrase, hand]
  | some count =>
      right
      have hfound : finder [.and] before cells = some (.between, count) := by
        rw [finder_eq, hcount]
        rfl
      obtain ⟨mark, rest, -, rfl, hne, -⟩ := keepsLevel_finder [.and] _ _ _ _ hfound
      obtain ⟨cell, mark, rfl⟩ := List.exists_cons_of_ne_nil hne
      exact ⟨.between, mark.length, hfound, rfl⟩

end ChainMark

namespace Text.IsUnmarked

variable {text : Text}

theorem matchesOf_eq (hunmarked : text.IsUnmarked) (start : Nat) :
    (Fragment.mk text start).matchesOf (ChainMark.finder [.and, .or]) = [] := by
  obtain ⟨row, hrow, rfl⟩ := hunmarked
  have hcuts : Cuts ChainMark.seek 0 none row row [] := by
    have hall : Cuts ChainMark.seek 0 none (row ++ []) (row ++ []) [] :=
      Cuts.of_unmarked hrow (by simp [Clear]) .nil
    rwa [List.append_nil] at hall
  have hcells := hcuts.cutCells_eq ChainMark.seek_follows true hrow.sound.atomic
  rw [Fragment.matchesOf, Match.walk_eq, hrow.sound.cells_textOf, hcells]
  rfl

/-- No `BETWEEN` stands in an unmarked text outside all parentheses. -/
theorem not_between {front mark back : List Cell} (hunmarked : text.IsUnmarked)
    (hcells : text.cells.map Cell.face = (front ++ (mark ++ back)).map Cell.face)
    (hdepth : Cell.depth front = 0) (hcode : ∀ cell ∈ mark, cell.isCode = true) :
    ¬ Keyword.between.Fits (Cell.text front).getLast? (Cell.text mark) (Cell.text back) := by
  intro hfits
  rw [List.map_append, List.map_append] at hcells
  obtain ⟨front', behind, hparts, hfront, hbehind⟩ := List.map_eq_append_iff.mp hcells
  obtain ⟨mark', back', rfl, hmark, hback⟩ := List.map_eq_append_iff.mp hbehind
  rw [← Cell.text_of_faces hfront, ← Cell.text_of_faces hmark, ← Cell.text_of_faces hback] at hfits
  obtain ⟨⟨c, hc, hletter⟩, -⟩ := @Keyword.ends_of_spells .between _ rfl hfits.spells
  cases mark' with
  | nil => simp [Cell.text] at hc
  | cons cell mark' =>
      obtain rfl : cell.char = c := by simpa [Cell.text] using hc
      have hcode' := Cell.isCode_of_faces hmark.symm hcode
      have hlength := (Keyword.length?_eq_some_iff (Keyword.isFilled_of_isPhrase rfl)).mpr
        ⟨cell :: mark', back', rfl, rfl, hcode', hfits⟩
      have hwalks := Match.walks (ChainMark.keepsLevel_finder [.and, .or]) 0 none 0 text.cells
      have hnone := hunmarked.matchesOf_eq 0
      rw [Fragment.matchesOf] at hnone
      rw [hnone] at hwalks
      have hfound : (ChainMark.finder [.and, .or] (Cell.text front').getLast?
          (cell :: mark' ++ back')).isSome = true := by
        rw [ChainMark.finder_eq, hlength]
        rfl
      rw [← Option.or_none (o := (Cell.text front').getLast?)] at hfound
      have hlevel : 0 + Cell.depth front' = 0 := by
        rw [Cell.depth_of_faces hfront, hdepth]
        rfl
      obtain ⟨point, hpoint, -⟩ := hwalks.exists_point hparts hlevel
        (Cell.isTopLevel_of_isAlpha (hcode' cell List.mem_cons_self) hletter) hfound
      exact absurd hpoint List.not_mem_nil

end Text.IsUnmarked

/-! ## Cuts that are no `BETWEEN` -/

/-- In front of the first mark the parentheses are balanced. -/
theorem depth_of_cutCells {α : Type} {find : Finder α} {depth : Int} {before : Option Char}
    {front back : List Cell} {cut : Cut α} {cuts : List (Cut α)}
    (hcuts : cutCells find 0 depth before (front ++ back) = (Cell.text front, cut :: cuts)) :
    depth + Cell.depth front = 0 := by
  induction front generalizing depth before with
  | nil =>
      cases back with
      | nil => simp [cutCells] at hcuts
      | cons cell back =>
          by_cases htop : cell.isTopLevel depth = true
          · obtain ⟨⟨rfl, -⟩, -⟩ := Cell.isTopLevel_iff.mp htop
            rfl
          · rw [List.nil_append, cutCells_cons fun h => absurd h htop] at hcuts
            simp [Cut.inFront, Cell.text] at hcuts
  | cons cell front ih =>
      rw [List.cons_append, cutCells] at hcuts
      split at hcuts
      · simp [Cell.text] at hcuts
      · obtain ⟨hhead, htail⟩ := Prod.mk.inj hcuts
        rw [Cell.depth_cons, ← Int.add_assoc]
        exact ih (Prod.ext (List.cons.inj hhead).2 htail)

theorem Keyword.Fits.narrow {keyword : Keyword} {found other : Option Char}
    {text behind rest : Text} (hfits : keyword.Fits (found.or other) text (behind ++ rest)) :
    keyword.Fits found text behind := by
  refine ⟨hfits.spells, fun words hform => ?_⟩
  obtain ⟨hbefore, hbehind⟩ := hfits.bounded words hform
  refine ⟨Cuts.any_of_or hbefore, ?_⟩
  cases behind with
  | nil => rfl
  | cons c behind => exact hbehind

/-- A mark begins with a letter. -/
theorem Cut.isAlpha_head?_mark {α : Type} {keywords : List (Keyword × α)}
    (hphrases : Finder.ArePhrases keywords) (skip : Nat) (depth : Int) (before : Option Char)
    (cells : List Cell) :
    ∀ cut ∈ (cutCells (.ofKeywords keywords) skip depth before cells).2,
      ∃ c, cut.mark.head? = some c ∧ c.isAlpha = true := by
  refine forall_marks (P := fun _ mark => ∃ c, mark.head? = some c ∧ c.isAlpha = true) ?_ skip depth
    before cells
  intro before cells label count hfound
  obtain ⟨-, first, mark, rest, -, -, rfl, rfl, -, hletter, -⟩ :=
    Finder.exists_of_found hphrases hfound
  exact ⟨first.char, by simp [Cell.text], hletter⟩

/-- The cells up to a later mark, which is not read differently without what is behind it. -/
theorem Cut.exists_inside {α : Type} {keywords : List (Keyword × α)}
    (hphrases : Finder.ArePhrases keywords) {depth : Int} {before : Option Char}
    {cells : List Cell} {body : Text} {inner others : List (Cut α)}
    (hcuts : cutCells (.ofKeywords keywords) 0 depth before cells = (body, inner ++ others)) :
    ∃ inside behind, cells = inside ++ behind ∧ Cell.text inside = body ++ textOf inner ∧
      ∀ c ∈ (Cell.text behind).head?, Text.isInert c = true := by
  have htext := text_cutCells (.ofKeywords keywords) 0 depth before cells
  have hletters := isAlpha_head?_mark hphrases 0 depth before cells
  rw [hcuts, List.drop_zero] at htext
  rw [hcuts] at hletters
  have hsplit : cells.map Cell.char = (body ++ textOf inner) ++ textOf others := by
    rw [← Cell.text, ← htext]
    simp [textOf]
  obtain ⟨inside, behind, rfl, hinside, hbehind⟩ := List.map_eq_append_iff.mp hsplit
  refine ⟨inside, behind, rfl, hinside, fun d hd => ?_⟩
  rw [Cell.text, hbehind] at hd
  cases others with
  | nil => simp [textOf] at hd
  | cons other others =>
      obtain ⟨c, hc, hletter⟩ := hletters other (by simp)
      have hhead : (textOf (other :: others)).head? = some c := by
        simp [textOf, hc]
      rw [hhead] at hd
      exact Option.mem_some_iff.mp hd ▸ Text.isInert_of_isAlpha hletter

namespace ChainLink

/-- The first part of a chain reaches over some of the cuts. -/
theorem exists_head_closeTexts (pending : Bool) (connector : Option Connector) (part : Text)
    (cuts : List (Cut ChainMark)) :
    ∃ front back, cuts = front ++ back ∧
      (connector, Text.trim (part ++ Cut.textOf front)) ∈
        closeTexts pending connector part cuts := by
  induction cuts generalizing pending part with
  | nil => exact ⟨[], [], rfl, by simp [closeTexts, Cut.textOf]⟩
  | cons cut cuts ih =>
      have hextend : ∀ pending', ∃ front back, cut :: cuts = front ++ back ∧
          (connector, Text.trim (part ++ Cut.textOf front)) ∈
            closeTexts pending' connector (part ++ cut.mark ++ cut.body) cuts := by
        intro pending'
        obtain ⟨front, back, rfl, hmem⟩ := ih pending' (part ++ cut.mark ++ cut.body)
        refine ⟨cut :: front, back, rfl, ?_⟩
        simpa [Cut.textOf] using hmem
      rw [closeTexts]
      split
      · exact hextend true
      · split
        · exact hextend false
        · exact ⟨[], _, rfl, by simp [Cut.textOf]⟩

/-- Where no part of a chain holds a mark, the chain is cut at connectors only. -/
theorem label_ne_between {connectors : List Connector} {mode : Mode} {before : Option Char}
    {connector : Option Connector} {text head : Text} {cuts : List (Cut ChainMark)}
    (hmode : mode = .between ∨ mode = .code)
    (hcuts : cutCells (ChainMark.finder connectors) 0 0 before (mode.cells text) = (head, cuts))
    (hparts : ∀ part ∈ closeTexts false connector head cuts, part.2.IsUnmarked) :
    ∀ cut ∈ cuts, cut.label ≠ .between := by
  have hphrases := ChainMark.arePhrases_entries connectors
  induction cuts generalizing mode before connector text head with
  | nil => exact List.forall_mem_nil _
  | cons cut cuts ih =>
      obtain ⟨keyword, front, mark, back, hmem, hcells, hfront, hmark, hcode, hfits, -, hbody⟩ :=
        exists_of_firstCut hphrases hcuts
      rw [closeTexts] at hparts
      cases hlabel : cut.label with
      | connector next =>
          simp only [hlabel, Bool.false_eq_true, and_false, if_false] at hparts
          obtain ⟨behind, -, -, hrest⟩ := Mode.exists_of_cells hcells
          obtain ⟨-, hback⟩ := Mode.exists_of_mark (hphrases _ hmem) hrest.symm hcode
            (hmark.symm ▸ hfits.spells)
          rw [hback] at hbody
          refine List.forall_mem_cons.mpr ⟨by simp [hlabel], ?_⟩
          exact ih (.inr rfl) hbody fun part hpart => hparts part (List.mem_cons_of_mem _ hpart)
      | between =>
          exfalso
          rw [hlabel] at hmem
          obtain rfl : keyword = .between := by simpa [ChainMark.entries] using hmem
          simp only [hlabel] at hparts
          obtain ⟨inner, others, rfl, hpart⟩ :=
            exists_head_closeTexts true connector (head ++ cut.mark ++ cut.body) cuts
          have hunmarked := Text.IsUnmarked.of_trim (hparts _ hpart)
          obtain ⟨inside, behind, rfl, hinside, hinert⟩ := Cut.exists_inside hphrases hbody
          have hread : mode.cells text = (front ++ (mark ++ inside)) ++ behind := by
            rw [hcells]
            simp
          have hfaces := Mode.faces_front hmode hread hinert
          have hpartText : Cell.text (front ++ (mark ++ inside)) =
              head ++ cut.mark ++ cut.body ++ Cut.textOf inner := by
            rw [Cell.text_append, Cell.text_append, hfront, hmark, hinside]
            simp
          rw [hpartText] at hfaces
          have hdepth : 0 + Cell.depth front = 0 := by
            rw [← hfront, hcells] at hcuts
            exact depth_of_cutCells hcuts
          rw [zero_add] at hdepth
          rw [Cell.text_append, ← hfront, ← hmark] at hfits
          exact hunmarked.not_between hfaces.symm hdepth hcode hfits.narrow

end ChainLink

/-! ## Cuts at `AND` -/

/-- A cut with another label. -/
def Cut.relabel {α β : Type} (f : α → β) (cut : Cut α) : Cut β :=
  ⟨f cut.label, cut.mark, cut.body⟩

/-- Two finders that give the same marks, but for some that are not among the cuts, cut the same. -/
theorem cutCells_relabel {α β : Type} {find : Finder α} {find' : Finder β} {f : α → β}
    {other : β → Prop}
    (hfind : ∀ before cells,
      find' before cells = (find before cells).map (fun found => (f found.1, found.2)) ∨
        ∃ label count, find' before cells = some (label, count + 1) ∧ other label)
    {skip : Nat} {depth : Int} {before : Option Char} {cells : List Cell}
    (hcuts : ∀ cut ∈ (cutCells find' skip depth before cells).2, ¬ other cut.label) :
    cutCells find' skip depth before cells =
      ((cutCells find skip depth before cells).1,
        (cutCells find skip depth before cells).2.map (Cut.relabel f)) := by
  induction cells generalizing skip depth before with
  | nil => rfl
  | cons cell rest ih =>
      cases skip with
      | succ skip => exact ih hcuts
      | zero =>
          simp only [cutCells] at hcuts ⊢
          by_cases htop : cell.isTopLevel depth = true
          · simp only [htop, if_true] at hcuts ⊢
            rcases hfind before (cell :: rest) with hsame | ⟨label, count, hother, hlabel⟩
            · rw [hsame] at hcuts ⊢
              cases hfound : find before (cell :: rest) with
              | none =>
                  simp only [hfound, Option.map_none] at hcuts ⊢
                  rw [ih hcuts]
              | some found =>
                  obtain ⟨label, count⟩ := found
                  cases count with
                  | zero =>
                      simp only [hfound, Option.map_some] at hcuts ⊢
                      rw [ih hcuts]
                  | succ count =>
                      simp only [hfound, Option.map_some] at hcuts ⊢
                      rw [ih (List.forall_mem_cons.mp hcuts).2]
                      rfl
            · rw [hother] at hcuts
              exact absurd hlabel ((List.forall_mem_cons.mp hcuts).1)
          · simp only [htop, if_false, Bool.false_eq_true] at hcuts ⊢
            rw [ih hcuts]

namespace Segmentation

variable {α β : Type}

theorem map_body_place (f : α → β) (start : Nat) (cuts : List (Cut α)) :
    (place start (cuts.map (Cut.relabel f))).map Segment.body =
      (place start cuts).map Segment.body := by
  induction cuts generalizing start with
  | nil => rfl
  | cons cut cuts ih =>
      rw [List.map_cons, place, List.map_cons, place, List.map_cons, ← ih]
      rfl

end Segmentation

namespace Fragment

variable {fragment : Fragment}

/-- What is left of a fragment between the marks that stand outside all parentheses. -/
def pieces {α : Type} (find : Finder α) (fragment : Fragment) : List Fragment :=
  (fragment.segment find).head.trim ::
    (fragment.segment find).tail.map fun segment => segment.body.trim

/-- Without a `BETWEEN` every connector ends a part. -/
theorem expressions_closeChain {connector : Option Connector} {part : Fragment}
    {segments : List (Segment ChainMark)}
    (hlabels : ∀ segment ∈ segments, segment.label ≠ .between) :
    (closeChain false connector part segments).map ChainPart.expression =
      part.trim :: segments.map fun segment => segment.body.trim := by
  induction segments generalizing connector part with
  | nil => rfl
  | cons segment segments ih =>
      obtain ⟨hlabel, hrest⟩ := List.forall_mem_cons.mp hlabels
      rw [closeChain]
      cases hcase : segment.label with
      | between => exact absurd hcase hlabel
      | connector next =>
          simp only [Bool.false_eq_true, and_false, if_false, List.map_cons, ih hrest]

/-- The parts of a chain that hold no mark are the pieces between its `AND`s. -/
theorem expressions_splitChain
    (hparts : ∀ part ∈ fragment.splitChain [.and], part.expression.text.IsUnmarked) :
    (fragment.splitChain [.and]).map ChainPart.expression = fragment.pieces (.ofKeyword .and_) := by
  have hcut := @Segmentation.map_cut_tail_ofCells _ (ChainMark.finder [.and]) none
    fragment.text.cells fragment.start
  have hcuts : ∀ cut ∈ (cutCells (ChainMark.finder [.and]) 0 0 none fragment.text.cells).2,
      cut.label ≠ .between := by
    refine @ChainLink.label_ne_between _ .between none none fragment.text _ _ (.inl rfl) rfl
      fun part hpart => ?_
    rw [← Text.cells, ← hcut] at hpart
    change part ∈ ChainLink.closeTexts false none
      (fragment.segment (ChainMark.finder [.and])).head.text
      ((fragment.segment (ChainMark.finder [.and])).tail.map Segment.cut) at hpart
    rw [← ChainLink.map_closeChain] at hpart
    obtain ⟨closed, hclosed, rfl⟩ := List.mem_map.mp hpart
    exact hparts closed hclosed
  have hlabels : ∀ segment ∈ (fragment.segment (ChainMark.finder [.and])).tail,
      segment.label ≠ .between := by
    rw [← hcut] at hcuts
    exact fun segment hmem => hcuts segment.cut (List.mem_map_of_mem hmem)
  have hsame := @cutCells_relabel Unit ChainMark (.ofKeyword .and_) (ChainMark.finder [.and])
    (fun _ => .connector .and) (fun label => label = .between) ChainMark.finder_and _ _ _ _ hcuts
  rw [splitChain, expressions_closeChain hlabels, pieces, segment, Segmentation.ofCells, hsame]
  refine congrArg _ ?_
  rw [← Function.comp_def, ← List.map_map, Segmentation.map_body_place, List.map_map]
  rfl

end Fragment

namespace JoinCondition

/-- The conditions of a join are read from the pieces between its `AND`s, each from its own. -/
theorem forall₂_of_readChain {fragment : Fragment} {conditions : List JoinCondition}
    (hread : readChain fragment = .ok conditions) :
    List.Forall₂ (fun piece condition => read piece = .ok condition)
      (fragment.pieces (.ofKeyword .and_)) conditions := by
  unfold readChain at hread
  split at hread
  · exact absurd hread (by simp)
  · have hreads : List.Forall₂ (fun part condition => read part.expression = .ok condition)
        (fragment.splitChain [.and]) conditions :=
      (forall₂_of_mapM hread).imp fun _ _ => read_of_ite
    have hparts : ∀ part ∈ fragment.splitChain [.and], part.expression.text.IsUnmarked := by
      intro part hpart
      obtain ⟨condition, -, hcondition⟩ := exists_of_forall₂ hreads part hpart
      exact isUnmarked_of_read hcondition
    rw [← Fragment.expressions_splitChain hparts, List.forall₂_map_left_iff]
    exact hreads

end JoinCondition

end SelectForm

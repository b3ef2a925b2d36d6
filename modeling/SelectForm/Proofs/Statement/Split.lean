import Mathlib
import SelectForm.Statement.Split
import SelectForm.Proofs.Lexis.Piece

/-!
# Taking written expressions apart

Lists, chains of conditions and groups are written from solid pieces.  Each of
the three ways to take an expression apart gives the pieces back: a list its
items, a chain its conditions with their connectors, and a group its inside.
Blanks between the pieces are trimmed off, so the layout leaves no trace.
-/

namespace SelectForm

namespace Lexeme

/-! ## Blanks -/

/-- A blank that a layout may put somewhere. -/
def isLayoutBlank (c : Char) : Bool := c == ' ' || c == '\n'

theorem isSpacer_of_isLayoutBlank {c : Char} (hc : isLayoutBlank c = true) :
    isSpacer c = true ∧ Text.isBlank c = true ∧ Text.isAsciiBlank c = true := by
  simp only [isLayoutBlank, Bool.or_eq_true, beq_iff_eq] at hc
  rcases hc with rfl | rfl <;> decide

theorem quiet_marks {stops : List Text} {gap : Text} (hgap : ∀ c ∈ gap, isLayoutBlank c = true)
    (hspace : [' '] ∉ stops) (hline : ['\n'] ∉ stops) : Quiet stops (marks gap) := by
  intro lexeme hmem
  simp only [marks, List.mem_map] at hmem
  obtain ⟨c, hc, rfl⟩ := hmem
  have hblank := hgap c hc
  simp only [isLayoutBlank, Bool.or_eq_true, beq_iff_eq] at hblank
  rcases hblank with rfl | rfl
  · exact hspace
  · exact hline

theorem nestingOf_marks {gap : Text} (hgap : ∀ c ∈ gap, isLayoutBlank c = true) :
    nestingOf (marks gap) = 0 := by
  have hbalance := balance_marks 0 fun c hc => (isSpacer_of_isLayoutBlank (hgap c hc)).1
  have hnesting := nestingOf_of_balance hbalance
  omega

/-! ## Lists -/

/-- Items with commas between them, and a gap behind each comma. -/
def spread (gap : Text) : List (List Lexeme) → List Lexeme
  | [] => []
  | first :: others => first ++ others.flatMap fun item => mark ',' :: (marks gap ++ item)

theorem textOf_spread (gap : Text) (items : List (List Lexeme)) :
    textOf (spread gap items) = (',' :: gap).intercalate (items.map textOf) := by
  cases items with
  | nil => rfl
  | cons first others =>
      induction others generalizing first with
      | nil => simp [spread]
      | cons second others ih =>
          have hsecond := ih second
          rw [List.map_cons, List.map_cons, List.intercalate_cons_cons, ← List.map_cons, ← hsecond]
          simp [spread, text]

/-- A list of solid items is solid. -/
theorem solid_spread {gap : Text} {items : List (List Lexeme)}
    (hgap : ∀ c ∈ gap, isLayoutBlank c = true) (hne : items ≠ [])
    (hitems : ∀ item ∈ items, Solid item) : Solid (spread gap items) := by
  cases items with
  | nil => exact absurd rfl hne
  | cons first others =>
      have hspace : ∀ c ∈ ',' :: gap, isSpacer c = true := by
        intro c hc
        rcases List.mem_cons.mp hc with rfl | hc
        · rfl
        · exact (isSpacer_of_isLayoutBlank (hgap c hc)).1
      have hfirst := hitems first (by simp)
      clear hne
      induction others generalizing first with
      | nil => simpa [spread] using hfirst
      | cons second others ih =>
          have hsecond := ih second (fun item hmem => hitems item (List.mem_cons_of_mem first hmem))
            (hitems second (by simp))
          have hglue := hfirst.glue hsecond (List.cons_ne_nil ',' gap) hspace
          simpa [spread, marks] using hglue

theorem quiet_spread {stops : List Text} {gap : Text} {items : List (List Lexeme)}
    (hcomma : [','] ∉ stops) (hgap : Quiet stops (marks gap))
    (hitems : ∀ item ∈ items, Quiet stops item) : Quiet stops (spread gap items) := by
  cases items with
  | nil => exact quiet_nil _
  | cons first others =>
      refine quiet_append.mpr ⟨hitems first List.mem_cons_self, ?_⟩
      intro lexeme hmem
      obtain ⟨item, hitem, hmem⟩ := List.mem_flatMap.mp hmem
      rcases List.mem_cons.mp hmem with rfl | hmem
      · exact hcomma
      · rcases List.mem_append.mp hmem with hmem | hmem
        · exact hgap lexeme hmem
        · exact hitems item (List.mem_cons_of_mem first hitem) lexeme hmem

/-- The rest of a list behind its first item, as a row of marked bodies. -/
def commaRow (gap : Text) (items : List (List Lexeme)) : List (Marked Unit) :=
  items.map fun item => ⟨[], (), [mark ','], marks gap ++ item⟩

theorem spread_cons (gap : Text) (trail first : List Lexeme) (others : List (List Lexeme)) :
    spread gap (first :: others) ++ trail =
      first ++ Marked.lexemesOf trail (commaRow gap others) := by
  simp [spread, Marked.lexemesOf, Marked.lexemes, commaRow, List.flatMap_map]

theorem isCutBy_commaRow {gap : Text} {items : List (List Lexeme)}
    (hgap : ∀ c ∈ gap, isLayoutBlank c = true) (hne : gap ≠ [])
    (hitems : ∀ item ∈ items, Solid item ∧ Quiet [[',']] item) :
    ∀ marked ∈ commaRow gap items, marked.IsCutBy Finder.comma [[',']] := by
  intro marked hmem
  simp only [commaRow, List.mem_map] at hmem
  obtain ⟨item, hitem, rfl⟩ := hmem
  obtain ⟨hsolid, hquiet⟩ := hitems item hitem
  constructor
  · exact Finder.comma_announces
  · cases gap with
    | nil => exact absurd rfl hne
    | cons c gap => exact (isSpacer_of_isLayoutBlank (hgap c (by simp))).2.2
  · exact quiet_nil _
  · exact quiet_append.mpr ⟨quiet_marks hgap (by decide) (by decide), hquiet⟩
  · rfl
  · rw [nestingOf_append, nestingOf_marks hgap, hsolid.nestingOf_eq, add_zero]

theorem Solid.trim_eq {item : List Lexeme} {pad trail : Text} (hsolid : Solid item)
    (hpad : ∀ c ∈ pad, isLayoutBlank c = true) (htrail : ∀ c ∈ trail, isLayoutBlank c = true) :
    Text.trim (pad ++ textOf item ++ trail) = textOf item :=
  Text.trim_padded (fun c hc => (isSpacer_of_isLayoutBlank (hpad c hc)).2.1)
    (fun c hc => (isSpacer_of_isLayoutBlank (htrail c hc)).2.1) hsolid.tight

theorem textOf_leadOf_commaRow {gap trail : Text} (items : List (List Lexeme))
    (htrail : ∀ c ∈ trail, isLayoutBlank c = true) :
    ∀ c ∈ textOf (Marked.leadOf (marks trail) (commaRow gap items)),
      isLayoutBlank c = true := by
  cases items with
  | nil => simpa [commaRow, Marked.leadOf] using htrail
  | cons item items => simp [commaRow, Marked.leadOf]

theorem map_trim_cuts_commaRow {gap trail : Text} {items : List (List Lexeme)}
    (hgap : ∀ c ∈ gap, isLayoutBlank c = true) (htrail : ∀ c ∈ trail, isLayoutBlank c = true)
    (hitems : ∀ item ∈ items, Solid item) :
    (Marked.cuts (marks trail) (commaRow gap items)).map (fun cut => Text.trim cut.body) =
      items.map textOf := by
  induction items with
  | nil => rfl
  | cons item items ih =>
      have hrest := ih fun other hmem => hitems other (List.mem_cons_of_mem item hmem)
      have hitem := (hitems item (by simp)).trim_eq hgap
        (@textOf_leadOf_commaRow gap trail items htrail)
      rw [commaRow] at hrest hitem ⊢
      rw [List.map_cons, Marked.cuts, List.map_cons, List.map_cons, hrest]
      simp only [textOf_append, textOf_marks, hitem]

/-- Blanks may stand around a list. -/
theorem Solid.clean_padded {lexemes : List Lexeme} {pad trail : Text} (hsolid : Solid lexemes)
    (hpad : ∀ c ∈ pad, isLayoutBlank c = true) (htrail : ∀ c ∈ trail, isLayoutBlank c = true) :
    Clean (marks pad ++ (lexemes ++ marks trail)) := by
  have hback : Clean (lexemes ++ marks trail) := by
    cases trail with
    | nil => simpa [marks] using hsolid.clean
    | cons c trail =>
        have hblank := fun d hd => (isSpacer_of_isLayoutBlank (htrail d hd)).1
        have hc := isDelimiter_of_isSpacer (hblank c (by simp))
        have hmarks := clean_marks_append hblank clean_nil
        rw [List.append_nil] at hmarks
        exact hsolid.clean.append_mark hc.1 hmarks
  exact clean_marks_append (fun c hc => (isSpacer_of_isLayoutBlank (hpad c hc)).1) hback

end Lexeme

namespace Fragment

/-- A list of solid items is read as its items, whatever blanks stand around
them. -/
theorem texts_splitList {pad gap trail : Text} {items : List (List Lexeme)}
    (hpad : ∀ c ∈ pad, Lexeme.isLayoutBlank c = true)
    (hgap : ∀ c ∈ gap, Lexeme.isLayoutBlank c = true) (hgapNe : gap ≠ [])
    (htrail : ∀ c ∈ trail, Lexeme.isLayoutBlank c = true) (hne : items ≠ [])
    (hitems : ∀ item ∈ items, Lexeme.Solid item ∧ Lexeme.Quiet [[',']] item) (start : Nat) :
    (mk (pad ++ (Lexeme.textOf (Lexeme.spread gap items) ++ trail)) start).splitList.map text =
      items.map Lexeme.textOf := by
  have hsolid := fun item hmem => (hitems item hmem).1
  have hlexed := ((Lexeme.solid_spread hgap hne hsolid).clean_padded hpad htrail).lexed
  have htext : pad ++ (Lexeme.textOf (Lexeme.spread gap items) ++ trail) =
      Lexeme.textOf (Lexeme.marks pad ++ (Lexeme.spread gap items ++ Lexeme.marks trail)) := by
    simp
  rw [htext]
  cases items with
  | nil => exact absurd rfl hne
  | cons first others =>
      have hothers := fun item hmem => hitems item (List.mem_cons_of_mem first hmem)
      obtain ⟨hfirst, hquiet⟩ := hitems first (by simp)
      rw [Lexeme.spread_cons, ← List.append_assoc] at hlexed ⊢
      have hclosed : Lexeme.nestingOf (Lexeme.marks pad ++ first) = 0 := by
        rw [Lexeme.nestingOf_append, Lexeme.nestingOf_marks hpad, hfirst.nestingOf_eq, add_zero]
      obtain ⟨hhead, htail⟩ := segment_row Finder.comma_stopsAt hlexed
        (Lexeme.quiet_append.mpr ⟨Lexeme.quiet_marks hpad (by decide) (by decide), hquiet⟩)
        hclosed (Lexeme.isCutBy_commaRow hgap hgapNe hothers)
        (Lexeme.quiet_marks htrail (by decide) (by decide)) start
      have hbodies := Lexeme.map_trim_cuts_commaRow hgap htrail fun item hmem =>
        (hothers item hmem).1
      have hfirstTrim := hfirst.trim_eq hpad
        (@Lexeme.textOf_leadOf_commaRow gap trail others htrail)
      rw [← htail, List.map_map] at hbodies
      rw [splitList, hhead, List.map_cons, List.map_map, List.map_cons, ← hbodies]
      congr 1
      simp only [trim, Lexeme.textOf_append, Lexeme.textOf_marks]
      exact hfirstTrim

end Fragment

/-! ## Chains -/

namespace ChainMark

/-- The first words of the marks of a chain. -/
def stops : List Text := ["BETWEEN".toList, "AND".toList, "OR".toList]

/-- The keywords that a chain is searched for. -/
def entries (connectors : List Connector) : List (Keyword × ChainMark) :=
  (Keyword.between, between) ::
    connectors.map fun connector => (connector.phrase, ChainMark.connector connector)

theorem isPlain_entries (connectors : List Connector) :
    ∀ entry ∈ entries connectors, entry.1.isPlain = true := by
  intro entry hmem
  simp only [entries, List.mem_cons, List.mem_map] at hmem
  rcases hmem with rfl | ⟨connector, -, rfl⟩
  · rfl
  · cases connector <;> rfl

theorem finder_stopsAt (connectors : List Connector) : (finder connectors).StopsAt stops := by
  refine (Finder.ofKeywords_stopsAt (isPlain_entries connectors)).mono ?_
  intro label hlabel
  simp only [entries, List.map_cons, List.map_map, List.mem_cons, List.mem_map] at hlabel
  rcases hlabel with rfl | ⟨connector, -, rfl⟩
  · exact List.mem_cons_self
  · cases connector <;> decide

theorem announces_between (connectors : List Connector) :
    (finder connectors).Announces [.word "BETWEEN".toList] between :=
  Finder.ofKeywords_announces (isPlain_entries connectors) ⟨_, _, rfl, rfl, rfl⟩
    fun _ _ => rfl

theorem announces_connector {connectors : List Connector} {connector : Connector}
    (hmem : connector ∈ connectors) :
    (finder connectors).Announces [.word connector.keyword.toList] (.connector connector) := by
  refine Finder.ofKeywords_announces (isPlain_entries connectors)
    ⟨_, _, rfl, rfl, rfl⟩ fun rest _ => ?_
  have hskip : Finder.behindAny? (entries connectors)
      (.word connector.keyword.toList :: rest) =
        Finder.behindAny? (connectors.map fun other => (other.phrase, ChainMark.connector other))
          (.word connector.keyword.toList :: rest) := by
    cases connector <;> rfl
  have hfirst : ∀ other : Connector,
      other.phrase.behind? (.word connector.keyword.toList :: rest) =
        if other = connector then some rest else none := by
    intro other
    cases other <;> cases connector <;> rfl
  rw [List.singleton_append, ← entries, hskip]
  clear hskip
  induction connectors with
  | nil => simp at hmem
  | cons other connectors ih =>
      rw [Finder.behindAny?, List.map_cons, List.findSome?_cons]
      simp only [hfirst other]
      by_cases hother : other = connector
      · rw [if_pos hother, hother]
        rfl
      · rw [if_neg hother]
        exact ih ((List.mem_cons.mp hmem).resolve_left (Ne.symm hother))

end ChainMark

/-- A condition as a chain sees it: what stands before `BETWEEN`, and the two bounds
behind it. -/
structure ChainLink where
  front : List Lexeme
  bounds : Option (List Lexeme × List Lexeme) := none

namespace ChainLink

open Lexeme

/-- The marks inside a condition. -/
def row (link : ChainLink) : List (Marked ChainMark) :=
  match link.bounds with
  | none => []
  | some (low, high) =>
    [⟨[mark ' '], .between, [word "BETWEEN".toList], mark ' ' :: low⟩,
      ⟨[mark ' '], .connector .and, [word "AND".toList], mark ' ' :: high⟩]

def lexemes (link : ChainLink) : List Lexeme := link.front ++ Marked.lexemesOf [] link.row

/-- The parts of a condition between its marks. -/
def pieces (link : ChainLink) : List (List Lexeme) :=
  link.front ::
    match link.bounds with
    | none => []
    | some (low, high) => [low, high]

/-- The parts of a condition are solid, and no mark of a chain stands in them. -/
def IsProper (link : ChainLink) : Prop :=
  ∀ piece ∈ link.pieces, Solid piece ∧ Quiet ChainMark.stops piece

theorem IsProper.solid {link : ChainLink} (hproper : link.IsProper) : Solid link.lexemes := by
  obtain ⟨front, bounds⟩ := link
  cases bounds with
  | none =>
      have hfront := (hproper front (by simp [pieces])).1
      simpa [lexemes, row, Marked.lexemesOf] using hfront
  | some bounds =>
      obtain ⟨low, high⟩ := bounds
      have hfront := (hproper front (by simp [pieces])).1
      have hlow := (hproper low (by simp [pieces])).1
      have hhigh := (hproper high (by simp [pieces])).1
      have hbetween : Solid [.word "BETWEEN".toList] := solid_keyword (by simp) rfl
      have hand : Solid [.word "AND".toList] :=
        solid_keyword (by simp) rfl
      have hsolid := hfront.glue_space
        (hbetween.glue_space (hlow.glue_space (hand.glue_space hhigh)))
      simpa [lexemes, row, Marked.lexemesOf, Marked.lexemes] using hsolid

/-- A row of marked conditions: the connector of each stands behind a gap. -/
def chainRow (gap : Text) (others : List (Connector × ChainLink)) : List (Marked ChainMark) :=
  others.flatMap fun other =>
    ⟨marks gap, .connector other.1, [word other.1.keyword.toList], mark ' ' :: other.2.front⟩ ::
      other.2.row

/-- Conditions with connectors between them. -/
def chain (gap : Text) (first : ChainLink) (others : List (Connector × ChainLink)) :
    List Lexeme :=
  first.lexemes ++ others.flatMap fun other =>
    marks gap ++ (word other.1.keyword.toList :: mark ' ' :: other.2.lexemes)

theorem textOf_chain (gap : Text) (first : ChainLink) (others : List (Connector × ChainLink)) :
    textOf (chain gap first others) =
      textOf first.lexemes ++ others.flatMap fun other =>
        gap ++ (other.1.keyword.toList ++ ' ' :: textOf other.2.lexemes) := by
  rw [chain, textOf_append]
  congr 1
  induction others with
  | nil => rfl
  | cons other others ih =>
      rw [List.flatMap_cons, List.flatMap_cons, textOf_append, ih]
      simp [text]

theorem chain_eq (gap : Text) (trail : List Lexeme) (first : ChainLink)
    (others : List (Connector × ChainLink)) :
    chain gap first others ++ trail =
      first.front ++ Marked.lexemesOf trail (first.row ++ chainRow gap others) := by
  simp [chain, lexemes, Marked.lexemesOf, chainRow, List.flatMap_assoc, Marked.lexemes]

/-- The marks of a chain are found, and nothing else in it. -/
theorem isCutBy_row {connectors : List Connector} {link : ChainLink}
    (hand : .and ∈ connectors) (hproper : link.IsProper) :
    ∀ marked ∈ link.row, marked.IsCutBy (ChainMark.finder connectors) ChainMark.stops := by
  obtain ⟨front, bounds⟩ := link
  cases bounds with
  | none => simp [row]
  | some bounds =>
      obtain ⟨low, high⟩ := bounds
      have hlow := hproper low (by simp [pieces])
      have hhigh := hproper high (by simp [pieces])
      have hspace : Quiet ChainMark.stops [mark ' '] :=
        quiet_cons.mpr ⟨by decide, quiet_nil _⟩
      intro marked hmem
      simp only [row, List.mem_cons, List.not_mem_nil, or_false] at hmem
      rcases hmem with rfl | rfl
      · constructor
        · exact ChainMark.announces_between connectors
        · rfl
        · exact hspace
        · exact quiet_append.mpr ⟨hspace, hlow.2⟩
        · rfl
        · rw [nestingOf_cons, hlow.1.nestingOf_eq]
          rfl
      · constructor
        · exact ChainMark.announces_connector hand
        · rfl
        · exact hspace
        · exact quiet_append.mpr ⟨hspace, hhigh.2⟩
        · rfl
        · rw [nestingOf_cons, hhigh.1.nestingOf_eq]
          rfl

theorem isCutBy_chainRow {connectors : List Connector} {gap : Text}
    {others : List (Connector × ChainLink)} (hand : .and ∈ connectors)
    (hgap : ∀ c ∈ gap, isLayoutBlank c = true)
    (hothers : ∀ other ∈ others, other.1 ∈ connectors ∧ other.2.IsProper) :
    ∀ marked ∈ chainRow gap others,
      marked.IsCutBy (ChainMark.finder connectors) ChainMark.stops := by
  intro marked hmem
  simp only [chainRow, List.mem_flatMap, List.mem_cons] at hmem
  obtain ⟨other, hother, rfl | hmem⟩ := hmem
  · obtain ⟨hconnector, hproper⟩ := hothers other hother
    have hfront := hproper other.2.front (by simp [pieces])
    constructor
    · exact ChainMark.announces_connector hconnector
    · rfl
    · exact quiet_marks hgap (by decide) (by decide)
    · exact quiet_cons.mpr ⟨by decide, hfront.2⟩
    · exact nestingOf_marks hgap
    · rw [nestingOf_cons, hfront.1.nestingOf_eq]
      rfl
  · exact isCutBy_row hand (hothers other hother).2 marked hmem

/-! ### Closing the parts -/

/-- The parts of a chain, without offsets. -/
def closeTexts (pending : Bool) (connector : Option Connector) (part : Text) :
    List (Cut ChainMark) → List (Option Connector × Text)
  | [] => [(connector, Text.trim part)]
  | cut :: rest =>
    match cut.label with
    | .between => closeTexts true connector (part ++ cut.mark ++ cut.body) rest
    | .connector next =>
      if next = .and ∧ pending = true then
        closeTexts false connector (part ++ cut.mark ++ cut.body) rest
      else
        (connector, Text.trim part) :: closeTexts false (some next) cut.body rest

theorem map_closeChain (pending : Bool) (connector : Option Connector) (part : Fragment)
    (segments : List (Segment ChainMark)) :
    (Fragment.closeChain pending connector part segments).map
        (fun closed => (closed.connector, closed.expression.text)) =
      closeTexts pending connector part.text (segments.map Segment.cut) := by
  induction segments generalizing pending connector part with
  | nil => rfl
  | cons segment rest ih =>
      rw [Fragment.closeChain, List.map_cons, closeTexts]
      simp only [Segment.cut]
      cases segment.label with
      | between => exact ih _ _ _
      | connector next =>
          simp only
          split
          · exact ih _ _ _
          · rw [List.map_cons, ih]
            rfl

/-- A chain is closed into its conditions: the `AND` between two bounds belongs to
its condition. -/
theorem closeTexts_chain {gap trail : Text} (connector : Option Connector) (link : ChainLink)
    (pad : Text) (others : List (Connector × ChainLink))
    (hpad : ∀ c ∈ pad, isLayoutBlank c = true) (hgap : ∀ c ∈ gap, isLayoutBlank c = true)
    (htrail : ∀ c ∈ trail, isLayoutBlank c = true) (hlink : link.IsProper)
    (hothers : ∀ other ∈ others, other.2.IsProper) :
    closeTexts false connector
        (pad ++ textOf (link.front ++
          Marked.leadOf (marks trail) (link.row ++ chainRow gap others)))
        (Marked.cuts (marks trail) (link.row ++ chainRow gap others)) =
      (connector, textOf link.lexemes) ::
        others.map fun other => (some other.1, textOf other.2.lexemes) := by
  induction others generalizing connector link pad with
  | nil =>
      have htrim := hlink.solid.trim_eq hpad htrail
      obtain ⟨front, bounds⟩ := link
      cases bounds with
      | none =>
          simpa [row, lexemes, Marked.lexemesOf, chainRow, Marked.leadOf, Marked.cuts,
            closeTexts] using htrim
      | some bounds =>
          simpa [row, lexemes, Marked.lexemesOf, chainRow, Marked.leadOf, Marked.cuts,
            closeTexts, Marked.lexemes] using htrim
  | cons other others ih =>
      have htrim := hlink.solid.trim_eq hpad hgap
      have hrest := ih (some other.1) other.2 [' '] (by simp [isLayoutBlank]) (hothers other (by simp))
        fun next hmem => hothers next (List.mem_cons_of_mem other hmem)
      have hrow : chainRow gap (other :: others) =
          ⟨marks gap, .connector other.1, [word other.1.keyword.toList],
            mark ' ' :: other.2.front⟩ :: (other.2.row ++ chainRow gap others) := by
        simp [chainRow]
      rw [List.map_cons, ← hrest, hrow]
      obtain ⟨front, bounds⟩ := link
      cases bounds with
      | none =>
          simpa [row, lexemes, Marked.lexemesOf, Marked.leadOf, Marked.cuts,
            closeTexts, text] using htrim
      | some bounds =>
          simpa [row, lexemes, Marked.lexemesOf, Marked.leadOf, Marked.cuts,
            closeTexts, Marked.lexemes, text] using htrim

/-- A chain of solid conditions is solid. -/
theorem solid_chain {gap : Text} {first : ChainLink} {others : List (Connector × ChainLink)}
    (hgap : ∀ c ∈ gap, isLayoutBlank c = true) (hne : gap ≠ []) (hfirst : first.IsProper)
    (hothers : ∀ other ∈ others, other.2.IsProper) : Solid (chain gap first others) := by
  induction others generalizing first with
  | nil => simpa [chain] using hfirst.solid
  | cons other others ih =>
      have hrest := ih (hothers other (by simp))
        fun next hmem => hothers next (List.mem_cons_of_mem other hmem)
      have hword : Solid [word other.1.keyword.toList] := by
        cases other.1
        · exact solid_keyword (by simp [Connector.keyword]) rfl
        · exact solid_keyword (by simp [Connector.keyword]) rfl
      have hsolid := hfirst.solid.glue (hword.glue_space hrest) hne
        fun c hc => (isSpacer_of_isLayoutBlank (hgap c hc)).1
      simpa [chain, marks] using hsolid

end ChainLink

namespace Fragment

open Lexeme

/-- A chain of conditions is read as its conditions, each with its connector. -/
theorem parts_splitChain {connectors : List Connector} {pad gap trail : Text}
    {first : ChainLink} {others : List (Connector × ChainLink)} (hand : .and ∈ connectors)
    (hpad : ∀ c ∈ pad, isLayoutBlank c = true) (hgap : ∀ c ∈ gap, isLayoutBlank c = true)
    (hne : gap ≠ []) (htrail : ∀ c ∈ trail, isLayoutBlank c = true) (hfirst : first.IsProper)
    (hothers : ∀ other ∈ others, other.1 ∈ connectors ∧ other.2.IsProper) (start : Nat) :
    ((mk (pad ++ (textOf (ChainLink.chain gap first others) ++ trail)) start).splitChain
        connectors).map (fun part => (part.connector, part.expression.text)) =
      (none, textOf first.lexemes) ::
        others.map fun other => (some other.1, textOf other.2.lexemes) := by
  have hproper := fun other hmem => (hothers other hmem).2
  have hlexed := ((ChainLink.solid_chain hgap hne hfirst hproper).clean_padded hpad htrail).lexed
  have hfront := hfirst first.front (by simp [ChainLink.pieces])
  have hclosed : nestingOf (marks pad ++ first.front) = 0 := by
    rw [nestingOf_append, nestingOf_marks hpad, hfront.1.nestingOf_eq, add_zero]
  have hrow : ∀ marked ∈ first.row ++ ChainLink.chainRow gap others,
      marked.IsCutBy (ChainMark.finder connectors) ChainMark.stops := by
    intro marked hmem
    rcases List.mem_append.mp hmem with hmem | hmem
    · exact ChainLink.isCutBy_row hand hfirst marked hmem
    · exact ChainLink.isCutBy_chainRow hand hgap hothers marked hmem
  have htext : pad ++ (textOf (ChainLink.chain gap first others) ++ trail) =
      textOf (marks pad ++ (ChainLink.chain gap first others ++ marks trail)) := by
    simp
  rw [htext]
  rw [ChainLink.chain_eq, ← List.append_assoc] at hlexed ⊢
  obtain ⟨hhead, htail⟩ := segment_row (ChainMark.finder_stopsAt connectors) hlexed
    (quiet_append.mpr ⟨quiet_marks hpad (by decide) (by decide), hfront.2⟩) hclosed hrow
    (quiet_marks htrail (by decide) (by decide)) start
  have hclose := ChainLink.closeTexts_chain none first pad others hpad hgap htrail hfirst hproper
  rw [splitChain, ChainLink.map_closeChain, htail, hhead, ← hclose]
  simp

end Fragment

/-! ## Groups -/

namespace Cell

theorem isCodeChar_of_mem_cells {lexeme : Lexeme} {fresh : Bool} {cell : Cell} {c : Char}
    (hproper : lexeme.IsProper) (hword : Text.isWordChar c = false)
    (hmark : ∀ d, lexeme ≠ .mark d) (hmem : cell ∈ lexeme.cells fresh) :
    cell.isCodeChar c = false := by
  have hkind := Lexeme.kind_of_mem_cells hmem
  cases lexeme with
  | word text =>
      have hcell := Lexeme.isWordCode_of_mem_cells_word hproper hmem
      have hne : cell.char ≠ c := by
        intro heq
        rw [isWordCode, heq, hword, Bool.and_false] at hcell
        simp at hcell
      simp [isCodeChar, hne]
  | mark d => exact absurd rfl (hmark d)
  | literal _ _ | lineComment _ | blockComment _ =>
      simp [isCodeChar, isCode, hkind, Lexeme.kind]

end Cell

namespace Fragment

open Lexeme

variable {fragment inner : Fragment}

theorem closesAtEnd_cons (depth : Nat) (cell : Cell) (rest : List Cell) :
    closesAtEnd depth (cell :: rest) =
      if cell.isCodeChar '(' then closesAtEnd (depth + 1) rest
      else if cell.isCodeChar ')' then
        match depth with
        | 0 => rest.isEmpty
        | depth + 1 => closesAtEnd depth rest
      else closesAtEnd depth rest :=
  closesAtEnd.eq_def depth (cell :: rest)

theorem exists_of_closesAtEnd {depth : Nat} {cells : List Cell}
    (hcloses : closesAtEnd depth cells = true) :
    ∃ front cell, cells = front ++ [cell] ∧ cell.isCodeChar ')' = true := by
  induction cells generalizing depth with
  | nil => simp [closesAtEnd] at hcloses
  | cons cell cells ih =>
      have hgo : ∀ depth, closesAtEnd depth cells = true →
          ∃ front last, cell :: cells = front ++ [last] ∧ last.isCodeChar ')' = true := by
        intro depth hrest
        obtain ⟨front, last, rfl, hlast⟩ := ih hrest
        exact ⟨cell :: front, last, rfl, hlast⟩
      rw [closesAtEnd_cons] at hcloses
      split at hcloses
      · exact hgo _ hcloses
      · split at hcloses
        · rename_i hclose
          split at hcloses
          · obtain rfl := List.isEmpty_iff.mp hcloses
            exact ⟨[], cell, rfl, hclose⟩
          · exact hgo _ hcloses
        · exact hgo _ hcloses

/-- The inside of a group is what its cells say between the first and the last. -/
theorem exists_of_inside? (hinside : fragment.inside? = some inner) :
    ∃ opening rest, fragment.trim.text.cells = opening :: rest ∧
      opening.isCodeChar '(' = true ∧ closesAtEnd 0 rest = true ∧
      inner = ⟨(Cell.text rest).dropLast, fragment.trim.start + opening.char.utf8Size⟩ := by
  rw [inside?] at hinside
  cases hcells : fragment.trim.text.cells with
  | nil =>
      rw [hcells] at hinside
      contradiction
  | cons opening rest =>
      rw [hcells] at hinside
      simp only [Option.ite_none_right_eq_some, Option.some.injEq, Bool.and_eq_true] at hinside
      obtain ⟨⟨hopen, hcloses⟩, rfl⟩ := hinside
      exact ⟨opening, rest, rfl, hopen, hcloses, rfl⟩

/-- A fragment that is one group is its inside in parentheses, up to blanks. -/
theorem trim_of_inside? (hinside : fragment.inside? = some inner) :
    Text.trim fragment.text = '(' :: (inner.text ++ [')']) := by
  have htext : Cell.text fragment.trim.text.cells = Text.trim fragment.text := Mode.text_cells _ _
  obtain ⟨opening, rest, hcells, hopen, hcloses, rfl⟩ := exists_of_inside? hinside
  obtain ⟨front, last, rfl, hlast⟩ := exists_of_closesAtEnd hcloses
  simp only [Cell.isCodeChar, Bool.and_eq_true, beq_iff_eq] at hopen hlast
  rw [← htext, hcells]
  simp [Cell.text, hopen.2, hlast.2]

/-- The inside of a group begins behind its parenthesis. -/
theorem start_of_inside? (hinside : fragment.inside? = some inner) :
    inner.start = fragment.trim.start + 1 := by
  obtain ⟨opening, rest, -, hopen, -, rfl⟩ := exists_of_inside? hinside
  simp only [Cell.isCodeChar, Bool.and_eq_true, beq_iff_eq] at hopen
  rw [hopen.2]
  rfl

/-- Characters that are no parentheses of code. -/
theorem closesAtEnd_append {depth : Nat} {front rest : List Cell}
    (hopen : ∀ cell ∈ front, cell.isCodeChar '(' = false)
    (hclose : ∀ cell ∈ front, cell.isCodeChar ')' = false) :
    closesAtEnd depth (front ++ rest) = closesAtEnd depth rest := by
  induction front with
  | nil => rfl
  | cons cell front ih =>
      rw [List.cons_append, closesAtEnd_cons, hopen cell (by simp), hclose cell (by simp)]
      exact ih (fun other hmem => hopen other (List.mem_cons_of_mem cell hmem))
        fun other hmem => hclose other (List.mem_cons_of_mem cell hmem)

/-- One mark changes the depth by the groups that it opens or closes. -/
theorem closesAtEnd_mark {depth behind : Nat} {c : Char} {fresh : Bool} {rest : List Cell}
    (hopened : openedBy depth (mark c) = some behind) :
    closesAtEnd depth (⟨c, .code, fresh⟩ :: rest) = closesAtEnd behind rest := by
  rw [closesAtEnd_cons]
  simp only [openedBy] at hopened
  simp only [Cell.isCodeChar, Cell.isCode, beq_self_eq_true, Bool.true_and, beq_iff_eq]
  split_ifs at hopened ⊢
  · rw [Option.some.injEq] at hopened
    rw [hopened]
  · cases depth with
    | zero => contradiction
    | succ depth =>
        rw [Option.some.injEq] at hopened
        rw [← hopened]
        rfl
  · rw [Option.some.injEq] at hopened
    rw [hopened]

/-- Balanced pieces leave the depth as it is. -/
theorem closesAtEnd_balance {depth behind : Nat} {next : Option Char} {fresh : Bool}
    {lexemes : List Lexeme} {rest : List Cell} (hlexed : Lexed next lexemes)
    (hbalance : balance depth lexemes = some behind) :
    closesAtEnd depth (cellsOf fresh lexemes ++ rest) = closesAtEnd behind rest := by
  induction lexemes generalizing depth fresh with
  | nil =>
      rw [balance, Option.some.injEq] at hbalance
      rw [hbalance]
      rfl
  | cons lexeme lexemes ih =>
      rw [balance, Option.bind_eq_some_iff] at hbalance
      obtain ⟨inner, hopened, hrest⟩ := hbalance
      have htail := fun fresh => @ih inner fresh hlexed.2.2 hrest
      cases lexeme with
      | mark c => rw [cellsOf_mark, List.cons_append, closesAtEnd_mark hopened, htail]
      | word _ | literal _ _ | lineComment _ | blockComment _ =>
          simp only [openedBy, Option.some.injEq] at hopened
          rw [cellsOf_cons, List.append_assoc, hopened, closesAtEnd_append, htail]
          · exact fun cell => Cell.isCodeChar_of_mem_cells hlexed.1 (by decide) (by simp)
          · exact fun cell => Cell.isCodeChar_of_mem_cells hlexed.1 (by decide) (by simp)

/-- The inside of a written group. -/
theorem inside?_group {inner : List Lexeme} {pad trail : Text} (hinner : Solid inner)
    (hpad : ∀ c ∈ pad, isLayoutBlank c = true) (htrail : ∀ c ∈ trail, isLayoutBlank c = true)
    (start : Nat) :
    (mk (pad ++ textOf (mark '(' :: (inner ++ [mark ')'])) ++ trail) start).inside? =
      some ⟨textOf inner, start + Text.size pad + 1⟩ := by
  have hgroup := hinner.group
  have htrim := trim_padded (fun c hc => (isSpacer_of_isLayoutBlank (hpad c hc)).2.1)
    (fun c hc => (isSpacer_of_isLayoutBlank (htrail c hc)).2.1) hgroup.tight start
  have hcells : (textOf (mark '(' :: (inner ++ [mark ')']))).cells =
      ⟨'(', .code, true⟩ :: (cellsOf false inner ++
        cellsOf (freshBehind false inner) [mark ')']) := by
    rw [hgroup.clean.lexed.cells_textOf, cellsOf_mark, cellsOf_append]
  have hcloses : closesAtEnd 0 (cellsOf false inner ++
      cellsOf (freshBehind false inner) [mark ')']) = true := by
    rw [closesAtEnd_balance hinner.clean.lexed hinner.balanced]
    simp [closesAtEnd_cons, Cell.isCodeChar, Cell.isCode]
  have htext : Cell.text (cellsOf false inner ++
      cellsOf (freshBehind false inner) [mark ')']) = textOf inner ++ [')'] := by
    rw [← cellsOf_append, text_cellsOf, textOf_append]
    rfl
  rw [inside?, htrim]
  simp only [hcells, hcloses, htext, Bool.and_true]
  rw [List.dropLast_concat]
  rfl

/-- A text that begins with another piece is no group. -/
theorem inside?_of_head {lexeme : Lexeme} {rest : List Lexeme} (hsolid : Solid (lexeme :: rest))
    (hhead : lexeme ≠ mark '(') (start : Nat) :
    (mk (textOf (lexeme :: rest)) start).inside? = none := by
  have hlexed := hsolid.clean.lexed
  obtain ⟨c, text, htext, hcells⟩ := hlexed.1.exists_cells_eq_cons true
  have hfirst : Cell.isCodeChar '(' ⟨c, lexeme.kind, true || !lexeme.isCode⟩ = false := by
    by_cases hmark : ∀ d, lexeme ≠ mark d
    · have hmem : ⟨c, lexeme.kind, true || !lexeme.isCode⟩ ∈ lexeme.cells true := by
        rw [hcells]
        exact List.mem_cons_self
      exact Cell.isCodeChar_of_mem_cells hlexed.1 (by decide) hmark hmem
    · push Not at hmark
      obtain ⟨d, rfl⟩ := hmark
      obtain ⟨rfl, -⟩ : d = c ∧ [] = text := by simpa [Lexeme.text] using htext
      have hne : d ≠ '(' := by
        rintro rfl
        exact hhead rfl
      simp [Cell.isCodeChar, hne]
  rw [inside?, trim_of_tight hsolid.tight, hlexed.cells_textOf, cellsOf_cons, hcells]
  simp only [List.cons_append, hfirst, Bool.false_and]
  rfl

end Fragment

end SelectForm

import Mathlib
import SelectForm.Statement.Table
import SelectForm.Proofs.Sql.StatementParts
import SelectForm.Proofs.Statement.CursorPlace
import SelectForm.Proofs.Statement.ReadItem

/-!
# Reading written joins

FROM is read by a cursor that stops before the first join keyword and goes on behind
it.  A join is split at `ON`, and what is behind `ON` is a chain without `OR`.  The
table in front of `ON` and the comparisons behind it are read back one by one.
-/

namespace SelectForm

open Lexeme

/-! ## Comparisons -/

namespace Text

/-- A qualified name is taken off the front of a text. -/
theorem takeQualified?_written {table column : String} {rest : Text}
    (htable : isName table.toList = true) (hcolumn : isName column.toList = true)
    (hrest : ∀ c ∈ rest.head?, isNameTail c = false) :
    takeQualified? (table.toList ++ '.' :: (column.toList ++ rest)) =
      some ((some table.toList, column.toList), rest) := by
  have htakeTable := @takeRun?_append _ _ table.toList ('.' :: (column.toList ++ rest))
    htable fun c hc => by
      obtain rfl : '.' = c := by simpa using hc
      decide
  have htakeColumn := takeRun?_append hcolumn hrest
  rw [takeQualified?, takeName?, htakeTable]
  simp only [takeName?, htakeColumn, Option.map_some]

/-- The symbol of a comparison is taken off the front of a text, with a blank behind
it. -/
theorem takeComparison?_spelled {operator : Operator} (bang : Bool) (rest : Text)
    (hcomparison : operator.isComparison = true) :
    takeComparison? (textOf (operator.spelledLexemes bang) ++ ' ' :: rest) =
      some (operator, ' ' :: rest) := by
  cases bang <;> cases operator <;> first | rfl | exact absurd hcomparison (by decide)

theorem trimStart_space {first : Text} (rest : Text) (hfirst : Tight first) :
    trimStart (' ' :: (first ++ rest)) = first ++ rest := by
  have hspace : ∀ c ∈ [' '], isBlank c = true := by simp [isBlank]
  have hhead : ∃ c ∈ (first ++ rest).head?, isBlank c = false := by
    rw [List.head?_append_of_ne_nil _ hfirst.ne_nil]
    exact hfirst.head
  have hstart := trimStart_append hspace (first ++ rest)
  rwa [trimStart_eq_self hhead] at hstart

end Text

namespace JoinCondition

variable {condition : JoinCondition}

theorem textOf_comparisonLexemes (condition : JoinCondition) (bang : Bool) :
    textOf (condition.comparisonLexemes bang) =
      condition.leftTable.toList ++ '.' :: (condition.leftColumn.toList ++ ' ' ::
        (textOf (condition.operator.spelledLexemes bang) ++ ' ' ::
          (condition.rightTable.toList ++ '.' :: (condition.rightColumn.toList ++ [])))) := by
  simp [comparisonLexemes, textOf_ofName, Operand.qualified, Lexeme.text]

theorem comparison?_spelled (hwritten : condition.IsWritten) (bang : Bool) :
    Text.comparison? (textOf (condition.comparisonLexemes bang)) =
      some ((some condition.leftTable.toList, condition.leftColumn.toList), condition.operator,
        (some condition.rightTable.toList, condition.rightColumn.toList)) := by
  have hoperator := (condition.operator.solid_spelledLexemes bang).tight
  have htable := Text.tight_of_isName hwritten.rightTable
  have hleft := @Text.takeQualified?_written condition.leftTable condition.leftColumn
    (' ' :: (textOf (condition.operator.spelledLexemes bang) ++ ' ' ::
      (condition.rightTable.toList ++ '.' :: (condition.rightColumn.toList ++ []))))
    hwritten.leftTable hwritten.leftColumn fun c hc => by
      obtain rfl : ' ' = c := by simpa using hc
      decide
  have hright := @Text.takeQualified?_written condition.rightTable condition.rightColumn []
    hwritten.rightTable hwritten.rightColumn (by simp)
  rw [textOf_comparisonLexemes, Text.comparison?, hleft]
  simp only [bind, Option.bind, Text.trimStart_space _ hoperator,
    Text.takeComparison?_spelled bang _ hwritten.operator, Text.trimStart_space _ htable, hright]

/-- No parentheses are left around a comparison. -/
theorem openWithin_comparison (hwritten : condition.IsWritten) (bang : Bool)
    (bound start : Nat) :
    (Fragment.mk (textOf (condition.comparisonLexemes bang)) start).openWithin bound =
      ⟨textOf (condition.comparisonLexemes bang), start⟩ := by
  have hsolid := solid_comparisonLexemes hwritten bang
  have htrim := Fragment.trim_of_tight hsolid.tight start
  have hinside : (Fragment.mk (textOf (condition.comparisonLexemes bang)) start).inside? =
      none := by
    rw [comparisonLexemes, ofName, if_neg (ne_star_of_isName hwritten.leftColumn)] at hsolid ⊢
    exact Fragment.inside?_of_head hsolid (by simp) start
  cases bound with
  | zero => rw [Fragment.openWithin, htrim]
  | succ bound => rw [Fragment.openWithin, hinside, htrim]

theorem le_length_enclosed (count : Nat) (inner : List Lexeme) :
    count ≤ (textOf (enclosed count inner)).length := by
  induction count with
  | zero => exact Nat.zero_le _
  | succ count ih =>
      simp only [enclosed, textOf_cons, textOf_append, List.length_append, Lexeme.text,
        List.length_singleton]
      omega

theorem openWithin_enclosed (hwritten : condition.IsWritten) (bang : Bool)
    {count bound : Nat} (hbound : count ≤ bound) (start : Nat) :
    ∃ place, (Fragment.mk (textOf (enclosed count (condition.comparisonLexemes bang)))
      start).openWithin bound = ⟨textOf (condition.comparisonLexemes bang), place⟩ := by
  induction count generalizing bound start with
  | zero => exact ⟨start, openWithin_comparison hwritten bang bound start⟩
  | succ count ih =>
      obtain ⟨bound, rfl⟩ : ∃ others, bound = others + 1 := ⟨bound - 1, by omega⟩
      have hinner := solid_enclosed count (solid_comparisonLexemes hwritten bang)
      have hinside := @Fragment.inside?_group _ [] [] hinner (List.forall_mem_nil _)
        (List.forall_mem_nil _) start
      rw [List.nil_append, List.append_nil] at hinside
      rw [enclosed, Fragment.openWithin, hinside]
      exact ih (by omega) _

/-- A comparison is read back in its spellings. -/
theorem read_spelled (hwritten : condition.IsWritten) (spelling : Spelling) (start : Nat) :
    read ⟨textOf (condition.spelledLexemes spelling), start⟩ = .ok condition := by
  obtain ⟨place, hopen⟩ := openWithin_enclosed hwritten spelling.bang
    (le_length_enclosed spelling.parentheses (condition.comparisonLexemes spelling.bang)) start
  rw [read, Fragment.openAll, spelledLexemes, hopen]
  simp [comparison?_spelled hwritten]

/-- A link is read as a comparison. -/
def LinkReads (link : ChainLink) (condition : JoinCondition) : Prop :=
  link.IsProper ∧ ReadAs read link.lexemes condition

/-- The comparisons of a join are read back from their links. -/
theorem linkReads_spelled {conditions : List JoinCondition} {spellings : Nat → Spelling}
    (hwritten : ∀ condition ∈ conditions, condition.IsWritten) :
    List.Forall₂ LinkReads (conditions.mapIdx fun place condition =>
      condition.spelledLink (spellings place)) conditions := by
  have hlinks := @forall₂_mapIdx _ _ _ LinkReads conditions
    (fun place condition => condition.spelledLink (spellings place)) id
    fun condition hmem place => by
      have hcondition := hwritten condition hmem
      refine ⟨isProper_spelledLink hcondition, ?_⟩
      rw [lexemes_spelledLink]
      exact ⟨solid_spelledLexemes hcondition, read_spelled hcondition _⟩
  rwa [List.map_id] at hlinks

/-- A chain that falls into some comparisons is read as those comparisons. -/
theorem readChain_of_texts {fragment : Fragment} {links : List ChainLink}
    {conditions : List JoinCondition} (hreads : List.Forall₂ LinkReads links conditions)
    (hnone : fragment.splitFirst? (.ofKeyword .or_) = none)
    (htexts : (fragment.splitChain [.and]).map (fun part => part.expression.text) =
      links.map fun link => textOf link.lexemes) :
    readChain fragment = .ok conditions := by
  rw [readChain, hnone]
  refine mapM_of_keys htexts (List.forall₂_map_left_iff.mpr (hreads.imp ?_))
  rintro link condition ⟨-, hsolid, hread⟩ ⟨connector, text, place⟩ rfl
  have hempty : (textOf link.lexemes).isEmpty = false :=
    List.isEmpty_eq_false_iff.mpr hsolid.tight.ne_nil
  simp only [hempty, Bool.false_eq_true, if_false]
  exact hread place

/-- The comparisons behind `ON`. -/
def chainLexemes (first : ChainLink) (others : List ChainLink) : List Lexeme :=
  ChainLink.chain [' '] first (others.map fun link => (Connector.and, link))

/-- The comparisons behind `ON` are read back. -/
theorem readChain_of_linkReads {first : ChainLink} {others : List ChainLink}
    {conditions : List JoinCondition} {trail : Text}
    (hreads : List.Forall₂ LinkReads (first :: others) conditions)
    (htrail : ∀ c ∈ trail, isLayoutBlank c = true)
    (hlexed : Lexed none (mark ' ' :: (chainLexemes first others ++ marks trail)))
    (hquiet : Quiet [Keyword.or_.firstLabel]
      (mark ' ' :: (chainLexemes first others ++ marks trail)))
    (start : Nat) :
    readChain ⟨textOf (mark ' ' :: (chainLexemes first others ++ marks trail)), start⟩ =
      .ok conditions := by
  have hspace : ∀ c ∈ [' '], isLayoutBlank c = true := by simp [isLayoutBlank]
  have hproper := ((List.forall₂_and_left _ _).mp hreads).1
  have hothers : ∀ other ∈ others.map (fun link => (Connector.and, link)),
      other.1 ∈ [Connector.and] ∧ other.2.IsProper :=
    List.forall_mem_map.mpr fun link hmem =>
      ⟨List.mem_cons_self, hproper link (List.mem_cons_of_mem first hmem)⟩
  have hparts := @Fragment.parts_splitChain [.and] [' '] [' '] trail first _
    List.mem_cons_self hspace hspace (by simp) htrail (hproper first List.mem_cons_self) hothers
    start
  have htext : textOf (mark ' ' :: (chainLexemes first others ++ marks trail)) =
      [' '] ++ (textOf (chainLexemes first others) ++ trail) := by
    simp [Lexeme.text]
  refine readChain_of_texts hreads
    (Fragment.splitFirst?_of_quiet (Finder.ofKeyword_stopsAt rfl) hlexed hquiet start) ?_
  rw [← chainLexemes, ← htext] at hparts
  have htexts := congrArg (List.map Prod.snd) hparts
  simpa [Function.comp_def] using htexts

end JoinCondition

/-! ## Joins -/

namespace Join

open JoinCondition in
/-- A join is read back in its spellings, whatever blanks stand behind it. -/
theorem readBody_spelled {join : Join} {spelling : Spelling} {trail : Text}
    (hwritten : join.IsWritten) (htrail : ∀ c ∈ trail, isLayoutBlank c = true) (start : Nat) :
    readBody join.kind ⟨textOf (join.spelledBody spelling ++ marks trail), start⟩ =
      .ok join := by
  have hspace : ∀ c ∈ [' '], isLayoutBlank c = true := by simp [isLayoutBlank]
  have hclean := @Solid.clean_padded _ [] trail (@solid_spelledBody join spelling hwritten)
    (List.forall_mem_nil _) htrail
  rw [marks, List.map_nil, List.nil_append, List.append_assoc] at hclean
  have hlexed := (Lexed.append_iff.mp hclean.lexed).2
  have hquiet : ∀ label ∈ ["USING".toList, "OR".toList],
      Quiet [label] (join.spelledBody spelling ++ marks trail) := by
    intro label hlabel
    simp only [List.mem_cons, List.not_mem_nil, or_false] at hlabel
    rcases hlabel with rfl | rfl <;>
      exact quiet_append.mpr ⟨quiet_spelledBody hwritten (by decide) (by decide),
        quiet_marks htrail (by decide) (by decide)⟩
  have husing := Fragment.splitFirst?_of_quiet
    (Finder.ofKeyword_stopsAt (rfl : Keyword.using_.isPlain = true)) hlexed
    (hquiet "USING".toList (by simp)) start
  have hor := hquiet "OR".toList (by simp)
  have htable := TableItem.solid_spelledLexemes hwritten.table spelling.asWord
  have hreads := @linkReads_spelled join.conditions spelling.conditions hwritten.conditions
  rw [← spelledLinks] at hreads
  cases hlinks : join.spelledLinks spelling with
  | nil => exact absurd hlinks (spelledLinks_ne_nil hwritten)
  | cons first others =>
      rw [hlinks] at hreads
      have hbody : join.spelledBody spelling ++ marks trail =
          (mark ' ' :: (join.table.spelledLexemes spelling.asWord ++ [mark ' '])) ++
            ([word "ON".toList] ++ mark ' ' :: (chainLexemes first others ++ marks trail)) := by
        simp [spelledBody, onLexemes, hlinks, chainLexemes]
      have hannounces : (Finder.ofKeyword .on).Announces [word "ON".toList] () :=
        Finder.ofKeywords_announces (by simp [Keyword.isPlain, Keyword.on, Keyword.ofWords])
          ⟨_, _, rfl, rfl, rfl⟩ fun _ _ => rfl
      have hfront : Quiet [Keyword.on.firstLabel]
          (mark ' ' :: (join.table.spelledLexemes spelling.asWord ++ [mark ' '])) := by
        have hname := (TableItem.quiet_spelledLexemes hwritten.table spelling.asWord).mono
          (by decide : [Keyword.on.firstLabel] ⊆ stops)
        exact quiet_cons.mpr ⟨by decide, quiet_append.mpr ⟨hname,
          quiet_cons.mpr ⟨by decide, quiet_nil _⟩⟩⟩
      have hclosed : nestingOf
          (mark ' ' :: (join.table.spelledLexemes spelling.asWord ++ [mark ' '])) = 0 := by
        rw [nestingOf_cons, nestingOf_append, htable.nestingOf_eq]
        rfl
      rw [hbody] at hlexed husing hor ⊢
      obtain ⟨split, hsplit, -, hbefore, -, hafter⟩ := Fragment.splitFirst?_of_mark
        (Finder.ofKeyword_stopsAt rfl) hannounces hlexed hfront hclosed rfl start
      have htrim := htable.trim_eq hspace hspace
      have htableRead := @TableItem.read_spelled .join join.table spelling.asWord
        split.before.text hwritten.table (by simpa [hbefore, Lexeme.text] using htrim)
        split.before.start
      have hchain := readChain_of_linkReads hreads htrail
        (Lexed.append_iff.mp (Lexed.append_iff.mp hlexed).2).2
        (quiet_append.mp (quiet_append.mp hor).2).2 split.after.start
      rw [← hafter] at hchain
      rw [readBody, husing, hsplit]
      simp [htableRead, hchain, bind, Except.bind]

end Join

/-! ## FROM -/

namespace JoinMark

/-- The first words of the keywords of joins. -/
def stops : List Text :=
  ["LEFT", "RIGHT", "FULL", "INNER", "CROSS", "NATURAL", "JOIN"].map String.toList

/-- The entries of the finder. -/
def entries : List (Keyword × JoinMark) :=
  [(.leftOuterJoin, .join .left), (.leftJoin, .join .left),
    (.rightOuterJoin, .join .right), (.rightJoin, .join .right),
    (.fullOuterJoin, .join .fullOuter), (.fullJoin, .join .fullOuter),
    (.innerJoin, .join .inner), (.crossJoin, .cross), (.natural, .natural),
    (.join, .join .inner)]

theorem isPlain_entries : ∀ entry ∈ entries, entry.1.isPlain = true := by
  decide

theorem finder_stopsAt : finder.StopsAt stops :=
  (Finder.ofKeywords_stopsAt isPlain_entries).mono (by decide)

theorem finder_announces (long : Bool) (kind : JoinKind) :
    finder.Announces (kind.spelledLexemes long) (.join kind) := by
  refine Finder.ofKeywords_announces isPlain_entries ?_ fun rest _ => ?_
  · cases long <;> cases kind <;> exact ⟨_, _, rfl, rfl, rfl⟩
  · cases long <;> cases kind <;> rfl

end JoinMark

namespace Join

/-- What is marked as a join is read as a join: its keyword is found, nothing in it is taken
for another one, and it is read whatever blanks stand behind it. -/
structure MarkedReads (marked : Marked JoinMark) (join : Join) : Prop where
  isSolid : marked.IsSolid
  keyword : Solid marked.mark
  isCutBy : marked.IsCutBy JoinMark.finder JoinMark.stops
  reads : ∀ keyword trail start, (∀ c ∈ trail, isLayoutBlank c = true) →
    readSegment ⟨marked.label, keyword, ⟨textOf (marked.body ++ marks trail), start⟩⟩ = .ok join

/-- A join is read back in its spellings. -/
theorem markedReads_spelled {join : Join} {separator : Text} {spelling : Spelling}
    (hwritten : join.IsWritten) (hne : separator ≠ [])
    (hseparator : ∀ c ∈ separator, isLayoutBlank c = true) :
    MarkedReads (join.spelledMarked separator spelling) join := by
  have hsolid := @solid_spelledBody join spelling hwritten
  have hclosed := hsolid.nestingOf_eq
  rw [nestingOf_append, (join.kind.solid_spelledLexemes spelling.long).nestingOf_eq,
    zero_add] at hclosed
  refine ⟨⟨hsolid, separator, hne, hseparator, rfl⟩, join.kind.solid_spelledLexemes _,
    ⟨JoinMark.finder_announces spelling.long join.kind, rfl,
      quiet_marks hseparator (by decide) (by decide),
      quiet_spelledBody hwritten (by decide) (by decide), nestingOf_marks hseparator, hclosed⟩,
    fun keyword trail start htrail => ?_⟩
  rw [readSegment]
  exact readBody_spelled hwritten htrail start

theorem isCutBy_of_markedReads {row : List (Marked JoinMark)} {joins : List Join}
    (hreads : List.Forall₂ MarkedReads row joins) :
    ∀ marked ∈ row, marked.IsCutBy JoinMark.finder JoinMark.stops :=
  ((List.forall₂_and_left _ _).mp (hreads.imp fun _ _ hmarked => ⟨hmarked.isCutBy, hmarked⟩)).1

/-- What stands in front of the first join, or behind the tables. -/
theorem exists_leadOf {row : List (Marked JoinMark)} {joins : List Join} {trail : Text}
    (hreads : List.Forall₂ MarkedReads row joins)
    (htrail : ∀ c ∈ trail, isLayoutBlank c = true) :
    ∃ lead : Text, (∀ c ∈ lead, isLayoutBlank c = true) ∧
      Marked.leadOf (marks trail) row = marks lead := by
  cases hreads with
  | nil => exact ⟨trail, htrail, rfl⟩
  | cons hfirst _ =>
      obtain ⟨lead, -, hlead, heq⟩ := hfirst.isSolid.lead
      exact ⟨lead, hlead, heq⟩

/-- Segments that hold joins are read as those joins. -/
theorem mapM_readSegment {row : List (Marked JoinMark)} {joins : List Join} {trail : Text}
    {segments : List (Segment JoinMark)} (hreads : List.Forall₂ MarkedReads row joins)
    (htrail : ∀ c ∈ trail, isLayoutBlank c = true)
    (hcuts : segments.map Segment.cut = Marked.cuts (marks trail) row) :
    segments.mapM readSegment = .ok joins := by
  induction hreads generalizing segments with
  | nil =>
      rw [Marked.cuts, List.map_eq_nil_iff] at hcuts
      rw [hcuts]
      rfl
  | @cons marked join row joins hfirst hothers ih =>
      cases segments with
      | nil => simp [Marked.cuts] at hcuts
      | cons segment segments =>
          obtain ⟨lead, hlead, hleadOf⟩ := exists_leadOf hothers htrail
          rw [List.map_cons, Marked.cuts, hleadOf, List.cons.injEq] at hcuts
          have hrest := ih hcuts.2
          obtain ⟨label, keyword, ⟨text, start⟩⟩ := segment
          simp only [Segment.cut, Cut.mk.injEq] at hcuts
          obtain ⟨⟨rfl, -, rfl⟩, -⟩ := hcuts
          rw [List.mapM_cons, hfirst.reads keyword lead start hlead, hrest]
          rfl

/-- The joins from the keyword of the first one on. -/
def behindLead (trail : Text) : List (Marked JoinMark) → List Lexeme
  | [] => []
  | marked :: row => marked.mark ++ (marked.body ++ Marked.lexemesOf (marks trail) row)

theorem lexemesOf_eq (row : List (Marked JoinMark)) (trail : Text) :
    Marked.lexemesOf (marks trail) row =
      Marked.leadOf (marks trail) row ++ behindLead trail row := by
  cases row with
  | nil => exact (List.append_nil _).symm
  | cons marked row => simp [Marked.lexemesOf, Marked.lexemes, Marked.leadOf, behindLead]

end Join

namespace Cursor

variable {cursor : Cursor} {front head : List Lexeme} {separator trail : Text}

/-- The joins behind a cursor are cut off from what is in front of them. -/
theorem IsBetween.joins_eq {row : List (Marked JoinMark)}
    (hbetween : cursor.IsBetween front (head ++ Marked.lexemesOf (marks trail) row))
    (hquiet : Quiet JoinMark.stops head) (hclosed : nestingOf head = 0)
    (hrow : ∀ entry ∈ row, entry.IsCutBy JoinMark.finder JoinMark.stops)
    (htrail : ∀ c ∈ trail, isLayoutBlank c = true) :
    cursor.joins.head.text = textOf (head ++ Marked.leadOf (marks trail) row) ∧
      cursor.joins.tail.map Segment.cut = Marked.cuts (marks trail) row ∧
        cursor.beforeJoins = cursor.joins.head.text := by
  have hcuts := Marked.cutCells_row (freshBehind true front) JoinMark.finder_stopsAt
    (Lexed.append_iff.mp hbetween.lexed).2 (hbetween.lexed.startsBehind (startsBehind_none _))
    hquiet hclosed hrow (quiet_marks htrail (by decide) (by decide))
  refine ⟨?_, ?_, ?_⟩
  · rw [Cursor.joins, Segmentation.head_text_ofCells, hbetween.stands.ahead_eq, hcuts]
  · rw [Cursor.joins, Segmentation.map_cut_tail_ofCells, hbetween.stands.ahead_eq, hcuts]
  · rw [beforeJoins, hbetween.stands.ahead_eq]
    rfl

end Cursor

namespace TableItem

/-- The tables of FROM are read back, and the cursor then stands before the first
join. -/
theorem readList_of_texts {cursor : Cursor} {items : List (List Lexeme)}
    {tables : List TableItem} {row : List (Marked JoinMark)} {joins : List Join}
    {gap trail : Text} (hne : items ≠ [])
    (hitems : ∀ item ∈ items, Solid item ∧ Quiet Lexeme.stops item)
    (hreads : List.Forall₂ (ReadAs (read .from_)) items tables)
    (hjoins : List.Forall₂ Join.MarkedReads row joins)
    (hgap : ∀ c ∈ gap, isLayoutBlank c = true) (hgapNe : gap ≠ [])
    (htrail : ∀ c ∈ trail, isLayoutBlank c = true)
    (hbetween : cursor.IsBetween [] (marks gap ++ (spread gap items ++
      Marked.lexemesOf (marks trail) row))) :
    ∃ front behind, readList cursor = (.ok tables, behind) ∧
      behind.IsBetween front (Join.behindLead trail row) := by
  have hlist := solid_spread hgap hne fun item hmem => (hitems item hmem).1
  have hstart := hbetween.skipBlanks hgap (by
    rw [textOf_append]
    exact hlist.tight.isAsciiBlank_head _)
  have hrow := Join.isCutBy_of_markedReads hjoins
  obtain ⟨htext, -, hbefore⟩ := hstart.joins_eq
    (quiet_spread (by decide) (quiet_marks hgap (by decide) (by decide))
      fun item hmem => (hitems item hmem).2.mono (by decide)) hlist.nestingOf_eq hrow htrail
  obtain ⟨lead, hlead, hleadOf⟩ := Join.exists_leadOf hjoins htrail
  rw [Join.lexemesOf_eq, ← List.append_assoc, hleadOf] at hstart
  rw [hleadOf, textOf_append, textOf_marks] at htext
  rw [htext] at hbefore
  have hcut : cursor.skipBlanks.ahead.cut = 0 := by rw [hstart.stands.ahead_eq]
  have htexts := @Fragment.texts_splitList [] gap lead items
    (List.forall_mem_nil _) hgap hgapNe hlead hne
    (fun item hmem => (hitems item hmem).imp_right fun hquiet => hquiet.mono (by decide))
    (cursor.skipBlanks.absolute cursor.skipBlanks.position)
  rw [List.nil_append] at htexts
  have hread := @mapM_of_texts _ ParseError (read .from_)
    (fun _ => .error ((Fragment.mk (textOf (spread gap items) ++ lead)
      (cursor.skipBlanks.absolute cursor.skipBlanks.position)).error .missingTable
        (some .from_))) _ items tables htexts hreads
  have hjump := hstart.jump
  rw [textOf_append, textOf_marks] at hjump
  refine ⟨_, { cursor.skipBlanks.jump (Text.size
      (textOf (spread gap items) ++ lead)) with clause := some .join }, ?_,
    ⟨hjump.text, hjump.position, hjump.lexed⟩⟩
  rw [readList]
  simp only [hbefore, hread, hcut, htext, Nat.zero_add]

end TableItem

namespace Join

/-- A join is cut off at its keyword with nothing in front of it, too. -/
theorem MarkedReads.withoutLead {marked : Marked JoinMark} {join : Join}
    (hreads : MarkedReads marked join) :
    { marked with lead := [] }.IsCutBy JoinMark.finder JoinMark.stops :=
  ⟨hreads.isCutBy.announces, hreads.isCutBy.gap, quiet_nil _, hreads.isCutBy.quietBody, rfl,
    hreads.isCutBy.closedBody⟩

/-- The joins behind a cursor are read back. -/
theorem readList_of_markedReads {cursor : Cursor} {front : List Lexeme}
    {row : List (Marked JoinMark)} {joins : List Join} {trail : Text}
    (hreads : List.Forall₂ MarkedReads row joins)
    (htrail : ∀ c ∈ trail, isLayoutBlank c = true)
    (hbetween : cursor.IsBetween front (behindLead trail row)) :
    (readList cursor).1 = .ok joins := by
  cases hreads with
  | nil =>
      have hstart := hbetween.skipBlanks_self (by simp [behindLead])
      have hjoins : cursor.skipBlanks.joins.tail = [] := by
        rw [Cursor.joins, hstart.stands.ahead_eq]
        rfl
      rw [readList, hjoins]
      rfl
  | @cons marked join row joins hfirst hothers =>
      have hstart := hbetween.skipBlanks_self (by
        rw [behindLead, textOf_append]
        exact hfirst.keyword.tight.isAsciiBlank_head _)
      have hrow := isCutBy_of_markedReads hothers
      have hwhole : behindLead trail (marked :: row) =
          [] ++ Marked.lexemesOf (marks trail) ({ marked with lead := [] } :: row) := by
        simp [behindLead, Marked.lexemesOf, Marked.lexemes]
      rw [hwhole] at hstart
      obtain ⟨htext, hcuts, hbefore⟩ := @Cursor.IsBetween.joins_eq _ _ [] trail _ hstart
        (quiet_nil _) rfl (List.forall_mem_cons.mpr ⟨hfirst.withoutLead, hrow⟩) htrail
      have hempty : cursor.skipBlanks.beforeJoins = [] := hbefore.trans htext
      have hread := mapM_readSegment (.cons hfirst hothers) htrail hcuts
      rw [readList, hempty, hread]
      simp

end Join

end SelectForm

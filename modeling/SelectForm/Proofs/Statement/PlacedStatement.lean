import Mathlib
import SelectForm.Proofs.Lexis.MaskedText
import SelectForm.Proofs.Statement.PlacedPaging

/-!
# Where the errors of a statement point

Comments are masked byte for byte, so a place in the masked text is a place in the statement
itself.  The checks of the whole statement and the readers of its clauses all point into the
text that they were given.
-/

namespace SelectForm

variable {whole : Text}

/-! ## Cells -/

namespace Fragment

theorem liesIn_cells (text : Text) : (mk (Cell.text text.cells) 0).LiesIn text := by
  rw [Text.cells, Mode.text_cells]
  exact liesIn_whole text

/-- The first of some cells, and what is behind it. -/
theorem LiesIn.cons {cell : Cell} {rest : List Cell} {start : Nat}
    (hlies : (mk (Cell.text (cell :: rest)) start).LiesIn whole) :
    (mk [cell.char] start).LiesIn whole ∧
      (mk (Cell.text rest) (start + cell.char.utf8Size)).LiesIn whole := by
  have hcons : Cell.text (cell :: rest) = [cell.char] ++ (Cell.text rest ++ []) := by
    rw [List.append_nil]
    rfl
  rw [hcons] at hlies
  exact ⟨hlies.part_front, hlies.part⟩

theorem LiesIn.occurrences {fragment : Fragment} (hlies : fragment.LiesIn whole)
    (keyword : Keyword) : ∀ place ∈ fragment.occurrences keyword, place.LiesIn whole := by
  have hgo : ∀ (cells : List Cell) (skip : Nat) (before : Option Char) (start : Nat),
      (mk (Cell.text cells) start).LiesIn whole →
        ∀ place ∈ occurrences.go keyword skip before start cells, place.LiesIn whole := by
    intro cells
    induction cells with
    | nil => exact fun _ _ _ _ => List.forall_mem_nil _
    | cons cell rest ih =>
        intro skip before start hcells
        have hrest := hcells.cons.2
        cases skip with
        | succ count => exact ih count _ _ hrest
        | zero =>
            rw [occurrences.go]
            split
            · rename_i count hcount
              refine List.forall_mem_cons.mpr ⟨?_, ih count _ _ hrest⟩
              exact hcells.of_isPrefix ((List.take_prefix _ _).map _)
            · exact ih 0 _ _ hrest
  exact hgo _ 0 none _ (by rw [Text.cells, Mode.text_cells]; exact hlies)

end Fragment

/-- Spans lie where they begin, the first of them at the first cell. -/
theorem Span.liesIn_ofCells (endsOpen : Bool) {start : Nat} {cells : List Cell}
    (hlies : (Fragment.mk (Cell.text cells) start).LiesIn whole) :
    (∀ span ∈ (ofCells endsOpen start cells).head?, span.start = start ∧
        span.text <+: Cell.text cells) ∧
      ∀ span ∈ ofCells endsOpen start cells, (Fragment.mk span.text span.start).LiesIn whole := by
  induction cells generalizing start with
  | nil => exact ⟨by simp [ofCells], List.forall_mem_nil _⟩
  | cons cell rest ih =>
      obtain ⟨hcell, hrest⟩ := hlies.cons
      have hone : [cell.char] <+: Cell.text (cell :: rest) := ⟨Cell.text rest, rfl⟩
      cases rest with
      | nil => 
          refine ⟨?_, List.forall_mem_singleton.mpr hcell⟩
          rintro _ ⟨⟩
          exact ⟨rfl, hone⟩
      | cons next rest =>
          obtain ⟨first, spans, hspans, hcases⟩ := ofCells_cases endsOpen start cell next rest
          obtain ⟨hhead, hall⟩ := ih hrest
          rw [hspans] at hhead hall
          obtain ⟨hfirst, hprefix⟩ := hhead first rfl
          rw [List.forall_mem_cons] at hall
          rcases hcases with hcases | hcases
          · rw [hcases]
            refine ⟨?_, List.forall_mem_cons.mpr ⟨hcell, List.forall_mem_cons.mpr hall⟩⟩
            rintro _ ⟨⟩
            exact ⟨rfl, hone⟩
          · have hjoined : cell.char :: first.text <+: Cell.text (cell :: next :: rest) :=
              List.cons_prefix_cons.mpr ⟨rfl, hprefix⟩
            rw [hcases]
            refine ⟨?_, List.forall_mem_cons.mpr ⟨hlies.of_isPrefix hjoined, hall.2⟩⟩
            rintro _ ⟨⟩
            exact ⟨rfl, hjoined⟩

/-! ## Tables and joins -/

section Cursors

variable {cursor : Cursor}

theorem Cursor.WalksIn.joins (hwalks : cursor.WalksIn whole) :
    cursor.beforeJoins = cursor.joins.head.text ∧ cursor.joins.head.LiesIn whole ∧
      cursor.joins.head.start = cursor.absolute cursor.position ∧
      cursor.joins.head.text <+: Cell.text cursor.ahead.cells ∧
      ∀ segment ∈ cursor.joins.tail, segment.mark.LiesIn whole ∧ segment.body.LiesIn whole := by
  have hcut := hwalks.exists_ahead.1
  have hlies := hwalks.rest
  have htext := text_cutCells JoinMark.finder 0 0 cursor.ahead.before cursor.ahead.cells
  rw [List.drop_zero] at htext
  have hjoins : cursor.joins = .ofCells JoinMark.finder cursor.ahead.before cursor.ahead.cells
      (cursor.absolute cursor.position) := by rw [Cursor.joins, hcut, Nat.add_zero]
  obtain ⟨hhead, htile⟩ :=
    @Segmentation.liesIn_ofCells _ whole _ _ JoinMark.finder cursor.ahead.before hlies
  rw [hjoins]
  refine ⟨?_, hhead, rfl, ⟨_, htext⟩, htile.liesIn⟩
  rw [Cursor.beforeJoins, hcut, hjoins]
  rfl

theorem TableItem.placesErrors_readList (hwalks : cursor.WalksIn whole) :
    PlacesErrors whole (readList cursor).1 ∧
      ∀ tables, (readList cursor).1 = .ok tables → (readList cursor).2.WalksIn whole := by
  have hstart := hwalks.skipBlanks
  rw [readList]
  generalize cursor.skipBlanks = start at hstart
  obtain ⟨hbefore, hhead, hplace, hprefix, -⟩ := hstart.joins
  have hlist : (Fragment.mk start.beforeJoins (start.absolute start.position)).LiesIn whole := by
    rw [hbefore, ← hplace]
    exact hhead
  have herrors : PlacesErrors whole
      ((Fragment.mk start.beforeJoins (start.absolute start.position)).splitList.mapM fun item =>
        if item.text.isEmpty then
          .error ((Fragment.mk start.beforeJoins (start.absolute start.position)).error
            .missingTable (some .from_))
        else
          read .from_ item) := by
    refine .mapM fun item hmem => ?_
    split
    · exact .error (hlist.error rfl)
    · exact placesErrors_read (hlist.splitList item hmem)
  dsimp only
  split
  · have hmoved := (hstart.jump hprefix).1
    rw [hstart.exists_ahead.1, Nat.zero_add]
    exact ⟨.ok _, fun _ _ => ⟨hmoved.lies, hmoved.boundary⟩⟩
  · rename_i error htables
    exact ⟨.error (herrors error htables), fun tables hok => absurd hok (by simp)⟩

theorem Join.placesErrors_readList (hwalks : cursor.WalksIn whole) :
    PlacesErrors whole (readList cursor).1 := by
  have hstart := hwalks.skipBlanks
  rw [readList]
  generalize cursor.skipBlanks = start at hstart
  obtain ⟨hbefore, hhead, hplace, -, hsegments⟩ := hstart.joins
  have hlist : (Fragment.mk (Text.trimEnd start.beforeJoins)
      (start.absolute start.position)).LiesIn whole := by
    rw [hbefore, ← hplace]
    exact hhead.of_isPrefix (Text.trimEnd_isPrefix _)
  split
  · exact .error (hlist.error rfl)
  · have herrors : PlacesErrors whole (start.joins.tail.mapM readSegment) :=
      .mapM fun segment hmem =>
        placesErrors_readSegment (hsegments segment hmem).1 (hsegments segment hmem).2
    split
    · exact .ok _
    · rename_i error hjoins
      exact .error (herrors error hjoins)

end Cursors

/-! ## Clauses -/

namespace LocatedClause

variable {segment : Segment (String × Clause)}

/-- The body of a clause ends where its segment ends. -/
theorem liesIn_ofSegment (hmark : segment.mark.LiesIn whole) (hbody : segment.body.LiesIn whole)
    (hstart : segment.body.start = segment.mark.stop) :
    (ofSegment segment).body.LiesIn whole ∧ (ofSegment segment).body.stop = segment.body.stop := by
  rw [ofSegment]
  dsimp only
  split
  · refine ⟨hmark.append hbody hstart, ?_⟩
    rw [Fragment.stop_append, ← hstart, Fragment.stop]
  · exact ⟨hbody, rfl⟩

/-- The clauses that are collected, and the last of them ends where the next keyword stands. -/
theorem placesErrors_collect {seen : List String} {before : List LocatedClause} {start : Nat}
    {segments : List (Segment (String × Clause))} (htile : Segment.Tile whole start segments)
    (hbefore : ∀ located ∈ before, located.body.LiesIn whole)
    (hlast : ∀ last ∈ before.head?, last.body.stop = start) :
    PlacesErrors whole (collect seen before segments) ∧
      ∀ clauses, collect seen before segments = .ok clauses →
        ∀ located ∈ clauses, located.body.LiesIn whole := by
  induction segments generalizing seen before start with
  | nil =>
      refine ⟨.ok _, fun clauses hok located hmem => ?_⟩
      obtain rfl := Except.ok.inj hok
      exact hbefore located (List.mem_reverse.mp hmem)
  | cons segment rest ih =>
      obtain ⟨hmark, hmarkStart, hbody, hbodyStart, hrest⟩ := htile
      obtain ⟨hlies, hstop⟩ := liesIn_ofSegment hmark hbody hbodyStart
      have hfail : ∀ cause : ParseError.Cause, cause.placement = .exact →
          PlacesErrors whole (.error (segment.mark.error cause (some segment.label.2)) :
              Except ParseError (List LocatedClause)) ∧
            ∀ clauses, (.error (segment.mark.error cause (some segment.label.2)) :
              Except ParseError (List LocatedClause)) = .ok clauses →
                ∀ located ∈ clauses, located.body.LiesIn whole :=
        fun cause hexact => ⟨.error (hmark.error hexact), fun _ hok => absurd hok (by simp)⟩
      rw [collect]
      dsimp only
      split
      · exact hfail _ rfl
      · split
        · rename_i last earlier
          rw [List.forall_mem_cons] at hbefore
          split
          · rename_i hpaging
            have hmerged : (last.body.append (ofSegment segment).body).LiesIn whole := by
              refine hbefore.1.append hlies ?_
              rw [hlast last rfl, ofSegment, if_pos hpaging.1, Fragment.start_append, hmarkStart]
            refine ih hrest (List.forall_mem_cons.mpr ⟨hmerged, hbefore.2⟩) ?_
            rintro _ ⟨⟩
            rw [Fragment.stop_append, hlast last rfl, ← hstop, Fragment.stop, ofSegment,
              if_pos hpaging.1, Fragment.start_append, hmarkStart]
          · split
            · exact hfail _ rfl
            · split
              · exact hfail _ rfl
              · refine ih hrest (List.forall_mem_cons.mpr
                  ⟨hlies, List.forall_mem_cons.mpr hbefore⟩) ?_
                rintro _ ⟨⟩
                exact hstop
        · split
          · exact hfail _ rfl
          · refine ih hrest (List.forall_mem_cons.mpr ⟨hlies, hbefore⟩) ?_
            rintro _ ⟨⟩
            exact hstop

theorem placesErrors_locate (text : Text) :
    PlacesErrors text (locate text) ∧
      ∀ clauses, locate text = .ok clauses → ∀ located ∈ clauses, located.body.LiesIn text := by
  have hstatement := (Fragment.liesIn_whole text).skipAsciiBlanks
  rw [locate]
  dsimp only
  split
  · refine ⟨.error (Fragment.LiesIn.error ?_ rfl), fun _ hok => absurd hok (by simp)⟩
    exact hstatement.of_isPrefix (List.takeWhile_prefix _)
  · obtain ⟨hcollect, hclauses⟩ := @placesErrors_collect text [] [] _ _
      (hstatement.segment finder).2 (List.forall_mem_nil _) (by simp)
    constructor
    · refine hcollect.bind fun clauses _ => ?_
      split
      · exact .ok _
      · refine .error (Fragment.LiesIn.error ?_ rfl)
        exact (Fragment.liesIn_whole text).of_isPrefix (Text.trimEnd_isPrefix text)
    · intro clauses hok
      obtain ⟨found, hfound, hok⟩ := bind_eq_ok.mp hok
      split at hok
      · obtain rfl := Except.ok.inj hok
        exact hclauses _ hfound
      · exact absurd hok (by simp)

end LocatedClause

namespace Statement

/-! ## Checks of the whole statement -/

/-- An error about a literal or comment that is left open shows all of it. -/
theorem shows_of_rejectUnclosed {text : Text} {error : ParseError}
    (herror : rejectUnclosed text = .error error) :
    error.cause.placement = .unclosed ∧ error.Shows text := by
  have hspans := (Span.liesIn_ofCells text.endsOpen (Fragment.liesIn_cells text)).2
  rw [rejectUnclosed] at herror
  split at herror
  · exact absurd herror (by simp)
  · rename_i span hfind
    have hspan := hspans span (List.mem_of_find?_eq_some hfind)
    obtain rfl := Except.error.inj herror
    refine ⟨?_, hspan.shows rfl⟩
    dsimp only [Fragment.error]
    split <;> rfl

theorem placesErrors_single (text : Text) : PlacesErrors text (single text) := by
  rw [single]
  split
  · exact .ok _
  · exact .error (((Fragment.liesIn_whole text).drop _).trim.error rfl)

theorem prefix_of_single {text statement : Text} (hsingle : single text = .ok statement) :
    statement <+: text := by
  rw [single] at hsingle
  split at hsingle
  · obtain rfl := Except.ok.inj hsingle
    exact List.take_prefix _ _
  · exact absurd hsingle (by simp)

/-- A parenthesis without a partner is one of the statement. -/
theorem liesIn_of_unbalanced? {opened : List Nat} {offset place : Nat} {c : Char}
    {cells : List Cell}
    (hlies : (Fragment.mk (Cell.text cells) offset).LiesIn whole)
    (hopened : ∀ place ∈ opened, (Fragment.mk ['('] place).LiesIn whole)
    (hfound : unbalanced? opened offset cells = some (c, place)) :
    (Fragment.mk [c] place).LiesIn whole := by
  induction cells generalizing opened offset with
  | nil =>
      rw [unbalanced?, Option.map_eq_some_iff] at hfound
      obtain ⟨first, hfirst, hpair⟩ := hfound
      obtain ⟨rfl, rfl⟩ := Prod.mk.inj hpair
      exact hopened first (List.mem_of_head? hfirst)
  | cons cell rest ih =>
      obtain ⟨hcell, hrest⟩ := hlies.cons
      unfold unbalanced? at hfound
      dsimp only at hfound
      split at hfound
      · rename_i hopen
        obtain ⟨-, hchar⟩ := Bool.and_eq_true_iff.mp hopen
        rw [beq_iff_eq.mp hchar] at hcell
        exact ih hrest (List.forall_mem_cons.mpr ⟨hcell, hopened⟩) hfound
      · split at hfound
        · rename_i hclose
          obtain ⟨-, hchar⟩ := Bool.and_eq_true_iff.mp hclose
          cases opened with
          | nil =>
              obtain ⟨rfl, rfl⟩ := Prod.mk.inj (Option.some.inj hfound)
              rwa [beq_iff_eq.mp hchar] at hcell
          | cons first opened => exact ih hrest (List.forall_mem_cons.mp hopened).2 hfound
        · exact ih hrest hopened hfound

theorem liesIn_of_questionMark? {offset place : Nat} {cells : List Cell}
    (hlies : (Fragment.mk (Cell.text cells) offset).LiesIn whole)
    (hfound : questionMark? offset cells = some place) :
    (Fragment.mk ['?'] place).LiesIn whole := by
  induction cells generalizing offset with
  | nil => exact absurd hfound (by simp [questionMark?])
  | cons cell rest ih =>
      obtain ⟨hcell, hrest⟩ := hlies.cons
      rw [questionMark?] at hfound
      split at hfound
      · rename_i hmark
        obtain ⟨-, hchar⟩ := Bool.and_eq_true_iff.mp hmark
        obtain rfl := Option.some.inj hfound
        rwa [beq_iff_eq.mp hchar] at hcell
      · exact ih hrest hfound

theorem placesErrors_rejectUnbalanced (text : Text) :
    PlacesErrors text (rejectUnbalanced text) := by
  rw [rejectUnbalanced]
  split
  · exact .ok ()
  · rename_i c offset hfound
    exact .error (Fragment.LiesIn.error
      (liesIn_of_unbalanced? (Fragment.liesIn_cells text) (List.forall_mem_nil _) hfound) rfl)

theorem placedIn_of_unsupported? {text : Text} {error : ParseError}
    (hfound : unsupported? text = some error) : error.PlacedIn text := by
  have hstart := (Fragment.liesIn_whole text).skipAsciiBlanks
  have hheads : ∀ entry ∈ rejectedHeads, entry.1.form = .phrase [entry.1.name.toList] ∧
      entry.1.name.toList.map Char.toUpper = entry.1.name.toList ∧
        entry.2.placement = .exact := by decide
  have hwords : ∀ entry ∈ rejectedWords, entry.2.1.placement = .exact := by decide
  rw [unsupported?] at hfound
  simp only [Option.or_eq_some_iff] at hfound
  rcases hfound with hhead | ⟨-, hword | ⟨-, hmark⟩⟩
  · obtain ⟨entry, hmem, hentry⟩ := List.exists_of_findSome?_eq_some hhead
    obtain ⟨count, hcount, rfl⟩ := Option.map_eq_some_iff.mp hentry
    obtain ⟨hform, hcapitals, hexact⟩ := hheads entry hmem
    have hupper := Keyword.toUpper_of_length? hform hcount
    rw [Cell.text, List.map_take, ← Cell.text, Text.cells, Mode.text_cells] at hupper
    exact (hstart.take count).error_same hexact (hcapitals.trans hupper.symm)
  · obtain ⟨entry, hmem, hentry⟩ := List.exists_of_findSome?_eq_some hword
    obtain ⟨place, hplace, rfl⟩ := Option.map_eq_some_iff.mp hentry
    have hlies := (Fragment.liesIn_whole text).occurrences entry.1 place
      (List.mem_of_getElem? hplace)
    exact hlies.error (hwords entry hmem)
  · obtain ⟨offset, hoffset, rfl⟩ := Option.map_eq_some_iff.mp hmark
    exact (liesIn_of_questionMark? (Fragment.liesIn_cells text) hoffset).error rfl

theorem placesErrors_rejectUnsupported (text : Text) :
    PlacesErrors text (rejectUnsupported text) := by
  rw [rejectUnsupported]
  split
  · rename_i error hfound
    exact .error (placedIn_of_unsupported? hfound)
  · exact .ok ()

theorem placesErrors_readClause {query : Query} {located : LocatedClause}
    (hlies : located.body.LiesIn whole) : PlacesErrors whole (readClause query located) := by
  have hwalks : ∀ clause : Option Clause,
      Cursor.WalksIn whole { text := located.body.text, offset := located.body.start, clause } :=
    fun _ => ⟨hlies, [], located.body.text, rfl, rfl⟩
  rw [readClause]
  cases located.clause with
  | select => exact (SelectItem.placesErrors_readList hlies).map _
  | from_ => 
      obtain ⟨htables, hmoved⟩ := TableItem.placesErrors_readList (hwalks (some .from_))
      refine htables.bind fun tables hok => ?_
      exact (Join.placesErrors_readList (hmoved tables hok)).map _
  | join => exact .ok _
  | where_ => exact (Condition.placesErrors_readChain hlies).map _
  | groupBy => exact (GroupItem.placesErrors_readList hlies).map _
  | having => exact (Condition.placesErrors_readChain hlies).map _
  | orderBy => exact (OrderItem.placesErrors_readList hlies).map _
  | paging => exact (Paging.placesErrors_readWithin _ _ (hwalks (some .paging))).map _

end Statement

/-! ## Whole statements -/

namespace Text

/-- The bytes of a text between two offsets, with ASCII letters in upper case. -/
def upperBytes (text : Text) (first last : Nat) : List UInt8 :=
  (((bytes text).drop first).take (last - first)).map upperByte

end Text

namespace ParseError

/-- The text to which the offsets of an error belong. -/
def scannedText (text : Text) (error : ParseError) : Text :=
  if error.cause.placement = .unclosed then text else text.maskComments

/-- The bytes between the offsets of an error are those of its text. -/
theorem Shows.upperBytes_eq {whole : Text} {error : ParseError} (hshows : error.Shows whole) :
    error.start ≤ error.stop ∧ error.stop ≤ Text.size whole ∧
      whole.upperBytes error.start error.stop =
        error.text.upperBytes 0 (error.stop - error.start) := by
  obtain ⟨before, shown, behind, front, rest, rfl, htext, hsame, hstart, hstop⟩ := hshows
  have hlength : ∀ text : Text, Text.size text = (Text.bytes text).length :=
    fun text => (Text.length_bytes text).symm
  have hcount : error.stop - error.start = Text.size shown := by omega
  refine ⟨by omega, ?_, ?_⟩
  · rw [hstop, Text.size_append, Text.size_append]
    omega
  · have hshown : Text.upperBytes (before ++ (shown ++ behind)) error.start error.stop =
        (Text.bytes shown).map Text.upperByte := by
      rw [Text.upperBytes, hcount, hstart, Text.bytes_append, Text.bytes_append, hlength before,
        List.drop_left, hlength shown, List.take_left]
    have hfront : error.text.upperBytes 0 (error.stop - error.start) =
        (Text.bytes front).map Text.upperByte := by
      rw [Text.upperBytes, Nat.sub_zero, hcount, ← Text.size_congr hsame, htext,
        Text.bytes_append, List.drop_zero, hlength front, List.take_left]
    rw [hshown, hfront, Text.map_upperByte_congr hsame]

end ParseError

namespace Query

/-- The errors that are found behind the masking of comments point into the masked text. -/
theorem placed_of_ofText {text : Text} {error : ParseError} (herror : ofText text = .error error) :
    (error.cause.placement = .unclosed ∧ error.Shows text) ∨ error.PlacedIn text.maskComments := by
  rw [ofText] at herror
  cases hclosed : Statement.rejectUnclosed text with
  | error found =>
      rw [hclosed] at herror
      obtain rfl := Except.error.inj herror
      exact .inl (Statement.shows_of_rejectUnclosed hclosed)
  | ok _ =>
      rw [hclosed] at herror
      refine .inr (PlacesErrors.bind (Statement.placesErrors_single _) ?_ error herror)
      intro statement hsingle
      obtain ⟨behind, hprefix⟩ := Statement.prefix_of_single hsingle
      rw [← hprefix]
      have hwhole : PlacesErrors statement (do
          Statement.rejectUnbalanced statement
          Statement.rejectUnsupported statement
          let clauses ← LocatedClause.locate statement
          clauses.foldlM Statement.readClause ({} : Query)) := by
        refine (Statement.placesErrors_rejectUnbalanced statement).bind fun _ _ => ?_
        refine (Statement.placesErrors_rejectUnsupported statement).bind fun _ _ => ?_
        obtain ⟨hlocate, hclauses⟩ := LocatedClause.placesErrors_locate statement
        refine hlocate.bind fun clauses hok => .foldlM (fun located hmem query => ?_) _
        exact Statement.placesErrors_readClause (hclauses clauses hok located hmem)
      exact fun error herror => (hwhole error herror).append_right behind

/-- The offsets of an error are ordered.  They lie in the statement, and the bytes between
them are those of the text of the error up to the case of letters, unless the error is one of
three kinds: then blanks stand in front of the text at its place, or it shows a comma where
an empty item ends, or it shows the blanks in front of its place. -/
theorem places_of_parse {sql : String} {error : ParseError} (herror : parse sql = .error error) :
    error.start ≤ error.stop ∧
      (error.cause.placement = .unclosed ∨ error.cause.placement = .exact →
        error.stop ≤ Text.size sql.toList ∧
          (error.scannedText sql.toList).upperBytes error.start error.stop =
            error.text.upperBytes 0 (error.stop - error.start)) ∧
      (error.cause.placement = .behindBlanks →
        error.ShowsBehindBlanks (Text.maskComments sql.toList)) ∧
      (error.cause.placement = .behindItem →
        error.ShowsComma (Text.maskComments sql.toList)) ∧
      (error.cause.placement = .behindText →
        error.ShowsBlanksBefore (Text.maskComments sql.toList)) := by
  rcases placed_of_ofText herror with ⟨hplacement, hshows⟩ | hplaced
  · obtain ⟨hle, hstop, hbytes⟩ := hshows.upperBytes_eq
    simp [hplacement, ParseError.scannedText, hle, hstop, hbytes]
  · rw [ParseError.PlacedIn] at hplaced
    cases hplacement : error.cause.placement with
    | unclosed =>
        rw [hplacement] at hplaced
        exact hplaced.elim
    | exact =>
        rw [hplacement] at hplaced
        obtain ⟨hle, hstop, hbytes⟩ := hplaced.upperBytes_eq
        rw [Text.size_maskComments] at hstop
        simp [hplacement, ParseError.scannedText, hle, hstop, hbytes]
    -- At the other places the end is behind the start by the length of what is shown.
    | behindBlanks =>
        rw [hplacement] at hplaced
        have hle : error.start ≤ error.stop := by
          obtain ⟨-, -, -, -, -, -, hstop⟩ := hplaced
          omega
        simpa [hle] using hplaced
    | behindItem =>
        rw [hplacement] at hplaced
        have hle : error.start ≤ error.stop := by
          obtain ⟨-, -, -, -, -, hstop⟩ := hplaced
          omega
        simpa [hle] using hplaced
    | behindText =>
        rw [hplacement] at hplaced
        have hle : error.start ≤ error.stop := by
          obtain ⟨-, -, -, -, -, hstop⟩ := hplaced
          omega
        simpa [hle] using hplaced

theorem places_of_parse_commented :
    let sql := "SELECT a -- note\nFROM t WHERE b = lower(c)"
    ∃ error, parse sql = .error error ∧ error.cause.placement = .exact ∧
      (error.scannedText sql.toList).upperBytes error.start error.stop =
        error.text.upperBytes 0 (error.stop - error.start) := by
  intro sql
  have hparse : parse sql =
      .error ⟨.unsupportedValue, some .where_, "lower(c)".toList, 34, 42⟩ := by decide +kernel
  exact ⟨_, hparse, rfl, ((places_of_parse hparse).2.1 (.inr rfl)).2⟩

/-- A list without parentheses is shown without the blank in front of it, and its place is
that of the blank; an empty item at the end of a list is shown as a comma behind the end. -/
theorem parse_error_beside_text :
    (∃ error, parse "SELECT * FROM t WHERE a IN x" = .error error ∧
      (error.scannedText "SELECT * FROM t WHERE a IN x".toList).upperBytes
          error.start error.stop ≠ error.text.upperBytes 0 (error.stop - error.start)) ∧
    ∃ error, parse "SELECT a FROM t GROUP BY a," = .error error ∧
      ¬ error.stop ≤ Text.size "SELECT a FROM t GROUP BY a,".toList := by
  refine ⟨⟨⟨.missingList, some .where_, ['x'], 26, 27⟩, ?_, ?_⟩,
    ⟨.emptyGroupItem, some .groupBy, [','], 27, 28⟩, ?_, ?_⟩
  all_goals decide +kernel

end Query

end SelectForm

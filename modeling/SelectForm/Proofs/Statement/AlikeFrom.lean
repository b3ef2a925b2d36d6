import Mathlib
import SelectForm.Proofs.Statement.AlikeCondition
import SelectForm.Proofs.Statement.ReadJoin

/-!
# Reading alike lists and joins

The lists of alike clauses fall into alike items, and the tables and joins of FROM are
cut at the same keywords.  If their items are read alike, so are the lists.
-/

namespace SelectForm

open Lexeme

variable {R : Lexeme → Lexeme → Prop} {stretch : Prop} {fragment fragment' : Fragment}

/-! ## Lists -/

theorem Fragment.text_skipAsciiBlanks {row : List Lexeme} (hsound : Sound row)
    (htext : fragment.text = textOf row) :
    fragment.skipAsciiBlanks.text = textOf (row.dropWhile isGap) := by
  have hgap : isGap = isMark Text.isAsciiBlank := funext isGap_eq
  have htake := @Atomic.takeWhile_textOf row Text.isAsciiBlank hsound.atomic
    fun quote => by cases quote <;> rfl
  have hsplit := congrArg textOf (@List.takeWhile_append_dropWhile _ isGap row)
  rw [textOf_append] at hsplit
  rw [Fragment.skipAsciiBlanks, drop, htext, htake, ← hgap]
  rw [← hsplit, List.drop_left]

namespace Fragment.Alike

theorem skipAsciiBlanks (hblind : Blind R) (halike : fragment.Alike R stretch fragment') :
    fragment.skipAsciiBlanks.Alike R stretch fragment'.skipAsciiBlanks := by
  obtain ⟨row, row', hsound, hsound', htext, htext', hrows⟩ := halike
  obtain ⟨-, hdrop⟩ := @Lexeme.Alike.dropWhile R stretch row row' isGap true hrows
    (fun _ _ hlexeme => (hblind _ _ hlexeme).isGap_eq) fun _ hblank => hblank
  refine alike_of_rows ?_ ?_ (text_skipAsciiBlanks hsound htext.symm)
    (text_skipAsciiBlanks hsound' htext'.symm) hdrop
  · exact hsound.part (List.dropWhile_suffix isGap).isInfix
  · exact hsound'.part (List.dropWhile_suffix isGap).isInfix

theorem drop_zero (halike : fragment.Alike R stretch fragment') :
    (fragment.drop 0).Alike R stretch (fragment'.drop 0) := halike

/-- The items of alike lists, none of which may be empty. -/
theorem readItems {α : Type} {S : α → α → Prop} {read : Fragment → Except ParseError α}
    {failed failed' : Fragment → ParseError} (hblind : Blind R)
    (hread : ∀ item item', item.Alike R stretch item' → Agree S (read item) (read item'))
    (halike : fragment.Alike R stretch fragment') :
    Agree (List.Forall₂ S)
      (fragment.splitList.mapM fun item =>
        if item.text.isEmpty then .error (failed item) else read item)
      (fragment'.splitList.mapM fun item =>
        if item.text.isEmpty then .error (failed' item) else read item) :=
  Agree.mapM (halike.splitList hblind) fun item item' hitem =>
    Agree.ite (by rw [hitem.isEmpty_eq]) fun _ => hread item item' hitem

/-! ## Parentheses -/

theorem openWithin {bound bound' : Nat} (hblind : Blind R) (hbound : fragment.text.length ≤ bound)
    (hbound' : fragment'.text.length ≤ bound') (halike : fragment.Alike R stretch fragment') :
    (fragment.openWithin bound).Alike R stretch (fragment'.openWithin bound') := by
  have hnothing : ∀ (bound : Nat) (fragment : Fragment), fragment.text = [] →
      fragment.openWithin bound = fragment.trim := by
    intro bound fragment hnil
    have htrim : fragment.trim.text = [] := by rw [Fragment.trim, hnil]; rfl
    cases bound with
    | zero => rfl
    | succ bound =>
        rw [Fragment.openWithin, Fragment.inside?, htrim]
        rfl
  induction bound generalizing bound' fragment fragment' with
  | zero =>
      have hnil : fragment.text = [] := List.length_eq_zero_iff.mp (Nat.le_zero.mp hbound)
      rw [hnothing _ _ hnil, hnothing _ _ (halike.text_eq_nil_iff.mp hnil)]
      exact halike.trim hblind
  | succ bound ih =>
      cases bound' with
      | zero =>
          have hnil : fragment'.text = [] := List.length_eq_zero_iff.mp (Nat.le_zero.mp hbound')
          rw [hnothing _ _ hnil, hnothing _ _ (halike.text_eq_nil_iff.mpr hnil)]
          exact halike.trim hblind
      | succ bound' =>
          have hinside := halike.inside? hblind
          rw [Fragment.openWithin, Fragment.openWithin]
          generalize hopen : fragment.inside? = found at hinside
          generalize hopen' : fragment'.inside? = found' at hinside
          cases hinside with
          | none => exact halike.trim hblind
          | some hinner =>
              have hshort := Fragment.length_inside? hopen
              have hshort' := Fragment.length_inside? hopen'
              exact ih (by omega) (by omega) hinner

theorem openAll (hblind : Blind R) (halike : fragment.Alike R stretch fragment') :
    fragment.openAll.Alike R stretch fragment'.openAll :=
  halike.openWithin hblind le_rfl le_rfl

end Fragment.Alike

theorem SelectItem.readList_alike {S : SelectItem → SelectItem → Prop} (hblind : Blind R)
    (hread : ∀ item item' : Fragment, item.Alike R stretch item' →
      Agree S (SelectItem.read item) (SelectItem.read item'))
    (halike : fragment.Alike R stretch fragment') :
    Agree (fun list list' => list.1 = list'.1 ∧ List.Forall₂ S list.2 list'.2)
      (SelectItem.readList fragment) (SelectItem.readList fragment') := by
  have hskip := halike.skipAsciiBlanks hblind
  have hkeyword := @Fragment.Alike.length? R stretch _ _ Keyword.distinct hblind rfl hskip
  unfold SelectItem.readList
  dsimp only
  generalize Keyword.distinct.length? none fragment.skipAsciiBlanks.text.cells = count at hkeyword
  generalize Keyword.distinct.length? none fragment'.skipAsciiBlanks.text.cells = count' at hkeyword
  cases hkeyword with
  | none =>
      exact (hskip.drop_zero.readItems hblind hread).bind fun items items' hitems =>
        .ok ⟨rfl, hitems⟩
  | some hdrop =>
      exact (hdrop.1.readItems hblind hread).bind fun items items' hitems => .ok ⟨rfl, hitems⟩

/-! ## Joins -/

/-- Tables and comparisons of columns that are read alike from alike texts. -/
structure Likeness.ReadsJoins (like : Likeness) (R : Lexeme → Lexeme → Prop) (stretch : Prop) :
    Prop where
  table : ∀ (clause : Clause) (item item' : Fragment), item.Alike R stretch item' →
    Agree like.table (TableItem.read clause item) (TableItem.read clause item')
  comparison : ∀ item item' : Fragment, item.openAll.Alike R stretch item'.openAll →
    Agree like.comparison (JoinCondition.read item) (JoinCondition.read item')

variable {like : Likeness}

theorem JoinCondition.readChain_alike (hblind : Blind R) (hreads : like.ReadsJoins R stretch)
    (halike : fragment.Alike R stretch fragment') :
    Agree (List.Forall₂ like.comparison) (JoinCondition.readChain fragment)
      (JoinCondition.readChain fragment') := by
  have hfirm : ∀ entry ∈ [(Keyword.or_, ())], entry.1.isFirm = true := by decide
  have hsplit := halike.splitFirst? hblind (Finder.ofKeywords_follows hfirm)
    (RowFinder.ofKeywords_steady hblind hfirm)
  unfold readChain
  rw [show Finder.ofKeyword Keyword.or_ = Finder.ofKeywords [(Keyword.or_, ())] from rfl]
  generalize fragment.splitFirst? (Finder.ofKeywords [(Keyword.or_, ())]) = split at hsplit
  generalize fragment'.splitFirst? (Finder.ofKeywords [(Keyword.or_, ())]) = split' at hsplit
  cases hsplit with
  | some _ => exact .error
  | none =>
      refine Agree.mapM (halike.splitChain hblind) fun part part' hpart => ?_
      refine Agree.ite (by rw [hpart.2.isEmpty_eq]) fun _ => ?_
      exact hreads.comparison _ _ (hpart.2.openAll hblind)

namespace Join

theorem readBody_alike {kind : JoinKind} (hblind : Blind R) (hreads : like.ReadsJoins R stretch)
    (halike : fragment.Alike R stretch fragment') :
    Agree (Join.Like like) (readBody kind fragment) (readBody kind fragment') := by
  have hfirm : ∀ keyword ∈ [Keyword.using_, Keyword.on], ∀ entry ∈ [(keyword, ())],
      entry.1.isFirm = true := by decide
  have hsplits : ∀ keyword ∈ [Keyword.using_, Keyword.on], Option.Rel
      (fun split split' : Fragment.Split Unit => split.label = split'.label ∧
        split.before.Alike R stretch split'.before ∧ split.after.Alike R stretch split'.after)
      (fragment.splitFirst? (.ofKeyword keyword)) (fragment'.splitFirst? (.ofKeyword keyword)) :=
    fun keyword hmem => halike.splitFirst? hblind (Finder.ofKeywords_follows (hfirm keyword hmem))
      (RowFinder.ofKeywords_steady hblind (hfirm keyword hmem))
  have husing := hsplits Keyword.using_ (by simp)
  have hon := hsplits Keyword.on (by simp)
  unfold readBody
  generalize fragment.splitFirst? (.ofKeyword Keyword.using_) = split at husing
  generalize fragment'.splitFirst? (.ofKeyword Keyword.using_) = split' at husing
  cases husing with
  | some _ => exact .error
  | none =>
      dsimp only
      generalize fragment.splitFirst? (.ofKeyword Keyword.on) = split at hon
      generalize fragment'.splitFirst? (.ofKeyword Keyword.on) = split' at hon
      cases hon with
      | none => exact .error
      | some hsides =>
          refine (hreads.table _ _ _ hsides.2.1).bind fun table table' htable => ?_
          refine (JoinCondition.readChain_alike hblind hreads hsides.2.2).bind
            fun conditions conditions' hconditions => ?_
          exact .ok ⟨rfl, htable, hconditions⟩

theorem readSegment_alike {segment segment' : Segment JoinMark} (hblind : Blind R)
    (hreads : like.ReadsJoins R stretch) (hlabel : segment.label = segment'.label)
    (hbody : segment.body.Alike R stretch segment'.body) :
    Agree (Join.Like like) (readSegment segment) (readSegment segment') := by
  unfold readSegment
  rw [hlabel]
  cases segment'.label with
  | join kind => exact readBody_alike hblind hreads hbody
  | cross => exact .error
  | natural => exact .error

end Join

/-! ## Tables and joins behind a cursor -/

namespace Cursor.Stands

variable {cursor : Cursor} {front row head : List Lexeme} {cuts : List (RowCut JoinMark)}

/-- A cursor moves over the characters at the front of a row that pass a test, where
quotation marks do not. -/
theorem skipWhile_row {test : Char → Bool} (hstands : cursor.Stands front row)
    (hatomic : Atomic row) (hquote : ∀ quote : Quote, test quote.char = false) :
    (cursor.skipWhile test).Stands (front ++ row.takeWhile (isMark test))
      (row.dropWhile (isMark test)) := by
  rw [← @List.takeWhile_append_dropWhile _ (isMark test) row] at hstands
  apply hstands.skipWhile
  · obtain ⟨text, htake, htest⟩ := exists_takeWhile_isMark test row
    rw [htake, textOf_marks]
    exact htest
  · have hfirst := List.head?_dropWhile_not (isMark test) row
    have hrest := hatomic.dropWhile (isMark test)
    cases hdrop : row.dropWhile (isMark test) with
    | nil => simp
    | cons lexeme rest =>
        rw [hdrop] at hfirst hrest
        intro c hc
        cases lexeme with
        | mark d =>
            obtain rfl : d = c := by simpa [Lexeme.text] using hc
            simpa [isMark] using hfirst
        | literal quote content =>
            obtain rfl : quote.char = c := by simpa [Lexeme.text, Quote.enclose] using hc
            exact hquote quote
        | word _ | lineComment _ | blockComment _ => exact (atomic_cons.mp hrest).1.elim

theorem skipBlanks (hstands : cursor.Stands front row) (hatomic : Atomic row) :
    cursor.skipBlanks.Stands (front ++ row.takeWhile isGap) (row.dropWhile isGap) := by
  have hcut : cursor.ahead.cut = 0 := by rw [hstands.ahead_eq]
  rw [Cursor.skipBlanks, if_pos hcut, funext isGap_eq]
  exact hstands.skipWhile_row hatomic fun quote => by cases quote <;> rfl

/-- The text behind a cursor is cut at the keywords of joins as its row is. -/
theorem joins_eq (hstands : cursor.Stands front row) (hatomic : Atomic row)
    (hcuts : Cuts (RowFinder.ofKeywords JoinMark.entries) 0 (lastOf none front) row head cuts) :
    cursor.joins.head.text = textOf head ∧
      cursor.joins.tail.map Segment.cut = cuts.map RowCut.cut ∧ cursor.beforeJoins = textOf head := by
  have hfollows := @Finder.ofKeywords_follows _ JoinMark.entries (by decide)
  have hcells := hcuts.cutCells_eq hfollows (freshBehind true front) hatomic
  rw [show Finder.ofKeywords JoinMark.entries = JoinMark.finder from rfl] at hcells
  refine ⟨?_, ?_, ?_⟩
  · rw [Cursor.joins, Segmentation.head_text_ofCells, hstands.ahead_eq, hcells]
  · rw [Cursor.joins, Segmentation.map_cut_tail_ofCells, hstands.ahead_eq, hcells]
  · rw [beforeJoins, Cursor.joins, Segmentation.head_text_ofCells, hstands.ahead_eq, hcells]
    rfl

end Cursor.Stands

/-- What is in front of the first join is read as a list of tables, and each join is read
alone. -/
theorem Statement.readClause_from {query : Query} {keyword body : Fragment} {row : List Lexeme}
    {head : List Lexeme} {cuts : List (RowCut JoinMark)} (hsound : Sound row)
    (htext : body.text = textOf row)
    (hcuts : Cuts (RowFinder.ofKeywords JoinMark.entries) 0 (lastOf none (row.takeWhile isGap))
      (row.dropWhile isGap) head cuts) :
    ∃ (list : Fragment) (segments : List (Segment JoinMark)), list.text = textOf head ∧
      segments.map Segment.cut = cuts.map RowCut.cut ∧
      readClause query ⟨.from_, keyword, body⟩ = (do
        let tables ← list.splitList.mapM fun item =>
          if item.text.isEmpty then .error (list.error .missingTable (some .from_))
          else TableItem.read .from_ item
        let joins ← segments.mapM Join.readSegment
        .ok { query with tables, joins }) := by
  have hfollows := @Finder.ofKeywords_follows _ JoinMark.entries (by decide)
  have hrest := hcuts.rest
  have hatomic := hsound.atomic.dropWhile isGap
  have hbegin : (Cursor.mk body.text body.start 0 (some .from_)).Stands [] row :=
    ⟨htext, rfl, by rw [htext, hsound.cells_textOf]; rfl⟩
  have hstart := hbegin.skipBlanks hsound.atomic
  rw [List.nil_append] at hstart
  obtain ⟨hhead, htail, hbefore⟩ := hstart.joins_eq hatomic hcuts
  have hcut : (Cursor.mk body.text body.start 0 (some .from_)).skipBlanks.ahead.cut = 0 := by
    rw [hstart.ahead_eq]
  generalize hskip : (Cursor.mk body.text body.start 0 (some .from_)).skipBlanks = start at *
  rw [hcuts.row_eq] at hstart hatomic
  have hjump := hstart.jump
  rw [← lastOf_append] at hrest
  have hmoved : Cursor.Stands { start.jump (Text.size (textOf head)) with clause := some .join }
      (row.takeWhile isGap ++ head) (cuts.flatMap RowCut.row) :=
    ⟨hjump.text, hjump.position, hjump.cells⟩
  have hstay := hmoved.skipBlanks (atomic_append.mp hatomic).2
  obtain ⟨hnone, hsame⟩ := hrest.takeWhile_isGap hfollows
  rw [hnone, hsame, List.append_nil] at hstay
  obtain ⟨-, htail', hbefore'⟩ := hstay.joins_eq (atomic_append.mp hatomic).2 hrest
  refine ⟨⟨start.beforeJoins, start.absolute start.position⟩, _, hbefore, htail', ?_⟩
  rw [readClause]
  dsimp only
  rw [TableItem.readList, hskip]
  dsimp only
  generalize List.mapM (m := Except ParseError) _
    (Fragment.mk start.beforeJoins (start.absolute start.position)).splitList = tables
  cases tables with
  | error error => rfl
  | ok tables =>
      rw [hcut, hhead, Nat.zero_add, Join.readList]
      dsimp only
      rw [hbefore', textOf_nil, List.isEmpty_nil, Bool.not_true, Bool.and_false, if_neg Bool.false_ne_true]
      generalize List.mapM (m := Except ParseError) Join.readSegment _ = joins
      cases joins with
      | error error => rfl
      | ok joins => rfl

/-- Alike bodies of FROM are read alike. -/
theorem Statement.readClause_from_alike {query query' : Query} {keyword keyword' body body' : Fragment}
    (hblind : Blind R) (hreads : like.ReadsJoins R stretch) (hquery : query.Like like query')
    (halike : body.Alike R stretch body') :
    Agree (Query.Like like) (readClause query ⟨.from_, keyword, body⟩)
      (readClause query' ⟨.from_, keyword', body'⟩) := by
  have hfirm : ∀ entry ∈ JoinMark.entries, entry.1.isFirm = true := by decide
  have hfollows := Finder.ofKeywords_follows hfirm
  obtain ⟨row, row', hsound, hsound', htext, htext', hrows⟩ := halike
  obtain ⟨hgap, hrest⟩ := @Lexeme.Alike.dropWhile R stretch row row' isGap true hrows
    (fun _ _ hlexeme => (hblind _ _ hlexeme).isGap_eq) fun _ hblank => hblank
  have hbefore := @Alike.lastOf_isWordChar R stretch _ _ none none hblind hgap rfl
  obtain ⟨head, cuts, hcuts⟩ := Cuts.exists_cuts hfollows 0 (lastOf none (row.takeWhile isGap))
    (hsound.atomic.dropWhile isGap)
  obtain ⟨head', cuts', hcuts', hhead, hforall⟩ := hcuts.alike hblind hfollows
    (RowFinder.ofKeywords_steady hblind hfirm) hbefore hrest
  obtain ⟨list, segments, hlist, hsegments, hread⟩ :=
    @readClause_from query keyword body row head cuts hsound htext.symm hcuts
  obtain ⟨list', segments', hlist', hsegments', hread'⟩ :=
    @readClause_from query' keyword' body' row' head' cuts' hsound' htext'.symm hcuts'
  have hback := hsound.part (List.dropWhile_suffix isGap).isInfix
  have hback' := hsound'.part (List.dropWhile_suffix isGap).isInfix
  have hlists : list.Alike R stretch list' :=
    Fragment.alike_of_rows (hcuts.sound_head hback) (hcuts'.sound_head hback') hlist hlist' hhead
  have hjoins := Segment.forall₂_of_cuts (hcuts.sound_tail hback) (hcuts'.sound_tail hback') hsegments hsegments' hforall
  rw [hread, hread']
  refine (hlists.readItems hblind (hreads.table _)).bind fun tables tables' htables => ?_
  refine (Agree.mapM hjoins fun segment segment' hsegment =>
    Join.readSegment_alike hblind hreads hsegment.1 hsegment.2.2).bind fun joins joins' hjoins => ?_
  exact .ok { hquery with tables := htables, joins := hjoins }

end SelectForm

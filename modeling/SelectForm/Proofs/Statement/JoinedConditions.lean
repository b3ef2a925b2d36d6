import Mathlib
import SelectForm.Proofs.Statement.StrippedCondition

/-!
# Conditions joined by connectors

Texts that are read as conditions, with connectors between them, are read as the conditions with
these connectors.  A condition settles the marks that it brings, so the next connector behind it
is found, whatever the condition is.
-/

namespace SelectForm

open Lexeme

/-! ## Marks behind a settled text -/

namespace ChainMark

/-- Finds the marks of a chain in a row. -/
def seek : RowFinder ChainMark := .ofKeywords (entries [.and, .or])

theorem seek_follows : (finder [.and, .or]).Follows seek :=
  Finder.ofKeywords_follows (isFirm_entries _)

variable {before : Option Char} {row back : List Lexeme} {text : Text} {label : ChainMark}

/-- What is found is a word of a chain that stands alone. -/
theorem exists_of_seek (hseek : seek before row = some (label, back)) :
    ∃ text, row = marks text ++ back ∧ text.map Char.toUpper ∈ ChainMark.stops ∧
      before.any Text.isWordChar = false ∧ (textOf back).head?.any Text.isWordChar = false := by
  obtain ⟨⟨keyword, other⟩, hmem, hfound⟩ := List.exists_of_findSome?_eq_some hseek
  obtain ⟨behind, hrest, hpair⟩ := Option.map_eq_some_iff.mp hfound
  obtain ⟨-, rfl⟩ := Prod.mk.inj hpair
  have hform : ∃ word ∈ ChainMark.stops, keyword.form = .phrase [word] := by
    simp only [entries, List.map_cons, List.map_nil, List.mem_cons, List.not_mem_nil, or_false,
      Prod.mk.injEq] at hmem
    rcases hmem with ⟨rfl, -⟩ | ⟨rfl, -⟩ | ⟨rfl, -⟩
    · exact ⟨"BETWEEN".toList, by simp [stops], rfl⟩
    · exact ⟨"AND".toList, by simp [stops], rfl⟩
    · exact ⟨"OR".toList, by simp [stops], rfl⟩
  obtain ⟨word, hword, hform⟩ := hform
  obtain ⟨text, rfl, hspells⟩ := Keyword.exists_of_rest? hrest
  obtain ⟨hbefore, hbehind⟩ := Keyword.bounded_of_rest? hform hrest
  obtain rfl := (Keyword.spells_iff_of_word hform).mp hspells
  exact ⟨text, rfl, hword, hbefore, hbehind⟩

theorem seek_between (hfits : Keyword.between.Fits before text (textOf back)) :
    seek before (marks text ++ back) = some (.between, back) := by
  unfold seek RowFinder.ofKeywords entries
  rw [List.findSome?_cons, hfits.rest?_eq rfl]
  rfl

theorem rest?_of_ne {keyword : Keyword} {word other : Text} (hform : keyword.form = .phrase [other])
    (hne : ¬ other <+: word) (hne' : ¬ word <+: other) (htext : text.map Char.toUpper = word) :
    keyword.rest? before (marks text ++ back) = none := by
  rw [Keyword.rest?_of_word hform, Keyword.restWord?_of_ne hne hne' htext, Option.filter_none,
    ite_self]

theorem seek_connector (connector : Connector)
    (hfits : connector.phrase.Fits before text (textOf back)) :
    seek before (marks text ++ back) = some (.connector connector, back) := by
  unfold seek RowFinder.ofKeywords entries
  cases connector with
  | and =>
      have htext := (Keyword.spells_iff_of_word rfl).mp hfits.spells
      rw [List.findSome?_cons, rest?_of_ne rfl (by decide) (by decide) htext, Option.map_none,
        List.map_cons, List.findSome?_cons, hfits.rest?_eq rfl]
      rfl
  | or =>
      have htext := (Keyword.spells_iff_of_word rfl).mp hfits.spells
      rw [List.findSome?_cons, rest?_of_ne rfl (by decide) (by decide) htext, Option.map_none,
        List.map_cons, List.findSome?_cons, rest?_of_ne rfl (by decide) (by decide) htext,
        Option.map_none, List.map_cons, List.findSome?_cons, hfits.rest?_eq rfl]
      rfl

end ChainMark

namespace Cuts

variable {before : Option Char} {row back head first : List Lexeme} {cuts : List (RowCut ChainMark)}

theorem any_of_or {test : Char → Bool} {found other : Option Char}
    (hnone : (found.or other).any test = false) : found.any test = false := by
  cases found with
  | none => rfl
  | some c => exact hnone

/-- An unmarked row is passed over. -/
theorem of_unmarked (hfirst : Unmarked first) (hclear : Clear (textOf first) (textOf row))
    (hcuts : Cuts ChainMark.seek 0 (lastOf before first) row head cuts) :
    Cuts ChainMark.seek 0 before (first ++ row) (first ++ head) cuts := by
  -- By induction on what is left of the row behind a front that has been passed.
  have hrest : ∀ rest front, first = front ++ rest →
      Cuts ChainMark.seek (nestingOf front) (lastOf before front) (rest ++ row) (rest ++ head)
        cuts := by
    intro rest
    induction rest with
    | nil =>
        intro front hparts
        rw [List.append_nil] at hparts
        subst hparts
        rw [hfirst.nestingOf_eq]
        exact hcuts
    | cons lexeme rest ih =>
        intro front hparts
        have hnext := ih (front ++ [lexeme]) (by simp [hparts])
        rw [nestingOf_append, lastOf_append,
          show nestingOf [lexeme] = lexeme.nesting by simp] at hnext
        refine .pass (fun htop => ?_) hnext
        simp only [isTopLevel, Bool.and_eq_true, beq_iff_eq] at htop
        by_contra hfound
        obtain ⟨⟨label, back⟩, hseek⟩ := Option.ne_none_iff_exists'.mp hfound
        obtain ⟨text, hrow, hword, hbefore, hbehind⟩ := ChainMark.exists_of_seek hseek
        have hwhole : first ++ row = front ++ (marks text ++ back) := by
          rw [hparts, ← hrow]
          simp
        obtain ⟨gap, hgap, -⟩ | ⟨gap, hgap, rfl⟩ := cases_of_chainWord hclear hword hwhole
        · have hlength := congrArg List.length hgap
          rw [hparts] at hlength
          simp only [List.length_append, List.length_cons] at hlength
          omega
        · rw [lastOf_eq] at hbefore
          rw [textOf_append, List.head?_append] at hbehind
          rcases hfirst.free front text gap hgap hword htop.1.1 with hlast | hhead
          · rw [lastOf_eq, Option.or_none, any_of_or hbefore] at hlast
            contradiction
          · rw [any_of_or hbehind] at hhead
            contradiction
  exact hrest first [] rfl

theorem of_mark {text : Text} {label : ChainMark} {body : List Lexeme}
    (hseek : ChainMark.seek before (marks text ++ back) = some (label, back))
    (hback : Cuts ChainMark.seek 0 (lastOf before (marks text)) back body cuts) :
    Cuts ChainMark.seek 0 before (marks text ++ back) [] (⟨label, marks text, body⟩ :: cuts) := by
  obtain ⟨word, hrow, hword, -, -⟩ := ChainMark.exists_of_seek hseek
  obtain rfl : text = word :=
    Function.Injective.list_map (fun _ _ => Lexeme.mark.inj) (List.append_cancel_right hrow)
  obtain ⟨hne, halpha⟩ := isAlpha_of_chainWord hword
  obtain ⟨c, text, rfl⟩ := List.exists_cons_of_ne_nil hne
  have hc := halpha c List.mem_cons_self
  have hnesting : (Lexeme.mark c).nesting = 0 := by
    have hopen : c ≠ '(' := by
      rintro rfl
      exact absurd hc (by decide)
    have hclose : c ≠ ')' := by
      rintro rfl
      exact absurd hc (by decide)
    simp [Lexeme.nesting, hopen, hclose]
  exact .mark (by simp [isTopLevel, hnesting, isCode, kind]) rfl hseek hback

end Cuts

theorem Lexeme.lastOf_of_ne_nil {before : Option Char} {row : List Lexeme} (hne : textOf row ≠ []) :
    lastOf before row = (textOf row).getLast? := by
  rw [lastOf_eq, List.getLast?_eq_some_getLast hne, Option.some_or]

/-- The marks that a row brings do not show behind it: the row belongs to one part of the chain,
and no `BETWEEN` waits behind it. -/
def Settles (row : List Lexeme) : Prop :=
  ∀ (before : Option Char) (back head : List Lexeme) (cuts : List (RowCut ChainMark)),
    Clear (textOf row) (textOf back) → Cuts ChainMark.seek 0 (lastOf before row) back head cuts →
      ∃ head' cuts', Cuts ChainMark.seek 0 before (row ++ back) head' cuts' ∧
        ∀ connector,
          closeRows false connector head' cuts' = closeRows false connector (row ++ head) cuts

/-- A settled text is the text of a row that settles its marks. -/
theorem Text.IsSettled.exists_settles {text : Text} (hsettled : text.IsSettled) :
    ∃ row, Closed row ∧ textOf row = text ∧ Settles row := by
  cases hsettled with
  | unmarked hunmarked =>
      obtain ⟨row, hrow, htext⟩ := hunmarked
      exact ⟨row, hrow.toClosed, htext, fun before back head cuts hclear hcuts =>
        ⟨row ++ head, cuts, hcuts.of_unmarked hrow hclear, fun _ => rfl⟩⟩
  | @between _ between _ link _ hfront hlow hhigh hfrontNe hlowNe hhighNe hbetween hlink =>
      obtain ⟨front, hfront, rfl⟩ := hfront
      obtain ⟨low, hlow, rfl⟩ := hlow
      obtain ⟨high, hhigh, rfl⟩ := hhigh
      refine ⟨_, closed_between hfront.toClosed hlow.toClosed hhigh.toClosed hlowNe hbetween hlink,
        by simp [textOf_marks], fun before back head cuts hclear hcuts => ?_⟩
      obtain ⟨hbefore, hbehind⟩ := hbetween.clear rfl
      obtain ⟨hbefore', hbehind'⟩ := hlink.clear rfl
      have hbetweenNe : between ≠ [] := hbetween.spells.ne_nil rfl
      have hlinkNe : link ≠ [] := hlink.spells.ne_nil rfl
      simp only [lastOf_append] at hcuts
      have hhighClear : Clear (textOf high) (textOf back) := by
        intro a ha b hb
        refine hclear a ?_ b hb
        simp [List.getLast?_append, Option.mem_def.mp ha]
      have hhighCuts := hcuts.of_unmarked hhigh hhighClear
      have hlinkCuts := Cuts.of_mark (ChainMark.seek_connector .and (by
        rw [lastOf_of_ne_nil hlowNe, textOf_append]
        exact (Keyword.fits_append_iff hhighNe _).mpr hlink)) hhighCuts
      have hlowCuts := hlinkCuts.of_unmarked hlow (by
        rw [textOf_append, textOf_marks]
        exact hbefore'.append_right hlinkNe _)
      have hbetweenCuts := Cuts.of_mark (ChainMark.seek_between (by
        rw [lastOf_of_ne_nil hfrontNe, textOf_append]
        exact (Keyword.fits_append_iff hlowNe _).mpr hbetween)) hlowCuts
      have hfrontCuts := hbetweenCuts.of_unmarked hfront (by
        rw [textOf_append, textOf_marks]
        exact hbefore.append_right hbetweenNe _)
      refine ⟨_, _, by simpa using hfrontCuts, fun connector => ?_⟩
      simp [closeRows, RowCut.row]

/-! ## Joined texts -/

/-- Texts with connectors in front of all but the first. -/
def Text.joinChain (first : Text) (others : List (Connector × Text)) : Text :=
  first ++ others.flatMap fun link => ' ' :: (link.1.keyword.toList ++ ' ' :: link.2)

theorem Text.trim_concat {c : Char} (hblank : isBlank c = true) (text : Text) :
    trim (text ++ [c]) = trim text := by
  rw [trim, trimStart, List.dropWhile_append]
  split
  · rename_i hempty
    rw [trim, trimStart, List.isEmpty_iff.mp hempty, List.dropWhile_cons_of_pos hblank]
    rfl
  · exact trimEnd_concat hblank _

theorem Lexeme.Sound.blank {row : List Lexeme} (hsound : Sound row) : Sound (mark ' ' :: row) :=
  (@closed_blanks [' '] (by simp [Text.isBlank])).sound.append hsound
    (clear_blanks_left _ (by simp [Text.isBlank]))

theorem clear_blank (first : Text) (row : List Lexeme) : Clear first (textOf (mark ' ' :: row)) :=
  clear_of_isBreak_right _ (by simp [Lexeme.text, isBreak])

/-- A blank in front of a part is trimmed. -/
theorem closeRows_blank {pending : Bool} {connector : Option Connector} {part : List Lexeme}
    {cuts : List (RowCut ChainMark)} :
    closeRows pending connector (mark ' ' :: part) cuts = closeRows pending connector part cuts := by
  have htrim : ∀ part : List Lexeme, trimmed (mark ' ' :: part) = trimmed part := fun _ => rfl
  induction cuts generalizing pending connector part with
  | nil => rfl
  | cons cut cuts ih =>
      rw [closeRows, closeRows, htrim]
      simp only [List.cons_append, ih]

theorem fits_connector (connector : Connector) (rest : List Lexeme) :
    connector.phrase.Fits (some ' ') connector.keyword.toList (textOf (mark ' ' :: rest)) := by
  refine ⟨?_, fun _ _ => ⟨rfl, rfl⟩⟩
  cases connector with
  | and => exact (Keyword.spells_iff_of_word rfl).mpr rfl
  | or => exact (Keyword.spells_iff_of_word rfl).mpr rfl

theorem pass_blank {before : Option Char} {row head : List Lexeme} {cuts : List (RowCut ChainMark)}
    (hcuts : Cuts ChainMark.seek 0 (some ' ') row head cuts) :
    Cuts ChainMark.seek 0 before (mark ' ' :: row) (mark ' ' :: head) cuts :=
  .pass (fun _ => ChainMark.seek_follows.silent _ _ _ rfl) hcuts

/-- The parts of joined texts are the texts, trimmed. -/
theorem exists_cuts_joinChain {first : Text} {others : List (Connector × Text)}
    (hfirst : first.IsSettled) (hothers : ∀ link ∈ others, link.2.IsSettled) :
    ∃ row, Sound row ∧ textOf row = Text.joinChain first others ∧
      ∀ before connector, ∃ head cuts, Cuts ChainMark.seek 0 before row head cuts ∧
        (closeRows false connector head cuts).map (fun closed => (closed.1, textOf closed.2)) =
          (connector, Text.trim first) ::
            others.map fun link => (some link.1, Text.trim link.2) := by
  induction others generalizing first with
  | nil =>
      obtain ⟨row, hrow, rfl, hsettles⟩ := hfirst.exists_settles
      refine ⟨row, hrow.sound, by simp [Text.joinChain], fun before connector => ?_⟩
      obtain ⟨head, cuts, hcuts, hclosed⟩ := hsettles before [] [] [] (by simp [Clear]) .nil
      rw [List.append_nil] at hcuts
      refine ⟨head, cuts, hcuts, ?_⟩
      rw [hclosed, List.append_nil, closeRows]
      simp [hrow.sound.atomic.trim_textOf]
  | cons link others ih =>
      obtain ⟨connector, next⟩ := link
      obtain ⟨hlink, hothers⟩ := List.forall_mem_cons.mp hothers
      obtain ⟨row, hrow, rfl, hsettles⟩ := hfirst.exists_settles
      obtain ⟨rest, hrest, hrestText, hcuts⟩ := ih hlink hothers
      have halpha : ∀ c ∈ connector.keyword.toList, c.isAlpha = true := by
        cases connector <;> simp [Connector.keyword, Char.isAlpha]
      have hword : Sound (marks connector.keyword.toList) :=
        (closed_letters fun c hc => .inl (halpha c hc)).sound
      have hback : Sound (mark ' ' :: (marks connector.keyword.toList ++ mark ' ' :: rest)) :=
        (hword.append hrest.blank (clear_blank _ _)).blank
      refine ⟨row ++ mark ' ' :: (marks connector.keyword.toList ++ mark ' ' :: rest), ?_, ?_,
        fun before first => ?_⟩
      · exact hrow.sound.append hback (clear_blank _ _)
      · simp [Text.joinChain, hrestText, textOf_marks, Lexeme.text]
      · obtain ⟨head, cuts, hcuts, hclosed⟩ := hcuts (some ' ') (some connector)
        -- The blanks around the connector belong to the parts on both sides, and are trimmed.
        have hmark := Cuts.of_mark
          (ChainMark.seek_connector connector (fits_connector connector rest)) (pass_blank hcuts)
        obtain ⟨head', cuts', hcuts', hclosed'⟩ := hsettles before _ _ _ (clear_blank _ _)
          (pass_blank hmark)
        refine ⟨head', cuts', hcuts', ?_⟩
        rw [hclosed', closeRows]
        have htrim := Text.trim_concat (show Text.isBlank ' ' = true from rfl) (textOf row)
        have hpart : Sound (row ++ [mark ' ']) := hrow.sound.append sound_nil.blank (clear_blank _ _)
        rw [show textOf row ++ [' '] = textOf (row ++ [mark ' ']) by simp [Lexeme.text],
          hpart.atomic.trim_textOf] at htrim
        simp only [Bool.false_eq_true, and_false, if_false, closeRows_blank, List.map_cons, hclosed,
          htrim]

/-! ## Conditions that are joined -/

namespace Condition

variable {clause : Clause} {first : Text} {condition : Condition}
  {others : List (Connector × Text)} {conditions : List Condition}

/-- A part that holds the text of a condition, trimmed, is read as this condition. -/
theorem readPart_of_read {text : Text} {start : Nat} {chain : Fragment} {part : ChainPart}
    (hread : read clause ⟨text, start⟩ = .ok condition)
    (htext : part.expression.text = Text.trim text) :
    readPart clause chain part =
      .ok { condition with connector := part.connector.getD .and } := by
  have hne := trim_ne_nil_of_read hread
  have htrim : (Fragment.mk text start).trim =
      ⟨part.expression.text, (Fragment.mk text start).trim.start⟩ := by
    rw [htext]
    rfl
  rw [← read_trim, htrim] at hread
  have hpart : read clause part.expression = .ok condition := read_start hread
  rw [readPart, htext, if_neg (by simpa using hne), hpart]
  rfl

/-- The parts with a connector are read as conditions with this connector. -/
theorem reads_links
    (hothers : List.Forall₂
      (fun link condition => read clause ⟨link.2, 0⟩ = .ok condition) others conditions)
    (chain : Fragment) :
    List.Forall₂
      (fun key condition => ∀ part : ChainPart, (part.connector, part.expression.text) = key →
        readPart clause chain part = .ok condition)
      (others.map fun link => (some link.1, Text.trim link.2))
      (List.zipWith (fun link condition => { condition with connector := link.1 })
        others conditions) := by
  induction hothers with
  | nil => exact .nil
  | cons hlink _ ih =>
      refine .cons (fun part hkey => ?_) ih
      obtain ⟨hconnector, hpart⟩ := Prod.mk.inj hkey
      rw [readPart_of_read hlink hpart, hconnector, Option.getD_some]

/-- Texts that are read as conditions, with connectors between them, are read as the conditions
with these connectors. -/
theorem readChain_joinChain (hfirst : read clause ⟨first, 0⟩ = .ok condition)
    (hothers : List.Forall₂
      (fun link condition => read clause ⟨link.2, 0⟩ = .ok condition) others conditions)
    (start : Nat) :
    readChain clause ⟨Text.joinChain first others, start⟩ =
      .ok ({ condition with connector := .and } ::
        List.zipWith (fun link condition => { condition with connector := link.1 })
          others conditions) := by
  have hsettled : ∀ link ∈ others, link.2.IsSettled := by
    intro link hmem
    obtain ⟨other, -, hread⟩ := exists_of_forall₂ hothers link hmem
    exact isSettled_of_read hread
  obtain ⟨row, hsound, htext, hcuts⟩ := exists_cuts_joinChain (isSettled_of_read hfirst) hsettled
  obtain ⟨head, cuts, hcuts, hclosed⟩ := hcuts none none
  have hfragment : (Fragment.mk (Text.joinChain first others) start).text = textOf row := htext.symm
  have hparts := (hsound.follows ChainMark.seek_follows hfragment hcuts).parts_splitChain
  rw [hclosed] at hparts
  refine mapM_of_keys hparts (.cons ?_ ?_)
  · intro part hkey
    obtain ⟨hconnector, hpart⟩ := Prod.mk.inj hkey
    rw [readPart_of_read hfirst hpart, hconnector]
    rfl
  · exact reads_links hothers _

/-- A reader at the front of joined texts that are read as conditions gives the conditions with
their connectors and reads all of the text. -/
theorem read_joined (hfirst : read clause ⟨first, 0⟩ = .ok condition)
    (hothers : List.Forall₂
      (fun link condition => read clause ⟨link.2, 0⟩ = .ok condition) others conditions)
    (offset : Nat) :
    let cursor : Cursor := { text := Text.joinChain first others, offset, clause := some clause }
    Reader.ofFragment (readChain clause) cursor =
        (.ok ({ condition with connector := .and } ::
          List.zipWith (fun link condition => { condition with connector := link.1 })
            others conditions), cursor.finish) ∧
      cursor.finish.atEnd = true := by
  intro cursor
  refine ⟨?_, cursor.atEnd_finish⟩
  rw [Reader.ofFragment, Cursor.restFragment_start rfl, readChain_joinChain hfirst hothers]

/-- A range, a negated list, a group and a literal with a connector in it. -/
theorem read_joined_four :
    read .having ⟨"a BETWEEN 1 AND 2".toList, 0⟩ =
        .ok { term := { column := "a" }, operator := .between, minValue := some (.number "1"),
              maxValue := some (.number "2") } ∧
      read .having ⟨"NOT b IN (1, 2)".toList, 0⟩ =
        .ok { term := { column := "b" }, operator := .inList, values := [.number "1", .number "2"],
              negated := true } ∧
      read .having ⟨"((COUNT(*) > 3))".toList, 0⟩ =
        .ok { term := { aggregate := some .count, column := "*" }, operator := .greater,
              value := some (.number "3") } ∧
      read .having ⟨"c = 'x AND y'".toList, 0⟩ =
        .ok { term := { column := "c" }, value := some (.string "x AND y") } ∧
      Reader.ofFragment (readChain .having)
          { text :=
              "a BETWEEN 1 AND 2 OR NOT b IN (1, 2) AND ((COUNT(*) > 3)) OR c = 'x AND y'".toList
            offset := 5, clause := some .having } =
        (.ok
          [{ term := { column := "a" }, operator := .between, minValue := some (.number "1"),
             maxValue := some (.number "2") },
           { term := { column := "b" }, operator := .inList,
             values := [.number "1", .number "2"], negated := true, connector := .or },
           { term := { aggregate := some .count, column := "*" }, operator := .greater,
             value := some (.number "3") },
           { term := { column := "c" }, value := some (.string "x AND y"), connector := .or }],
          { text :=
              "a BETWEEN 1 AND 2 OR NOT b IN (1, 2) AND ((COUNT(*) > 3)) OR c = 'x AND y'".toList
            offset := 5, position := 74, clause := some .having }) := by
  have hrange : read .having ⟨"a BETWEEN 1 AND 2".toList, 0⟩ =
      .ok { term := { column := "a" }, operator := .between, minValue := some (.number "1"),
            maxValue := some (.number "2") } := by decide +kernel
  have hlist : read .having ⟨"NOT b IN (1, 2)".toList, 0⟩ =
      .ok { term := { column := "b" }, operator := .inList, values := [.number "1", .number "2"],
            negated := true } := by decide +kernel
  have hgroup : read .having ⟨"((COUNT(*) > 3))".toList, 0⟩ =
      .ok { term := { aggregate := some .count, column := "*" }, operator := .greater,
            value := some (.number "3") } := by decide +kernel
  have hliteral : read .having ⟨"c = 'x AND y'".toList, 0⟩ =
      .ok { term := { column := "c" }, value := some (.string "x AND y") } := by decide +kernel
  have hothers : List.Forall₂
      (fun link condition => read .having ⟨link.2, 0⟩ = .ok condition)
      [(Connector.or, "NOT b IN (1, 2)".toList), (.and, "((COUNT(*) > 3))".toList),
        (.or, "c = 'x AND y'".toList)] _ :=
    .cons hlist (.cons hgroup (.cons hliteral .nil))
  exact ⟨hrange, hlist, hgroup, hliteral, (read_joined hrange hothers 5).1⟩

end Condition

end SelectForm

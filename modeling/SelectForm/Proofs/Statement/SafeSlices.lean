import Mathlib
import SelectForm.Proofs.Lexis.PositionalText
import SelectForm.Proofs.Statement.ByteStatement

/-!
# Slices between characters

Spans, parameters, the parts of chains and lists, the insides of groups, keywords and clauses are
all given as ranges of bytes.  In any text they are ranges of whole characters, and reading the text
looks at no byte outside of it and slices no text that it reads anywhere but between characters.
-/

namespace SelectForm

variable {text : Text}

theorem Fragment.LiesIn.isRange {fragment : Fragment} (hlies : fragment.LiesIn text) :
    text.IsRange fragment.start fragment.stop := by
  rw [← Text.isSome_cut?_iff, hlies.cut?_eq]
  rfl

/-! ## Parameters -/

theorem TemplatePart.Rewrites.text_parts {before : Option Char} {cells rewritten : List Cell}
    {parts : List TemplatePart} (hrewrites : Rewrites before cells parts rewritten) :
    parts.flatMap TemplatePart.text = Cell.text cells := by
  induction hrewrites with
  | nil => rfl
  | plain _ _ ih =>
      rw [List.flatMap_cons, ih]
      rfl
  | parameter _ _ _ _ _ ih =>
      rw [List.flatMap_cons, ih]
      exact congrArg (':' :: ·) (Cell.text_append _ _).symm

theorem ParameterPlace.isRange_ofTemplate {front : Text} {parts : List TemplatePart}
    (htext : text = front ++ parts.flatMap TemplatePart.text) :
    ∀ place ∈ ofTemplate (Text.size front) parts, text.IsRange place.start place.stop := by
  induction parts generalizing front with
  | nil => exact List.forall_mem_nil _
  | cons part rest ih =>
      have hrest := @ih (front ++ part.text) (by
        rw [htext, List.flatMap_cons, List.append_assoc])
      rw [Text.size_append] at hrest
      rw [ofTemplate]
      cases part.name? with
      | none => exact hrest
      | some name =>
          refine List.forall_mem_cons.mpr ⟨?_, hrest⟩
          exact Text.isRange_iff.mpr ⟨front, part.text, _, htext, rfl, rfl⟩

theorem Text.isRange_parameterPlaces (text : Text) :
    ∀ place ∈ text.parameterPlaces, text.IsRange place.start place.stop := by
  obtain ⟨rewritten, hrewrites⟩ := TemplatePart.exists_rewrites none text.cells
  have htext : text = [] ++ text.template.flatMap TemplatePart.text := by
    rw [template, hrewrites.text_parts]
    exact (Mode.text_cells _ _).symm
  exact ParameterPlace.isRange_ofTemplate htext

/-! ## Keywords -/

/-- The marks that are found from any place of a text on lie in the text. -/
theorem Cursor.liesIn_segment {α : Type} (find : Finder α) (text : Text) (position : Nat) :
    ∀ segment ∈ (Cursor.segment find { text, position }).tail, segment.mark.LiesIn text := by
  obtain ⟨passed, hcells, -, hsize, -⟩ := Ahead.exists_passed none text.cells position
  have htext : Cell.text text.cells = text := Mode.text_cells _ _
  have hlies : (Fragment.mk (Cell.text (Ahead.seek none text.cells position).cells)
      (0 + min position (Text.size text) +
        (Ahead.seek none text.cells position).cut)).LiesIn text := by
    refine ⟨Cell.text passed, [], ?_, ?_⟩
    · rw [List.append_nil, ← Cell.text_append, ← hcells, htext]
    · rw [htext] at hsize
      rw [Nat.zero_add, hsize]
  intro segment hsegment
  exact ((Segmentation.liesIn_ofCells hlies).2.liesIn segment hsegment).1

/-! ## Clauses -/

/-- The keywords of the clauses that are collected are marks that were found. -/
theorem LocatedClause.keyword_of_collect {seen : List String} {before clauses : List LocatedClause}
    {segments : List (Segment (String × Clause))}
    (hbefore : ∀ located ∈ before, located.keyword.LiesIn text)
    (hmarks : ∀ segment ∈ segments, segment.mark.LiesIn text)
    (hcollect : collect seen before segments = .ok clauses) :
    ∀ located ∈ clauses, located.keyword.LiesIn text := by
  induction segments generalizing seen before with
  | nil =>
      obtain rfl := Except.ok.inj hcollect
      exact fun located hlocated => hbefore located (List.mem_reverse.mp hlocated)
  | cons segment rest ih =>
      obtain ⟨hmark, hmarks⟩ := List.forall_mem_cons.mp hmarks
      rw [collect] at hcollect
      dsimp only at hcollect
      split at hcollect
      · contradiction
      · split at hcollect
        · obtain ⟨hlast, hearlier⟩ := List.forall_mem_cons.mp hbefore
          split at hcollect
          · refine ih (List.forall_mem_cons.mpr ⟨?_, hearlier⟩) hmarks hcollect
            exact hlast
          · split at hcollect
            · contradiction
            · split at hcollect
              · contradiction
              · exact ih (List.forall_mem_cons.mpr ⟨hmark, hbefore⟩) hmarks hcollect
        · split at hcollect
          · contradiction
          · exact ih (List.forall_mem_singleton.mpr hmark) hmarks hcollect

/-- The clauses that are located from any place of a text on lie in the text. -/
theorem LocatedClause.liesIn_of_read {position : Nat} {clauses : List LocatedClause}
    (hread : (read { text, position }).1 = .ok clauses) :
    ∀ located ∈ clauses, located.keyword.LiesIn text ∧ located.body.LiesIn text := by
  have htext : (Cursor.skipBlanks { text, position }).text = text := by
    rw [Cursor.skipBlanks]
    split <;> rfl
  have hoffset : (Cursor.skipBlanks { text, position }).offset = 0 := by
    rw [Cursor.skipBlanks]
    split <;> rfl
  rw [read] at hread
  generalize Cursor.skipBlanks { text, position } = start at hread htext hoffset
  subst htext
  dsimp only at hread
  split at hread
  · rename_i hcompare
    -- A keyword is compared between two characters only.
    obtain ⟨count, hcount⟩ := Option.isSome_iff_exists.mp hcompare
    rw [Cursor.keywordLength?, Option.ite_none_left_eq_some] at hcount
    obtain ⟨hinside, hcut⟩ : start.position < start.length ∧ start.ahead.cut = 0 := by
      simpa [Cursor.atEnd] using hcount.1
    obtain ⟨front, back, hparts, hfront⟩ := (Cursor.cut_eq_zero_iff hinside.le).mp hcut
    have hwalks : start.WalksIn start.text := by
      refine ⟨?_, front, back, hparts, hfront.symm⟩
      rw [hoffset]
      exact Fragment.liesIn_whole start.text
    have hsegment : start.segment finder =
        .ofCells finder start.ahead.before start.ahead.cells start.position := by
      rw [Cursor.segment, hcut, Cursor.absolute, hoffset, min_eq_left hinside.le, Nat.zero_add,
        Nat.add_zero]
    obtain ⟨-, -, htile, -⟩ := hwalks.segment finder
    rw [hsegment] at htile
    split at hread
    · contradiction
    · rename_i found hcollect
      split at hread
      · obtain rfl := Except.ok.inj hread
        have hmarks := fun segment hsegment => (htile.liesIn segment hsegment).1
        have hkeywords := keyword_of_collect (List.forall_mem_nil _) hmarks hcollect
        have hbodies :=
          (placesErrors_collect htile (List.forall_mem_nil _) (by simp)).2 found hcollect
        exact fun located hlocated => ⟨hkeywords located hlocated, hbodies located hlocated⟩
      · contradiction
  · contradiction

/-! ## Any text -/

/-- In any text the spans, the parameters, the parts of the chain and of the list that it is, the
inside of the group that it is, and the keywords and clauses ahead of any place are ranges: in
order, inside the text and between characters.  Reading the text byte by byte, each look at a byte
finds one and each slice is one of whole characters, and what is read is the query or the error of
the text.  The keywords are any that hold more than blanks; `ofPhrase` writes them in capitals. -/
theorem Text.slices_between_characters (text : Text) :
    (∀ span ∈ text.spans, text.IsRange span.start span.stop) ∧
      (∀ place ∈ text.parameterPlaces, text.IsRange place.start place.stop) ∧
      (∀ connectors, ∀ part ∈ (Fragment.mk text 0).splitChain connectors,
        text.IsRange part.expression.start part.expression.stop) ∧
      (∀ item ∈ (Fragment.mk text 0).splitList, text.IsRange item.start item.stop) ∧
      (∀ inner ∈ (Fragment.mk text 0).inside?, text.IsRange inner.start inner.stop) ∧
      (∀ (α : Type) (keywords : List (Keyword × α)),
        (∀ entry ∈ keywords, entry.1.IsFilled ∧ entry.1.IsCapital) → ∀ position,
          let points :=
            (Cursor.segment (.ofKeywords keywords) { text, position }).tail.map Segment.found
          Bytewise.marksAhead keywords { text, position } = some points ∧
            ∀ point ∈ points, text.IsRange point.start point.stop) ∧
      (∀ position clauses, (LocatedClause.read { text, position }).1 = .ok clauses →
        ∀ located ∈ clauses, text.IsRange located.keyword.start located.keyword.stop ∧
          text.IsRange located.body.start located.body.stop) ∧
      (Bytewise.ofText text).run = some (Query.ofText text) := by
  have hwhole := Fragment.liesIn_whole text
  refine ⟨?_, text.isRange_parameterPlaces, ?_, ?_, ?_, ?_, ?_, Bytewise.ofText_eq text⟩
  · intro span hspan
    exact ((Span.liesIn_ofCells _ (Fragment.liesIn_cells text)).2 span hspan).isRange
  · exact fun connectors part hpart => (hwhole.splitChain connectors part hpart).isRange
  · exact fun item hitem => (hwhole.splitList item hitem).isRange
  · exact fun inner hinner => (hwhole.inside? hinner).isRange
  · intro α keywords hkeywords position points
    refine ⟨Bytewise.marksAhead_eq (fun entry hentry => (hkeywords entry hentry).1)
      (fun entry hentry => (hkeywords entry hentry).2) _, ?_⟩
    exact List.forall_mem_map.mpr fun segment hsegment =>
      (Cursor.liesIn_segment _ text position segment hsegment).isRange
  · intro position clauses hread located hlocated
    obtain ⟨hkeyword, hbody⟩ := LocatedClause.liesIn_of_read hread located hlocated
    exact ⟨hkeyword.isRange, hbody.isRange⟩

/-- A literal with a character of two bytes, a search that begins inside of it, and a group with a
wide blank behind it. -/
theorem Text.slices_between_characters_wide :
    let text : Text := "SELECT a, b FROM t WHERE c = 'é' AND d = :e".toList
    let group : Text := "(é, ')')\u00a0".toList
    (text.IsRange 29 33 ∧ text.IsRange 42 44 ∧ text.IsRange 38 44 ∧ text.IsRange 10 44) ∧
      group.IsRange 1 8 ∧
      (Bytewise.marksAhead [(Keyword.and_, ())] { text, position := 31 } = some [⟨(), 34, 37⟩] ∧
        text.IsRange 34 37) ∧
      (text.IsRange 19 24 ∧ text.IsRange 24 44) ∧
      (Query.ofText text).isOk = true ∧
      (Bytewise.ofText text).run = some (Query.ofText text) := by
  intro text group
  obtain ⟨hspans, hplaces, hparts, hitems, -, hmarks, hclauses, hread⟩ :=
    text.slices_between_characters
  obtain ⟨-, -, -, -, hgroups, -⟩ := group.slices_between_characters
  obtain ⟨span, hspan, hspanRange⟩ :
      ∃ span ∈ text.spans, (span.start, span.stop) = (29, 33) := by decide +kernel
  obtain ⟨place, hplace, hplaceRange⟩ :
      ∃ place ∈ text.parameterPlaces, (place.start, place.stop) = (42, 44) := by decide +kernel
  obtain ⟨part, hpart, hpartRange⟩ :
      ∃ part ∈ (Fragment.mk text 0).splitChain [.and],
        (part.expression.start, part.expression.stop) = (38, 44) := by decide +kernel
  obtain ⟨item, hitem, hitemRange⟩ :
      ∃ item ∈ (Fragment.mk text 0).splitList, (item.start, item.stop) = (10, 44) := by
    decide +kernel
  have hinner : (Fragment.mk group 0).inside? = some ⟨"é, ')'".toList, 1⟩ := by decide +kernel
  have hpoints : (Cursor.segment (.ofKeywords [(Keyword.and_, ())])
      { text, position := 31 }).tail.map Segment.found = [⟨(), 34, 37⟩] := by decide +kernel
  have hlocated : (LocatedClause.read { text }).1 =
      .ok [⟨.select, ⟨"SELECT".toList, 0⟩, ⟨" a, b ".toList, 6⟩⟩,
        ⟨.from_, ⟨"FROM".toList, 12⟩, ⟨" t ".toList, 16⟩⟩,
        ⟨.where_, ⟨"WHERE".toList, 19⟩, ⟨" c = 'é' AND d = :e".toList, 24⟩⟩] := by decide +kernel
  have hkeywords : ∀ entry ∈ [(Keyword.and_, ())], entry.1.IsFilled ∧ entry.1.IsCapital := by
    rw [List.forall_mem_singleton]
    exact ⟨Keyword.isFilled_of_isPlain rfl, Keyword.isCapital_of_isPlain rfl⟩
  have hpair : ∀ {first last first' last' : Nat}, (first, last) = (first', last') →
      text.IsRange first last → text.IsRange first' last' := by
    intro first last first' last' heq hrange
    obtain ⟨rfl, rfl⟩ := Prod.mk.inj heq
    exact hrange
  obtain ⟨hfound, hranges⟩ := hmarks Unit _ hkeywords 31
  rw [hpoints] at hfound hranges
  exact ⟨⟨hpair hspanRange (hspans span hspan), hpair hplaceRange (hplaces place hplace),
      hpair hpartRange (hparts _ part hpart), hpair hitemRange (hitems item hitem)⟩,
    hgroups _ hinner, ⟨hfound, hranges _ List.mem_cons_self⟩,
    hclauses 0 _ hlocated _ (List.mem_of_getLast? rfl), by decide +kernel, hread⟩

end SelectForm

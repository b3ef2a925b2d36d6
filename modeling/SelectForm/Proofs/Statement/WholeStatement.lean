import Mathlib
import SelectForm.Proofs.Lexis.MaskedRow
import SelectForm.Proofs.Sql.WrittenComments
import SelectForm.Proofs.Statement.LocateClauses

/-!
# Checking written statements as a whole

A written statement passes all checks that come before its clauses are read.  Its
spans are closed, masking turns the comments in front of it into blanks, no semicolon
and no question mark stands in its code, its parentheses are balanced, and no construct
beyond the language appears.
-/

namespace SelectForm

open Lexeme

/-! ## Characters of code -/

namespace Lexeme

/-- A piece of code holds a mark only if it is that mark. -/
theorem IsProper.not_mem_text {c : Char} {lexeme : Lexeme} (hproper : lexeme.IsProper)
    (hcode : lexeme.isCode = true) (hc : Text.isWordChar c = false) (hne : lexeme ≠ mark c) :
    c ∉ lexeme.text := by
  intro hmem
  cases lexeme with
  | word text =>
      have hword := hproper.2 c hmem
      rw [hc] at hword
      exact absurd hword (by decide)
  | mark d => exact hne (congrArg mark (List.mem_singleton.mp hmem).symm)
  | literal _ _ | lineComment _ | blockComment _ => simp [isCode, kind] at hcode

theorem IsProper.not_isCodeChar {c : Char} {lexeme : Lexeme} (hproper : lexeme.IsProper)
    (hc : Text.isWordChar c = false) (hne : lexeme ≠ mark c) (fresh : Bool) :
    ∀ cell ∈ lexeme.cells fresh, cell.isCodeChar c = false := by
  intro cell hmem
  by_contra hcell
  obtain ⟨hcode, hchar⟩ : cell.isCode = true ∧ cell.char = c := by
    simpa [Cell.isCodeChar] using hcell
  have hkind : lexeme.isCode = true := by
    rw [isCode, ← kind_of_mem_cells hmem]
    exact hcode
  refine hproper.not_mem_text hkind hc hne ?_
  rw [← text_cells fresh lexeme, ← hchar]
  exact List.mem_map_of_mem hmem

theorem ne_mark_of_quiet {c : Char} {lexemes : List Lexeme} (hquiet : Quiet [[c]] lexemes) :
    ∀ lexeme ∈ lexemes, lexeme ≠ mark c := by
  rintro lexeme hmem rfl
  exact hquiet _ hmem List.mem_cons_self

theorem not_isCodeChar_cellsOf {c : Char} {lexemes : List Lexeme}
    (hproper : ∀ lexeme ∈ lexemes, lexeme.IsProper) (hc : Text.isWordChar c = false)
    (hquiet : Quiet [[c]] lexemes) (fresh : Bool) :
    ∀ cell ∈ cellsOf fresh lexemes, cell.isCodeChar c = false := by
  have hne := ne_mark_of_quiet hquiet
  clear hquiet
  induction lexemes generalizing fresh with
  | nil => exact List.forall_mem_nil _
  | cons lexeme rest ih =>
      obtain ⟨hfirst, hothers⟩ := List.forall_mem_cons.mp hproper
      obtain ⟨hfirstNe, hothersNe⟩ := List.forall_mem_cons.mp hne
      rw [cellsOf_cons]
      exact List.forall_mem_append.mpr
        ⟨hfirst.not_isCodeChar hc hfirstNe fresh, ih hothers _ hothersNe⟩

/-- A mark that is none of the pieces is no character of their code. -/
theorem Lexed.not_isCodeChar {c : Char} {lexemes : List Lexeme} (hlexed : Lexed none lexemes)
    (hc : Text.isWordChar c = false) (hquiet : Quiet [[c]] lexemes) :
    ∀ cell ∈ (textOf lexemes).cells, cell.isCodeChar c = false := by
  rw [hlexed.cells_textOf]
  exact not_isCodeChar_cellsOf hlexed.isProper hc hquiet true

theorem openedBy_of_ne {depth : Nat} {lexeme : Lexeme} (hopen : lexeme ≠ mark '(')
    (hclose : lexeme ≠ mark ')') : openedBy depth lexeme = some depth := by
  cases lexeme with
  | mark c =>
      have hne : c ≠ '(' ∧ c ≠ ')' := by simpa using And.intro hopen hclose
      rw [openedBy, if_neg hne.1, if_neg hne.2]
  | _ => rfl

end Lexeme

namespace Statement

/-! ## Parentheses -/

theorem unbalanced?_of_plain {opened : List Nat} {offset : Nat} {front rest : List Cell}
    (hplain : ∀ cell ∈ front, cell.isCodeChar '(' = false ∧ cell.isCodeChar ')' = false) :
    unbalanced? opened offset (front ++ rest) =
      unbalanced? opened (offset + Text.size (Cell.text front)) rest := by
  induction front generalizing offset with
  | nil => rfl
  | cons cell front ih =>
      obtain ⟨hopen, hclose⟩ := hplain cell List.mem_cons_self
      have hrest := @ih (offset + cell.char.utf8Size) fun other hmem =>
        hplain other (List.mem_cons_of_mem cell hmem)
      have htext : Cell.text (cell :: front) = cell.char :: Cell.text front := rfl
      rw [List.cons_append, unbalanced?.eq_def]
      simp only [hopen, hclose, Bool.false_eq_true, if_false]
      rw [hrest, htext, Text.size_cons, Nat.add_assoc]

/-- Parentheses are followed piece by piece. -/
theorem unbalanced?_cellsOf {lexemes : List Lexeme} {opened : List Nat} {behind : Nat}
    (hproper : ∀ lexeme ∈ lexemes, lexeme.IsProper)
    (hbalance : balance opened.length lexemes = some behind) (offset : Nat) (fresh : Bool) :
    ∃ others place, others.length = behind ∧
      unbalanced? opened offset (cellsOf fresh lexemes) = unbalanced? others place [] := by
  induction lexemes generalizing opened offset fresh with
  | nil =>
      rw [balance, Option.some.injEq] at hbalance
      exact ⟨opened, offset, hbalance, rfl⟩
  | cons lexeme rest ih =>
      obtain ⟨hfirst, hothers⟩ := List.forall_mem_cons.mp hproper
      rw [balance, Option.bind_eq_some_iff] at hbalance
      obtain ⟨depth, hopened, hbalance⟩ := hbalance
      by_cases hopen : lexeme = mark '('
      · subst hopen
        obtain rfl : opened.length + 1 = depth := by simpa [openedBy] using hopened
        rw [cellsOf_mark]
        exact @ih (offset :: opened) hothers hbalance _ _
      · by_cases hclose : lexeme = mark ')'
        · subst hclose
          cases opened with
          | nil => simp [openedBy] at hopened
          | cons last opened =>
              obtain rfl : opened.length = depth := by simpa [openedBy] using hopened
              rw [cellsOf_mark]
              exact @ih opened hothers hbalance _ _
        · rw [openedBy_of_ne hopen hclose, Option.some.injEq] at hopened
          subst hopened
          have hplain : ∀ cell ∈ lexeme.cells fresh,
              cell.isCodeChar '(' = false ∧ cell.isCodeChar ')' = false := fun cell hmem =>
            ⟨hfirst.not_isCodeChar (by decide) hopen fresh cell hmem,
              hfirst.not_isCodeChar (by decide) hclose fresh cell hmem⟩
          rw [cellsOf_cons, unbalanced?_of_plain hplain]
          exact ih hothers hbalance _ _

theorem rejectUnbalanced_of_balance {lexemes : List Lexeme} (hlexed : Lexed none lexemes)
    (hbalance : balance 0 lexemes = some 0) : rejectUnbalanced (textOf lexemes) = .ok () := by
  obtain ⟨others, place, hothers, hunbalanced⟩ :=
    @unbalanced?_cellsOf lexemes [] 0 hlexed.isProper hbalance 0 true
  rw [List.length_eq_zero_iff] at hothers
  rw [rejectUnbalanced, hlexed.cells_textOf, hunbalanced, hothers]
  rfl

/-! ## Other checks -/

theorem rejectUnclosed_of_lexed {lexemes : List Lexeme} (hlexed : Lexed none lexemes) :
    rejectUnclosed (textOf lexemes) = .ok () := by
  have hclosed : (textOf lexemes).spans.find? (fun span => !span.terminated) = none := by
    rw [List.find?_eq_none, hlexed.spans_textOf]
    intro span hmem
    simp [terminated_spansOf 0 lexemes span hmem]
  rw [rejectUnclosed, hclosed]

theorem single_of_quiet {lexemes : List Lexeme} (hlexed : Lexed none lexemes)
    (hquiet : Quiet [[';']] lexemes) : single (textOf lexemes) = .ok (textOf lexemes) := by
  have hcells := hlexed.not_isCodeChar (c := ';') (by decide) hquiet
  have hlength : (textOf lexemes).cells.length = (textOf lexemes).length := by
    rw [hlexed.cells_textOf, length_cellsOf]
  have htake : ((textOf lexemes).cells.takeWhile fun cell => !cell.isCodeChar ';') =
      (textOf lexemes).cells := by
    rw [List.takeWhile_eq_self_iff]
    intro cell hmem
    simp [hcells cell hmem]
  rw [single]
  simp only [htake, hlength, Fragment.drop, Fragment.isBlank]
  rw [List.drop_eq_nil_of_le (Nat.le_succ _), List.take_of_length_le le_rfl]
  rfl

/-- A semicolon at the end of a statement is dropped. -/
theorem single_of_semicolon {lexemes : List Lexeme} (hlexed : Lexed none (lexemes ++ [mark ';']))
    (hquiet : Quiet [[';']] lexemes) :
    single (textOf (lexemes ++ [mark ';'])) = .ok (textOf lexemes) := by
  have hproper := fun lexeme hmem =>
    hlexed.isProper lexeme (List.mem_append_left [mark ';'] hmem)
  have hcells := not_isCodeChar_cellsOf hproper (by decide) hquiet true
  have htext : textOf (lexemes ++ [mark ';']) = textOf lexemes ++ [';'] := by simp [Lexeme.text]
  have hcount : ((textOf (lexemes ++ [mark ';'])).cells.takeWhile
      fun cell => !cell.isCodeChar ';').length = (textOf lexemes).length := by
    rw [hlexed.cells_textOf, cellsOf_append, List.takeWhile_append_of_pos fun cell hmem => by
      rw [hcells cell hmem]
      rfl]
    have hstop : (cellsOf (freshBehind true lexemes) [mark ';']).takeWhile
        (fun cell => !cell.isCodeChar ';') = [] := rfl
    rw [hstop, List.append_nil, length_cellsOf]
  have hdrop : (textOf lexemes ++ [';']).drop ((textOf lexemes).length + 1) = [] :=
    List.drop_eq_nil_of_le (by simp)
  rw [htext] at hcount
  rw [single, htext]
  simp only [hcount, Fragment.drop, Fragment.isBlank, hdrop, List.take_left]
  rfl

theorem questionMark?_of_quiet {lexemes : List Lexeme} (hlexed : Lexed none lexemes)
    (hquiet : Quiet [['?']] lexemes) : questionMark? 0 (textOf lexemes).cells = none := by
  have hcells := hlexed.not_isCodeChar (c := '?') (by decide) hquiet
  have hnone : ∀ (offset : Nat) (cells : List Cell),
      (∀ cell ∈ cells, cell.isCodeChar '?' = false) → questionMark? offset cells = none := by
    intro offset cells hcells
    induction cells generalizing offset with
    | nil => rfl
    | cons cell cells ih =>
        obtain ⟨hcell, hothers⟩ := List.forall_mem_cons.mp hcells
        rw [questionMark?, hcell]
        exact ih _ hothers
  exact hnone 0 _ hcells

end Statement

/-! ## Written statements -/

namespace StatementParts

variable {parts : StatementParts} {layout : Layout} {pad : Text}

theorem lexed_padded (hsound : parts.IsSound) (hpad : ∀ c ∈ pad, isLayoutBlank c = true) :
    Lexed none (marks pad ++ parts.lexemes layout) := by
  have hclean := (@solid_lexemes layout parts hsound).clean_padded hpad (List.forall_mem_nil _)
  have hnil : marks [] = [] := rfl
  rw [hnil, List.append_nil] at hclean
  exact hclean.lexed

/-- Apart from its first word, a statement holds nothing beyond the language. -/
theorem quiet_lexemes {labels : List Text} (hsound : parts.IsSound)
    (hlabels : labels ⊆ foreignStops) (hselect : "SELECT".toList ∉ labels) :
    Quiet labels (parts.lexemes layout) := by
  rw [lexemes_eq]
  exact quiet_cons.mpr ⟨hselect, (quiet_rest hsound).mono hlabels⟩

theorem quiet_padded {labels : List Text} (hsound : parts.IsSound)
    (hpad : ∀ c ∈ pad, isLayoutBlank c = true) (hlabels : labels ⊆ foreignStops)
    (hselect : "SELECT".toList ∉ labels) :
    Quiet labels (marks pad ++ parts.lexemes layout) := by
  have hblank := (quiet_marks hpad (by decide) (by decide) : Quiet foreignStops (marks pad))
  exact quiet_append.mpr ⟨hblank.mono hlabels, quiet_lexemes hsound hlabels hselect⟩

theorem balance_padded (hsound : parts.IsSound) (hpad : ∀ c ∈ pad, isLayoutBlank c = true) :
    balance 0 (marks pad ++ parts.lexemes layout) = some 0 := by
  rw [balance_append, balance_marks 0 fun c hc => (isSpacer_of_isLayoutBlank (hpad c hc)).1]
  exact (solid_lexemes hsound).balanced

/-- A written statement begins with `SELECT`, so none of the words that may not begin
one does. -/
theorem rejectedHeads_lexemes (hsound : parts.IsSound)
    (hpad : ∀ c ∈ pad, isLayoutBlank c = true) :
    ∀ entry ∈ Statement.rejectedHeads, entry.1.length? none
      (Fragment.mk (textOf (marks pad ++ parts.lexemes layout)) 0).skipAsciiBlanks.text.cells =
        none := by
  have hsolid := @solid_lexemes layout parts hsound
  have hplain : ∀ entry ∈ Statement.rejectedHeads,
      entry.1.isPlain = true ∧ "SELECT".toList ≠ entry.1.firstLabel := by decide
  obtain ⟨place, hstart⟩ := @Fragment.skipAsciiBlanks_written _ _ [] hpad hsolid 0
  rw [List.append_nil] at hstart
  intro entry hmem
  have hnone := @Fragment.length?_written entry.1 _ [] (hplain entry hmem).1 hsolid
    (List.forall_mem_nil _)
  rw [Keyword.behind?_eq_none (hplain entry hmem).1, Option.map_none] at hnone
  · rw [textOf_append, textOf_marks, hstart]
    exact hnone
  · intro lexeme hlexeme
    rw [lexemes_eq] at hlexeme
    obtain rfl : word "SELECT".toList = lexeme := by simpa using hlexeme
    exact (hplain entry hmem).2

/-- The only place of `SELECT` is the beginning of the statement. -/
theorem occurrences_select {front : List Lexeme} (hsound : parts.IsSound)
    (hlexed : Lexed none (front ++ parts.lexemes layout))
    (hfront : Quiet ["SELECT".toList] front) :
    (Fragment.mk (textOf (front ++ parts.lexemes layout)) 0).occurrences .select =
      [⟨"SELECT".toList, Text.size (textOf front)⟩] := by
  rw [lexemes_eq] at hlexed ⊢
  have hrest : Quiet ["SELECT".toList]
      (parts.selectLexemes layout ++ Marked.lexemesOf [] (parts.clauseRow layout)) :=
    (quiet_rest hsound).mono (by decide)
  have hplace := Fragment.occurrences_of_mark (by rfl : Keyword.select.isPlain = true)
    hlexed hfront (by simp [Lexeme.text]) rfl hrest 0
  simpa [Lexeme.text] using hplace

/-- No word of a written statement stands there too often. -/
theorem rejectedWords_lexemes (hsound : parts.IsSound)
    (hpad : ∀ c ∈ pad, isLayoutBlank c = true) :
    ∀ entry ∈ Statement.rejectedWords,
      ((Fragment.mk (textOf (marks pad ++ parts.lexemes layout)) 0).occurrences
        entry.1)[entry.2.2]? = none := by
  have hlexed := @lexed_padded parts layout pad hsound hpad
  have hforeign : ∀ keyword : Keyword, keyword.isPlain = true →
      [keyword.firstLabel] ⊆ foreignStops → "SELECT".toList ∉ [keyword.firstLabel] →
        (Fragment.mk (textOf (marks pad ++ parts.lexemes layout)) 0).occurrences keyword = [] :=
    fun keyword hplain hlabels hselect => Fragment.occurrences_of_quiet hplain hlexed
      (quiet_padded hsound hpad hlabels hselect) 0
  have hunion := hforeign .union rfl (by decide) (by decide)
  have hintersect := hforeign .intersect rfl (by decide) (by decide)
  have hexcept := hforeign .except rfl (by decide) (by decide)
  have hover := hforeign .over_ rfl (by decide) (by decide)
  have hselect : (Fragment.mk (textOf (marks pad ++ parts.lexemes layout)) 0).occurrences .select =
      [⟨"SELECT".toList, Text.size (textOf (marks pad))⟩] :=
    occurrences_select hsound hlexed (quiet_marks hpad (by decide) (by decide))
  intro entry hmem
  simp only [Statement.rejectedWords, List.mem_cons, List.not_mem_nil, or_false] at hmem
  rcases hmem with rfl | rfl | rfl | rfl | rfl
  · rw [hunion]
    rfl
  · rw [hintersect]
    rfl
  · rw [hexcept]
    rfl
  · rw [hover]
    rfl
  · rw [hselect]
    rfl

/-- A written statement holds nothing that is not supported. -/
theorem rejectUnsupported_lexemes (hsound : parts.IsSound)
    (hpad : ∀ c ∈ pad, isLayoutBlank c = true) :
    Statement.rejectUnsupported (textOf (marks pad ++ parts.lexemes layout)) = .ok () := by
  have hheads := @rejectedHeads_lexemes parts layout pad hsound hpad
  have hwords := @rejectedWords_lexemes parts layout pad hsound hpad
  have hmark := Statement.questionMark?_of_quiet (@lexed_padded parts layout pad hsound hpad)
    (quiet_padded hsound hpad (by decide) (by decide))
  have hnone : Statement.unsupported? (textOf (marks pad ++ parts.lexemes layout)) = none := by
    rw [Statement.unsupported?]
    simp only [hmark, Option.map_none, Option.or_none, Option.or_eq_none_iff,
      List.findSome?_eq_none_iff, Option.map_eq_none_iff]
    exact ⟨hheads, hwords⟩
  rw [Statement.rejectUnsupported, hnone]

end StatementParts

namespace Query

variable {query : Query} {layout : Layout}

/-- A statement holds code and string literals. -/
theorem kind_of_mem_lexemes :
    ∀ lexeme ∈ query.lexemes layout, lexeme.kind = .code ∨ lexeme.kind = .quoted .single := by
  intro lexeme hmem
  by_cases hcode : lexeme.isCode = true
  · exact .inl (by simpa [isCode] using hcode)
  · have hliteral : lexeme ∈ literalsOf (query.lexemes layout) :=
      List.mem_filter.mpr ⟨hmem, by simpa using hcode⟩
    rw [literalsOf_lexemes] at hliteral
    obtain ⟨value, -, rfl⟩ := List.mem_map.mp hliteral
    exact .inr rfl

theorem isComment_of_mem_lexemes :
    ∀ lexeme ∈ query.lexemes layout, lexeme.kind.isComment = false := by
  intro lexeme hmem
  rcases kind_of_mem_lexemes lexeme hmem with hkind | hkind <;> rw [hkind] <;> rfl

/-- Masking leaves the statement with blanks in front of it. -/
theorem maskComments_render (hwritten : query.IsWritten) :
    ∃ pad : Text, (∀ c ∈ pad, isLayoutBlank c = true) ∧
      Text.maskComments (query.render layout).toList =
        textOf (marks pad ++ query.lexemes layout) := by
  have hstatement : (query.lexemes layout).flatMap masked = textOf (query.lexemes layout) :=
    List.flatMap_congr fun lexeme hmem => by
      rw [masked, isComment_of_mem_lexemes lexeme hmem]
      rfl
  have hblank : ∀ lexeme ∈ query.preamble layout,
      ∀ c ∈ masked lexeme, isLayoutBlank c = true := by
    refine forall_preamble (fun line _ c hc => ?_) (fun c hc => ?_) fun c hc =>
      List.forall_mem_singleton.mpr hc
    · rw [eq_space_of_mem_masked rfl hc]
      rfl
    · rw [eq_space_of_mem_masked rfl hc]
      rfl
  refine ⟨(query.preamble layout).flatMap masked, fun c hc => ?_, ?_⟩
  · obtain ⟨lexeme, hmem, hc⟩ := List.mem_flatMap.mp hc
    exact hblank lexeme hmem c hc
  · rw [← textOf_preamble, (lexed_preamble hwritten).maskComments_textOf, List.flatMap_append,
      hstatement, textOf_append, textOf_marks]

/-- Apart from its first word, the text of a query holds nothing beyond the language. -/
theorem quiet_lexemes {labels : List Text} (hwritten : query.IsWritten)
    (hlabels : labels ⊆ StatementParts.foreignStops) (hselect : "SELECT".toList ∉ labels) :
    Quiet labels (query.lexemes layout) :=
  lexemes_spelledParts_plain layout query ▸
    StatementParts.quiet_lexemes (isSound_spelledParts hwritten) hlabels hselect

/-- The only place of `SELECT` is the beginning of the statement. -/
theorem occurrences_select {front : List Lexeme} (hwritten : query.IsWritten)
    (hlexed : Lexed none (front ++ query.lexemes layout))
    (hfront : Quiet ["SELECT".toList] front) :
    (Fragment.mk (textOf (front ++ query.lexemes layout)) 0).occurrences .select =
      [⟨"SELECT".toList, Text.size (textOf front)⟩] := by
  have hsound := @isSound_spelledParts layout query.plain query hwritten
  rw [← lexemes_spelledParts_plain layout query] at hlexed ⊢
  exact StatementParts.occurrences_select hsound hlexed hfront

end Query

end SelectForm

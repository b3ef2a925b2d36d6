import Mathlib
import SelectForm.Proofs.Statement.WholeStatement
import SelectForm.Proofs.Text.Balance

/-!
# Written statements are sealed

No string of a query gets out of its place in the written text.  A scan of the text
finds every span closed.  The quoted spans are the string literals of the conditions,
each with its own value, the comments are those of the layout and end before the
statement begins, and the code holds neither a second statement nor a parameter without
a name.
-/

namespace SelectForm

open Lexeme

/-! ## Spans of a kind -/

namespace Text

/-- The spans of a text with the kinds that pass a test. -/
def spansOfKind (test : SpanKind → Bool) (text : Text) : List Span :=
  text.spans.filter fun span => test span.kind

/-- The code of a text. -/
def code (text : Text) : Text := (text.spansOfKind (· == .code)).flatMap Span.text

end Text

namespace Lexeme

/-- The spans of some kinds other than code are the pieces of these kinds. -/
theorem Lexed.map_spansOfKind {lexemes : List Lexeme} {test : SpanKind → Bool}
    (hlexed : Lexed none lexemes) (hcode : test .code = false) :
    (Text.spansOfKind test (textOf lexemes)).map (fun span => (span.kind, span.text)) =
      (lexemes.filter fun lexeme => test lexeme.kind).map
        fun lexeme => (lexeme.kind, lexeme.text) := by
  have hkind : ∀ kind : SpanKind, (test kind && kind != .code) = test kind := by
    intro kind
    by_cases hsame : kind = .code
    · rw [hsame, hcode]
      rfl
    · simp [hsame]
  have hspans := congrArg (List.filter fun entry : SpanKind × Text => test entry.1)
    (literals_spansOf 0 lexemes)
  have hpiece : ∀ lexeme : Lexeme, (test lexeme.kind && !lexeme.isCode) = test lexeme.kind :=
    fun lexeme => hkind lexeme.kind
  simp only [List.filter_map, List.filter_filter, Function.comp_def, hkind, hpiece] at hspans
  rw [Text.spansOfKind, hlexed.spans_textOf]
  exact hspans

theorem Lexed.code_textOf {lexemes : List Lexeme} (hlexed : Lexed none lexemes) :
    Text.code (textOf lexemes) = textOf (lexemes.filter isCode) := by
  rw [Text.code, Text.spansOfKind, hlexed.spans_textOf]
  exact code_spansOf 0 lexemes

end Lexeme

/-! ## Scanned statements -/

namespace Layout

/-- The kinds of the comments in front of a statement. -/
def commentKinds (layout : Layout) : List SpanKind :=
  if !layout.comments then []
  else if layout.multiline then [.lineComment, .lineComment, .lineComment]
  else [.blockComment]

end Layout

namespace Query

/-- What a scan of the text of a query finds. -/
structure IsSealed (layout : Layout) (query : Query) (text : Text) : Prop where
  terminated : ∀ span ∈ text.spans, span.terminated = true
  noIdentifiers : ∀ span ∈ text.spans, span.kind ≠ .quoted .double
  literals : (text.spansOfKind (· == .quoted .single)).map Span.text =
    query.writtenStrings.map fun value => (Literal.string value).render.toList
  values : (text.spansOfKind (· == .quoted .single)).map (fun span => Text.unquote span.text) =
    query.writtenStrings.map String.toList
  comments : (text.spansOfKind SpanKind.isComment).map Span.kind = layout.commentKinds
  /-- `SELECT` stands once in the text, behind all comments. -/
  inFront : ∃ select, (Fragment.mk text 0).occurrences .select = [select] ∧
    ∀ span ∈ text.spans, span.kind.isComment = true → span.stop ≤ select.start
  noMarks : ∀ c ∈ text.code, c ≠ ';' ∧ c ≠ '?'
  balanced : text.code.Balanced

variable {query : Query} {layout : Layout}

theorem kind_of_mem_preamble :
    ∀ lexeme ∈ query.preamble layout, lexeme.kind = .code ∨ lexeme.kind.isComment = true :=
  forall_preamble (fun _ _ => .inr rfl) (.inr rfl) fun _ _ => .inl rfl

theorem kinds_preamble (layout : Layout) (query : Query) :
    ((query.preamble layout).filter fun lexeme => lexeme.kind.isComment).map kind =
      layout.commentKinds := by
  rw [preamble, Layout.commentKinds]
  cases layout.comments with
  | false => rfl
  | true => cases layout.multiline <;> rfl

theorem quiet_preamble {labels : List Text} (hnone : [] ∉ labels) (hspace : [' '] ∉ labels)
    (hline : ['\n'] ∉ labels) : Quiet labels (query.preamble layout) := by
  refine forall_preamble (fun _ _ => hnone) hnone fun c hc => ?_
  have hblank := @quiet_marks labels [c] (List.forall_mem_singleton.mpr hc) hspace hline
  exact hblank (mark c) List.mem_cons_self

/-- No group is opened or closed in front of a statement. -/
theorem balance_preamble (depth : Nat) : balance depth (query.preamble layout) = some depth := by
  have hopened : ∀ lexeme ∈ query.preamble layout, openedBy depth lexeme = some depth := by
    refine forall_preamble (fun _ _ => rfl) rfl fun c hc => ?_
    have hspacer := isDelimiter_of_isSpacer (isSpacer_of_isLayoutBlank hc).1
    rw [openedBy, if_neg hspacer.2.2.1, if_neg hspacer.2.2.2]
  generalize query.preamble layout = lexemes at hopened
  induction lexemes with
  | nil => rfl
  | cons lexeme rest ih =>
      obtain ⟨hfirst, hothers⟩ := List.forall_mem_cons.mp hopened
      rw [balance, hfirst]
      exact ih hothers

theorem narrow_preamble : Narrow (query.preamble layout) := by
  refine forall_preamble (fun _ _ hcode => absurd hcode Bool.false_ne_true)
    (fun hcode => absurd hcode Bool.false_ne_true) fun c hc _ => List.forall_mem_singleton.mpr ?_
  exact .inl (toNat_lt_of_isPlainMark (isDelimiter_of_isSpacer (isSpacer_of_isLayoutBlank hc).1).2.1)

/-- The quoted pieces of a statement with its comments are its string literals. -/
theorem filter_quoted (layout : Layout) (query : Query) :
    (query.preamble layout ++ query.lexemes layout).filter
        (fun lexeme => lexeme.kind == .quoted .single) =
      query.writtenStrings.map fun value => Lexeme.literal .single value.toList := by
  have hpreamble : (query.preamble layout).filter
      (fun lexeme => lexeme.kind == .quoted .single) = [] := by
    rw [List.filter_eq_nil_iff]
    intro lexeme hmem hquoted
    rw [beq_iff_eq] at hquoted
    rcases kind_of_mem_preamble lexeme hmem with hkind | hkind <;>
      simp [hquoted, SpanKind.isComment] at hkind
  have hpiece : ∀ lexeme : Lexeme,
      ((lexeme.kind == .quoted .single) && !lexeme.isCode) = (lexeme.kind == .quoted .single) := by
    intro lexeme
    cases lexeme <;> simp [kind, isCode]
  have hstatement := congrArg (List.filter fun lexeme => lexeme.kind == .quoted .single)
    (query.literalsOf_lexemes layout)
  rw [literalsOf, List.filter_filter] at hstatement
  simp only [hpiece] at hstatement
  rw [List.filter_append, hpreamble, List.nil_append, hstatement, List.filter_eq_self]
  intro lexeme hmem
  obtain ⟨value, -, rfl⟩ := List.mem_map.mp hmem
  rfl

theorem filter_comments (layout : Layout) (query : Query) :
    (query.preamble layout ++ query.lexemes layout).filter
        (fun lexeme => lexeme.kind.isComment) =
      (query.preamble layout).filter fun lexeme => lexeme.kind.isComment := by
  have hstatement : (query.lexemes layout).filter (fun lexeme => lexeme.kind.isComment) = [] := by
    rw [List.filter_eq_nil_iff]
    intro lexeme hmem
    simp [isComment_of_mem_lexemes lexeme hmem]
  rw [List.filter_append, hstatement, List.append_nil]

theorem not_mem_code {lexemes : List Lexeme} {c : Char} (hlexed : Lexed none lexemes)
    (hc : Text.isWordChar c = false) (hquiet : Quiet [[c]] lexemes) :
    c ∉ Text.code (textOf lexemes) := by
  rw [hlexed.code_textOf]
  intro hmem
  obtain ⟨lexeme, hlexeme, hmem⟩ := List.mem_flatMap.mp hmem
  obtain ⟨hlexeme, hcode⟩ := List.mem_filter.mp hlexeme
  exact (hlexed.isProper lexeme hlexeme).not_mem_text hcode hc
    (ne_mark_of_quiet hquiet lexeme hlexeme) hmem

/-- The code of a written text is ASCII, apart from the digits of other scripts. -/
theorem narrow_code (hwritten : query.IsWritten) :
    ∀ c ∈ Text.code (query.render layout).toList, c.toNat < 0x80 ∨ Text.isDecimal c = true := by
  have hlexed := @lexed_preamble query layout hwritten
  have hnarrow : Narrow (query.preamble layout ++ query.lexemes layout) :=
    narrow_append.mpr ⟨narrow_preamble, (solid_lexemes hwritten).narrow⟩
  rw [← textOf_preamble, hlexed.code_textOf]
  intro c hmem
  obtain ⟨lexeme, hlexeme, hc⟩ := List.mem_flatMap.mp hmem
  obtain ⟨hlexeme, hcode⟩ := List.mem_filter.mp hlexeme
  exact hnarrow lexeme hlexeme hcode c hc

/-- The text of a query that can be written is sealed. -/
theorem isSealed_render_of_isWritten (hwritten : query.IsWritten) :
    query.IsSealed layout (query.render layout).toList := by
  have hlexed := @lexed_preamble query layout hwritten
  have hquoted := congrArg (List.map Prod.snd)
    (@Lexed.map_spansOfKind _ (· == .quoted .single) hlexed rfl)
  have hcomments := congrArg (List.map Prod.fst)
    (@Lexed.map_spansOfKind _ SpanKind.isComment hlexed rfl)
  have hmarks : ∀ c, c = ';' ∨ c = '?' →
      c ∉ Text.code (textOf (query.preamble layout ++ query.lexemes layout)) := by
    rintro c (rfl | rfl) <;>
      exact not_mem_code hlexed (by decide) (quiet_append.mpr
        ⟨quiet_preamble (by decide) (by decide) (by decide),
          quiet_lexemes hwritten (by decide) (by decide)⟩)
  simp only [filter_quoted, List.map_map, Function.comp_def] at hquoted
  simp only [filter_comments, List.map_map, Function.comp_def] at hcomments
  rw [← textOf_preamble]
  constructor
  · rw [hlexed.spans_textOf]
    exact terminated_spansOf 0 _
  · rw [hlexed.spans_textOf]
    intro span hmem hdouble
    obtain ⟨lexeme, hlexeme, hkind⟩ := kind_of_mem_spansOf hmem
    rw [hdouble] at hkind
    rcases List.mem_append.mp hlexeme with hlexeme | hlexeme
    · rcases kind_of_mem_preamble lexeme hlexeme with hother | hother <;>
        simp [hkind, SpanKind.isComment] at hother
    · rcases kind_of_mem_lexemes lexeme hlexeme with hother | hother <;>
        simp [hkind] at hother
  · rw [hquoted]
    exact List.map_congr_left fun value _ => (String.toList_ofList).symm
  · have hvalues := congrArg (List.map Text.unquote) hquoted
    simp only [List.map_map, Function.comp_def, Lexeme.text, Text.unquote_enclose] at hvalues
    exact hvalues
  · rw [hcomments]
    exact kinds_preamble layout query
  · refine ⟨_, occurrences_select hwritten hlexed
      (quiet_preamble (by decide) (by decide) (by decide)), ?_⟩
    rw [hlexed.spans_textOf]
    have hstop := @stop_le_of_isComment (query.preamble layout) _ 0
      (@isComment_of_mem_lexemes query layout)
    simpa using hstop
  · intro c hc
    constructor
    · rintro rfl
      exact hmarks _ (.inl rfl) hc
    · rintro rfl
      exact hmarks _ (.inr rfl) hc
  · rw [hlexed.code_textOf]
    refine Text.balanced_of_depthBehind (depthBehind_code hlexed.isProper ?_)
    rw [balance_append, balance_preamble]
    exact (solid_lexemes hwritten).balanced

/-- The text of a query that passed the checks is sealed, under every layout. -/
theorem isSealed_render (layout : Layout) (query : Query) (hnone : query.problems = []) :
    query.IsSealed layout (query.render layout).toList :=
  isSealed_render_of_isWritten (isWritten_of_problems_eq_nil hnone)

/-- A literal that tries to close itself and to begin a second statement. -/
theorem isSealed_render_hostile_literal :
    let query : Query :=
      { columns := [{ term := { column := "*" } }]
        tables := [{ tableName := "users", aliasName := some "u" }]
        filters := [{
          term := { table := some "u", column := "name" }
          operator := .like
          value := some (.string "x'; DROP TABLE users; -- \"") }] }
    let layout : Layout := { comments := true }
    query.problems = [] ∧ query.IsSealed layout (query.render layout).toList :=
  ⟨by decide +kernel, isSealed_render _ _ (by decide +kernel)⟩

end Query

end SelectForm

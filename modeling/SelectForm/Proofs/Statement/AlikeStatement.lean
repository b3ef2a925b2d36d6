import Mathlib
import SelectForm.Statement.Parse
import SelectForm.Proofs.Statement.WholeStatement
import SelectForm.Proofs.Statement.AlikeClause

/-!
# Reading alike statements

Alike statements pass the checks of the whole statement together: a semicolon, a
parenthesis and a question mark stand at the same places of both, and so do the words that
are not supported.  What is left is read clause by clause.  So if the smallest parts of two
alike statements are read alike, then the statements are: both are refused, or both are
queries that are like each other.
-/

namespace SelectForm

open Lexeme

/-! ## Closed texts -/

namespace Statement

/-- A text is refused as unclosed exactly if a literal or a comment is left open at its
end. -/
theorem rejectUnclosed_eq_ok_iff {text : Text} :
    rejectUnclosed text = .ok () ↔ text.endsOpen = false := by
  have hfind : rejectUnclosed text = .ok () ↔
      text.spans.find? (fun span => !span.terminated) = none := by
    unfold rejectUnclosed
    split
    · simp [*]
    · simp [*]
  rw [hfind, List.find?_eq_none]
  constructor
  · intro hterminated
    by_contra hopen
    have htext : text.cells ≠ [] := by
      rintro hnil
      have hback := Mode.text_cells .between text
      rw [show Mode.between.cells text = [] from hnil] at hback
      obtain rfl : text = [] := hback.symm
      exact hopen rfl
    obtain ⟨span, hmem, hspan⟩ := @Span.exists_not_terminated 0 _ htext
    rw [← Bool.eq_true_of_not_eq_false hopen] at hmem
    exact hterminated span hmem (by rw [hspan]; rfl)
  · intro hclosed span hmem
    rw [Text.spans, hclosed] at hmem
    simp [Span.terminated_of_mem hmem]

end Statement

theorem Query.exists_error_of_endsOpen {text : Text} (hopen : text.endsOpen = true) :
    ∃ failed, ofText text = .error failed := by
  unfold ofText
  cases hreject : Statement.rejectUnclosed text with
  | error failed => exact ⟨failed, rfl⟩
  | ok _ =>
      rw [Statement.rejectUnclosed_eq_ok_iff.mp hreject] at hopen
      exact absurd hopen (by decide)

/-- Two searches that find something together. -/
theorem eq_none_or_exists_of_isSome_eq {α β : Type} {found : Option α} {found' : Option β}
    (hsame : found.isSome = found'.isSome) :
    (found = none ∧ found' = none) ∨ ∃ value value', found = some value ∧ found' = some value' := by
  cases found with
  | none => exact .inl ⟨rfl, Option.isNone_iff_eq_none.mp (Option.isSome_eq_false_iff.mp hsame.symm)⟩
  | some value =>
      obtain ⟨value', hvalue'⟩ := Option.isSome_iff_exists.mp hsame.symm
      exact .inr ⟨value, value', rfl, hvalue'⟩

/-! ## The statement in front of a semicolon -/

variable {R : Lexeme → Lexeme → Prop} {stretch : Prop} {row row' : List Lexeme}

namespace Lexeme

/-- A piece that is no semicolon of code. -/
def isInner (lexeme : Lexeme) : Bool := !lexeme.isMark (· == ';')

theorem isInner_eq {lexeme other : Lexeme} (hmatch : lexeme.Matches other) :
    lexeme.isInner = other.isInner := by
  rw [isInner, isInner, hmatch.isMark_eq fun c d hupper => ?_]
  refine @Text.test_eq_of_toUpper (· == ';') c d false (fun e he => ?_) hupper
  rw [beq_eq_false_iff_ne]
  rintro rfl
  exact absurd he (by decide)

/-- The cells in front of a semicolon are those of the row in front of it. -/
theorem Atomic.takeWhile_cellsOf (fresh : Bool) (hatomic : Atomic row) :
    ((cellsOf fresh row).takeWhile fun cell => !cell.isCodeChar ';').length =
      (textOf (row.takeWhile isInner)).length := by
  induction row generalizing fresh with
  | nil => rfl
  | cons lexeme row ih =>
      obtain ⟨hatom, hrow⟩ := atomic_cons.mp hatomic
      have hrest := ih (!lexeme.isCode) hrow
      have hinside : lexeme.isInner = true → ∀ cell ∈ lexeme.cells fresh, (!cell.isCodeChar ';') = true := by
        intro hinner cell hmem
        have hkind := kind_of_mem_cells hmem
        cases lexeme with
        | mark c =>
            have hc : cell = ⟨c, .code, fresh⟩ := by simpa [cells, text, kind, isCode] using hmem
            rw [hc]
            simpa [Cell.isCodeChar, Cell.isCode, isInner, isMark] using hinner
        | literal quote content => simp [Cell.isCodeChar, Cell.isCode, hkind, kind]
        | word _ | lineComment _ | blockComment _ => exact hatom.elim
      rw [cellsOf_cons]
      cases hinner : lexeme.isInner with
      | true =>
          rw [List.takeWhile_append_of_pos (hinside hinner), List.takeWhile_cons_of_pos hinner,
            textOf_cons, List.length_append, List.length_append, hrest]
          congr 1
          have htext := congrArg List.length (text_cells fresh lexeme)
          rwa [Cell.text, List.length_map] at htext
      | false =>
          cases lexeme with
          | mark c =>
              have hc : c = ';' := by simpa [isInner, isMark] using hinner
              subst hc
              rw [List.takeWhile_cons_of_neg (by simp [hinner])]
              rfl
          | literal quote content => simp [isInner, isMark] at hinner
          | word _ | lineComment _ | blockComment _ => exact hatom.elim

theorem textOf_drop_isInner (row : List Lexeme) :
    (textOf row).drop ((textOf (row.takeWhile isInner)).length + 1) =
      textOf ((row.dropWhile isInner).drop 1) := by
  have hsplit := congrArg textOf (@List.takeWhile_append_dropWhile _ isInner row)
  rw [textOf_append] at hsplit
  rw [← hsplit, ← List.drop_drop, List.drop_left]
  cases hdrop : row.dropWhile isInner with
  | nil => rfl
  | cons lexeme rest =>
      have hfirst := List.head?_dropWhile_not isInner row
      rw [hdrop] at hfirst
      cases lexeme with
      | mark c => rfl
      | word _ | literal _ _ | lineComment _ | blockComment _ => simp [isInner, isMark] at hfirst

end Lexeme

namespace Statement

/-- A statement ends before its first semicolon, behind which there are only blanks. -/
theorem single_textOf (hsound : Sound row) :
    single (textOf row) =
      if (textOf ((row.dropWhile isInner).drop 1)).all Text.isBlank then
        .ok (textOf (row.takeWhile isInner))
      else .error (((Fragment.mk (textOf row) 0).drop
        ((textOf (row.takeWhile isInner)).length + 1)).trim.error .multipleStatements none) := by
  have htake : (textOf row).take (textOf (row.takeWhile isInner)).length =
      textOf (row.takeWhile isInner) := by
    have hsplit := congrArg textOf (@List.takeWhile_append_dropWhile _ isInner row)
    rw [textOf_append] at hsplit
    rw [← hsplit, List.take_left]
  rw [single]
  simp only [hsound.cells_textOf, hsound.atomic.takeWhile_cellsOf, htake, Fragment.isBlank,
    Fragment.drop, textOf_drop_isInner]

theorem single_alike (hblind : Blind R) (hsound : Sound row) (hsound' : Sound row')
    (halike : Lexeme.Alike R stretch row row') :
    Agree (Text.Alike R stretch) (single (textOf row)) (single (textOf row')) := by
  have hno : ∀ c, Text.isAsciiBlank c = true → (mark c).isInner = true := by
    intro c hblank
    have hne : c ≠ ';' := by
      rintro rfl
      exact absurd hblank (by decide)
    simp [isInner, isMark, hne]
  obtain ⟨hfront, hback⟩ := @Lexeme.Alike.dropWhile R stretch row row' isInner true halike
    (fun _ _ hlexeme => isInner_eq (hblind _ _ hlexeme)) hno
  have hsuffix := hsound.part (List.dropWhile_suffix isInner).isInfix
  have hsuffix' := hsound'.part (List.dropWhile_suffix isInner).isInfix
  have hprefix := hsound.part (List.takeWhile_prefix isInner).isInfix
  have hprefix' := hsound'.part (List.takeWhile_prefix isInner).isInfix
  have hrest : Lexeme.Alike R stretch ((row.dropWhile isInner).drop 1)
      ((row'.dropWhile isInner).drop 1) := by
    have hfirst := List.head?_dropWhile_not isInner row
    generalize row.dropWhile isInner = back at hback hfirst
    generalize row'.dropWhile isInner = back' at hback
    cases hback with
    | nil => exact .nil
    | cons _ hrest => exact hrest
    | @gap gap _ _ _ _ hne _ hgap _ _ =>
        cases gap with
        | nil => exact absurd rfl hne
        | cons c gap => simp [marks, hno c (hgap c List.mem_cons_self)] at hfirst
  have hfragments : (Fragment.mk (textOf ((row.dropWhile isInner).drop 1)) 0).Alike R stretch
      (Fragment.mk (textOf ((row'.dropWhile isInner).drop 1)) 0) :=
    Fragment.alike_of_rows (hsuffix.part (List.drop_suffix 1 _).isInfix)
      (hsuffix'.part (List.drop_suffix 1 _).isInfix) rfl rfl hrest
  have hblank := hfragments.isBlank_eq hblind
  rw [Fragment.isBlank, Fragment.isBlank] at hblank
  rw [single_textOf hsound, single_textOf hsound', hblank]
  split
  · exact .ok ⟨_, _, hprefix, hprefix', rfl, rfl, hfront⟩
  · exact .error

/-! ## Parentheses -/

/-- Parentheses are balanced where the pieces are. -/
theorem isNone_unbalanced? {opened : List Nat} (offset : Nat) (fresh : Bool)
    (hatomic : Atomic row) :
    (unbalanced? opened offset (cellsOf fresh row)).isNone = decide (balance opened.length row = some 0) := by
  induction row generalizing opened offset fresh with
  | nil => cases opened <;> simp [unbalanced?, balance]
  | cons lexeme row ih =>
      obtain ⟨hatom, hrow⟩ := atomic_cons.mp hatomic
      cases lexeme with
      | mark c =>
          rw [cellsOf_mark, unbalanced?.eq_def]
          simp only [Cell.isCodeChar, Cell.isCode, beq_self_eq_true, Bool.true_and, beq_iff_eq, balance,
            openedBy]
          split
          · rw [ih _ _ hrow]
            rfl
          · split
            · cases opened with
              | nil => simp
              | cons last opened =>
                  simp only
                  rw [ih _ _ hrow]
                  rfl
            · rw [ih _ _ hrow]
              rfl
      | literal quote content =>
          have hplain : ∀ cell ∈ (literal quote content).cells fresh,
              cell.isCodeChar '(' = false ∧ cell.isCodeChar ')' = false := by
            intro cell hmem
            simp [Cell.isCodeChar, Cell.isCode, kind_of_mem_cells hmem, kind]
          rw [cellsOf_cons, unbalanced?_of_plain hplain, ih _ _ hrow]
          rfl
      | word _ | lineComment _ | blockComment _ => exact hatom.elim

theorem balance_gap {gap : Text} {depth : Nat} (hgap : ∀ c ∈ gap, Text.isAsciiBlank c = true) :
    balance depth (marks gap ++ row) = balance depth row := by
  induction gap with
  | nil => rfl
  | cons c gap ih =>
      obtain ⟨hc, hgap⟩ := List.forall_mem_cons.mp hgap
      have hne : ∀ d : Char, Text.isAsciiBlank d = false → mark c ≠ mark d := by
        intro d hd heq
        injection heq with heq
        rw [← heq, hc] at hd
        exact absurd hd (by decide)
      rw [marks, List.map_cons, List.cons_append, balance,
        openedBy_of_ne (hne '(' (by decide)) (hne ')' (by decide))]
      exact ih hgap

theorem balance_alike {depth : Nat} (hblind : Blind R) (halike : Lexeme.Alike R stretch row row') :
    balance depth row = balance depth row' := by
  induction halike generalizing depth with
  | nil => rfl
  | @cons lexeme other row row' hlexeme _ ih =>
      have hmatch := hblind _ _ hlexeme
      have hopened : openedBy depth lexeme = openedBy depth other := by
        have hopen := hmatch.eq_mark_iff (show '('.isAlpha = false from rfl)
        have hclose := hmatch.eq_mark_iff (show ')'.isAlpha = false from rfl)
        by_cases hleft : lexeme = mark '('
        · rw [hleft, hopen.mp hleft]
        · by_cases hright : lexeme = mark ')'
          · rw [hright, hclose.mp hright]
          · rw [openedBy_of_ne hleft hright,
              openedBy_of_ne (mt hopen.mpr hleft) (mt hclose.mpr hright)]
      rw [balance, balance, hopened]
      simp only [ih]
  | gap _ _ _ hgap hgap' _ ih => rw [balance_gap hgap, balance_gap hgap', ih]

theorem rejectUnbalanced_alike (hblind : Blind R) (hsound : Sound row) (hsound' : Sound row')
    (halike : Lexeme.Alike R stretch row row') :
    Agree Eq (rejectUnbalanced (textOf row)) (rejectUnbalanced (textOf row')) := by
  have hnone := @isNone_unbalanced? row [] 0 true hsound.atomic
  have hnone' := @isNone_unbalanced? row' [] 0 true hsound'.atomic
  rw [balance_alike hblind halike, ← hnone', ← Option.not_isSome, ← Option.not_isSome,
    Bool.not_inj_iff] at hnone
  unfold rejectUnbalanced
  rw [hsound.cells_textOf, hsound'.cells_textOf]
  rcases eq_none_or_exists_of_isSome_eq hnone with ⟨hfound, hfound'⟩ | ⟨_, _, hfound, hfound'⟩
  · rw [hfound, hfound']
    exact .ok rfl
  · rw [hfound, hfound']
    exact .error

/-! ## Constructs that are not supported -/

theorem isSome_questionMark? (offset : Nat) (fresh : Bool) (hatomic : Atomic row) :
    (questionMark? offset (cellsOf fresh row)).isSome = row.any (· == mark '?') := by
  induction row generalizing offset fresh with
  | nil => rfl
  | cons lexeme row ih =>
      obtain ⟨hatom, hrow⟩ := atomic_cons.mp hatomic
      cases lexeme with
      | mark c =>
          rw [cellsOf_mark, questionMark?, List.any_cons]
          by_cases hc : c = '?'
          · simp [Cell.isCodeChar, Cell.isCode, hc]
          · simp [Cell.isCodeChar, hc, ih _ false hrow]
      | literal quote content =>
          have hskip : ∀ (offset : Nat) (front rest : List Cell),
              (∀ cell ∈ front, cell.isCodeChar '?' = false) → ∃ behind,
                questionMark? offset (front ++ rest) = questionMark? behind rest := by
            intro offset front rest hfront
            induction front generalizing offset with
            | nil => exact ⟨offset, rfl⟩
            | cons cell front ih =>
                obtain ⟨hcell, hfront⟩ := List.forall_mem_cons.mp hfront
                rw [List.cons_append, questionMark?, hcell]
                exact ih _ hfront
          obtain ⟨behind, heq⟩ := hskip offset ((literal quote content).cells fresh)
            (cellsOf true row) (by
              intro cell hmem
              simp [Cell.isCodeChar, Cell.isCode, kind_of_mem_cells hmem, kind])
          have hcode : (!(literal quote content).isCode) = true := rfl
          rw [cellsOf_cons, hcode, heq, ih _ _ hrow, List.any_cons]
          rfl
      | word _ | lineComment _ | blockComment _ => exact hatom.elim

theorem any_questionMark_alike (hblind : Blind R) (halike : Lexeme.Alike R stretch row row') :
    row.any (· == mark '?') = row'.any (· == mark '?') := by
  induction halike with
  | nil => rfl
  | cons hlexeme _ ih =>
      have hsame := (hblind _ _ hlexeme).eq_mark_iff (show '?'.isAlpha = false from rfl)
      rw [List.any_cons, List.any_cons, ih]
      congr 1
      rw [Bool.eq_iff_iff, beq_iff_eq, beq_iff_eq, hsame]
  | @gap gap gap' row row' _ _ _ hgap hgap' _ ih =>
      have hno : ∀ gap : Text, (∀ c ∈ gap, Text.isAsciiBlank c = true) →
          (marks gap).any (· == mark '?') = false := by
        intro gap hgap
        rw [List.any_eq_false]
        intro lexeme hmem heq
        obtain ⟨c, hc, rfl⟩ := List.mem_map.mp hmem
        obtain rfl : c = '?' := by simpa using heq
        exact absurd (hgap _ hc) (by decide)
      rw [List.any_append, List.any_append, hno gap hgap, hno gap' hgap', ih]

end Statement

namespace Fragment

variable {keyword : Keyword} {before before' : Option Char}

/-- A piece at which the keyword does not stand is passed over. -/
theorem occurrences_go_pass (hplain : keyword.isPlain = true) {lexeme : Lexeme}
    (start : Nat) (fresh : Bool) (hatomic : Atomic (lexeme :: row))
    (hnone : keyword.rest? before (lexeme :: row) = none) :
    occurrences.go keyword 0 before start (cellsOf fresh (lexeme :: row)) =
      occurrences.go keyword 0 (lastOf before [lexeme]) (start + Text.size lexeme.text)
        (cellsOf (!lexeme.isCode) row) := by
  have hlength := @Keyword.length?_cellsOf_row keyword before _ fresh hplain hatomic
  rw [hnone, Option.map_none] at hlength
  cases lexeme with
  | mark c =>
      rw [cellsOf_mark] at hlength ⊢
      rw [occurrences_go_cons hlength]
      rfl
  | literal quote content =>
      rw [cellsOf_cons, occurrences_go_of_not_isCode hplain, text_cells]
      · rfl
      · intro cell hmem
        simp [Cell.isCode, kind_of_mem_cells hmem, kind]
  | word _ | lineComment _ | blockComment _ => exact (atomic_cons.mp hatomic).1.elim

theorem occurrences_go_gap (hfirm : keyword.isFirm = true) {gap : Text} (start : Nat) (fresh : Bool)
    (hne : gap ≠ []) (hatomic : Atomic row) (hgap : ∀ c ∈ gap, Text.isAsciiBlank c = true) :
    ∃ behind, occurrences.go keyword 0 before start (cellsOf fresh (marks gap ++ row)) =
      occurrences.go keyword 0 (lastOf before (marks gap)) behind (cellsOf false row) := by
  induction gap generalizing before start fresh with
  | nil => exact absurd rfl hne
  | cons c gap ih =>
      obtain ⟨hc, hgap⟩ := List.forall_mem_cons.mp hgap
      have hpass := occurrences_go_pass (Keyword.isPlain_of_isFirm hfirm) start fresh
        (atomic_append.mpr ⟨atomic_marks (c :: gap), hatomic⟩)
        (@Keyword.rest?_of_isAsciiBlank keyword before _ c hfirm hc)
      by_cases hnil : gap = []
      · subst hnil
        exact ⟨_, hpass⟩
      · obtain ⟨behind, hbehind⟩ := @ih (lastOf before [mark c]) (start + Text.size (mark c).text)
          (!(mark c).isCode) hnil hgap
        exact ⟨behind, hpass.trans hbehind⟩

/-- A keyword that stands in front of a row is one occurrence. -/
theorem occurrences_go_mark (hplain : keyword.isPlain = true) {c : Char} {text : Text}
    {back : List Lexeme} (start : Nat) (fresh : Bool) (hatomic : Atomic (marks (c :: text) ++ back))
    (hrest : keyword.rest? before (marks (c :: text) ++ back) = some back) :
    ∃ place behind, occurrences.go keyword 0 before start (cellsOf fresh (marks (c :: text) ++ back)) =
      place :: occurrences.go keyword 0 (lastOf before (marks (c :: text))) behind
        (cellsOf false back) := by
  have hlength := @Keyword.length?_cellsOf_row keyword before _ fresh hplain hatomic
  rw [hrest, Option.map_some, textOf_append, textOf_marks, List.length_append, Nat.add_sub_cancel,
    List.length_cons, cellsOf_marks_append] at hlength
  have hskip := fun start => @occurrences_go_skip keyword (some c) start
    (text.map (⟨·, .code, false⟩)) (cellsOf false back)
  have hmap : Cell.text (text.map fun d => ⟨d, .code, false⟩) = text := by
    simp [Cell.text, Function.comp_def]
  rw [List.length_map, hmap] at hskip
  rw [cellsOf_marks_append, occurrences.go]
  simp only [hlength, hskip]
  rw [lastOf_eq, textOf_marks, Text.getLast?_cons_or]
  exact ⟨_, _, rfl⟩

/-- A keyword occurs in alike texts equally often. -/
theorem length_occurrences_alike (hblind : Blind R) (hfirm : keyword.isFirm = true)
    (start start' : Nat) (fresh fresh' : Bool) (hatomic : Atomic row) (hatomic' : Atomic row')
    (hbefore : before.any Text.isWordChar = before'.any Text.isWordChar)
    (halike : Lexeme.Alike R stretch row row') :
    (occurrences.go keyword 0 before start (cellsOf fresh row)).length =
      (occurrences.go keyword 0 before' start' (cellsOf fresh' row')).length := by
  have hplain := Keyword.isPlain_of_isFirm hfirm
  -- An occurrence takes a whole keyword off both rows, and a gap any number of blanks.
  induction hlength : row.length using Nat.strong_induction_on
    generalizing row row' before before' start start' fresh fresh' with
  | _ length ih =>
      rcases Keyword.rest?_alike_cases hblind hfirm hbefore halike with ⟨hrest, hrest'⟩ |
          ⟨c, text, back, d, text', back', rfl, rfl, hrest, hrest', hmarks, hbacks⟩
      · cases halike with
        | nil => rfl
        | @cons lexeme other row row' hlexeme hrow =>
            rw [List.length_cons] at hlength
            have hone : Lexeme.Alike R stretch [lexeme] [other] := .cons hlexeme .nil
            rw [occurrences_go_pass hplain start fresh hatomic hrest,
              occurrences_go_pass hplain start' fresh' hatomic' hrest']
            exact ih row.length (by omega) _ _ _ _ (atomic_cons.mp hatomic).2
              (atomic_cons.mp hatomic').2 (hone.lastOf_isWordChar hblind hbefore) hrow rfl
        | @gap gap gap' row row' _ hne hne' hgap hgap' hrow =>
            have hback := (atomic_append.mp hatomic).2
            have hback' := (atomic_append.mp hatomic').2
            obtain ⟨behind, hgo⟩ :=
              @occurrences_go_gap row keyword before hfirm gap start fresh hne hback hgap
            obtain ⟨behind', hgo'⟩ :=
              @occurrences_go_gap row' keyword before' hfirm gap' start' fresh' hne' hback' hgap'
            have hshort : row.length < length := by
              have hpos := List.length_pos_of_ne_nil hne
              rw [List.length_append, marks, List.length_map] at hlength
              omega
            rw [hgo, hgo']
            exact ih row.length hshort _ _ _ _ hback hback'
              ((Cuts.lastOf_gap hne hgap).trans (Cuts.lastOf_gap hne' hgap').symm) hrow rfl
      · obtain ⟨place, behind, hgo⟩ := occurrences_go_mark hplain start fresh hatomic hrest
        obtain ⟨place', behind', hgo'⟩ := occurrences_go_mark hplain start' fresh' hatomic' hrest'
        have hshort : back.length < length := hlength ▸ Keyword.length_lt_of_rest? hplain hrest
        rw [hgo, hgo', List.length_cons, List.length_cons,
          ih back.length hshort _ _ _ _ (atomic_append.mp hatomic).2 (atomic_append.mp hatomic').2
            (hmarks.lastOf_isWordChar hblind hbefore) hbacks rfl]

end Fragment

namespace Statement

theorem isSome_findSome?_congr {α β γ : Type} {first : α → Option β} {second : α → Option γ}
    {entries : List α} (hsame : ∀ entry ∈ entries, (first entry).isSome = (second entry).isSome) :
    (entries.findSome? first).isSome = (entries.findSome? second).isSome := by
  induction entries with
  | nil => rfl
  | cons entry entries ih =>
      obtain ⟨hentry, hentries⟩ := List.forall_mem_cons.mp hsame
      rw [List.findSome?_cons, List.findSome?_cons]
      rcases eq_none_or_exists_of_isSome_eq hentry with ⟨hfirst, hsecond⟩ | ⟨_, _, hfirst, hsecond⟩
      · rw [hfirst, hsecond]
        exact ih hentries
      · rw [hfirst, hsecond]
        rfl

theorem rejectUnsupported_alike (hblind : Blind R) (hsound : Sound row) (hsound' : Sound row')
    (halike : Lexeme.Alike R stretch row row') :
    Agree Eq (rejectUnsupported (textOf row)) (rejectUnsupported (textOf row')) := by
  have hheads : ∀ entry ∈ rejectedHeads, entry.1.isFirm = true := by decide
  have hwords : ∀ entry ∈ rejectedWords, entry.1.isFirm = true := by decide
  have hwhole : (Fragment.mk (textOf row) 0).Alike R stretch (Fragment.mk (textOf row') 0) :=
    Fragment.alike_of_rows hsound hsound' rfl rfl halike
  have hskip := hwhole.skipAsciiBlanks hblind
  have hsame : (unsupported? (textOf row)).isSome = (unsupported? (textOf row')).isSome := by
    unfold unsupported?
    simp only [Option.isSome_or, Option.isSome_map, hsound.cells_textOf, hsound'.cells_textOf,
      isSome_questionMark? 0 true hsound.atomic, isSome_questionMark? 0 true hsound'.atomic,
      any_questionMark_alike hblind halike]
    congr 1
    · refine isSome_findSome?_congr fun entry hmem => ?_
      have hfound := @Fragment.Alike.length? R stretch _ _ entry.1 hblind (hheads entry hmem) hskip
      simp only [Option.isSome_map]
      generalize entry.1.length? none (Fragment.mk (textOf row) 0).skipAsciiBlanks.text.cells = found
        at hfound
      generalize entry.1.length? none (Fragment.mk (textOf row') 0).skipAsciiBlanks.text.cells =
        found' at hfound
      cases hfound with
      | none => rfl
      | some _ => rfl
    · congr 1
      refine isSome_findSome?_congr fun entry hmem => ?_
      have hlength := @Fragment.length_occurrences_alike R stretch row row' entry.1 none none hblind
        (hwords entry hmem) 0 0 true true hsound.atomic hsound'.atomic rfl halike
      simp only [Option.isSome_map, Fragment.occurrences, hsound.cells_textOf, hsound'.cells_textOf]
      rw [Bool.eq_iff_iff, isSome_getElem?, isSome_getElem?, hlength]
  unfold rejectUnsupported
  rcases eq_none_or_exists_of_isSome_eq hsame with ⟨hfound, hfound'⟩ | ⟨_, _, hfound, hfound'⟩
  · rw [hfound, hfound']
    exact .ok rfl
  · rw [hfound, hfound']
    exact .error

end Statement

/-! ## Whole statements -/

/-- Closed texts that are alike once their comments are masked are read alike. -/
theorem Query.ofText_alike {like : Likeness} {text text' : Text} (hblind : Blind R)
    (hreads : like.Reads R stretch) (hclosed : text.endsOpen = false)
    (hclosed' : text'.endsOpen = false)
    (halike : Text.Alike R stretch text.maskComments text'.maskComments) :
    Agree (Query.Like like) (ofText text) (ofText text') := by
  obtain ⟨row, row', hsound, hsound', htext, htext', hrows⟩ := halike
  unfold ofText
  rw [Statement.rejectUnclosed_eq_ok_iff.mpr hclosed, Statement.rejectUnclosed_eq_ok_iff.mpr hclosed',
    ← htext, ← htext']
  refine (Statement.single_alike hblind hsound hsound' hrows).bind fun single single' hsingle => ?_
  obtain ⟨row, row', hsound, hsound', rfl, rfl, hrows⟩ := id hsingle
  refine (Statement.rejectUnbalanced_alike hblind hsound hsound' hrows).bind fun _ _ _ => ?_
  refine (Statement.rejectUnsupported_alike hblind hsound hsound' hrows).bind fun _ _ _ => ?_
  refine (LocatedClause.locate_alike hblind hsingle).bind fun clauses clauses' hclauses => ?_
  exact Statement.foldlM_readClause_alike hblind hreads (Query.like_empty like) hclauses

end SelectForm

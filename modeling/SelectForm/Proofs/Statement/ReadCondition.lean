import Mathlib
import SelectForm.Statement.Condition
import SelectForm.Proofs.Sql.StatementParts
import SelectForm.Proofs.Statement.ReadItem
import SelectForm.Proofs.Statement.ReadOperand

/-!
# Reading written conditions

A condition is read in four steps: a negation around it is taken off, what is left
must be a single condition, the operator splits it, and both sides are read.  A
negation around the condition and one in front of its operator exclude each other
in writing, so what is left behind the first step is written without the former.
-/

namespace SelectForm

open Lexeme

namespace Condition

/-! ## The negation around a condition -/

/-- Whether a condition is written with a negation around it. -/
def isWrapped (condition : Condition) : Bool :=
  condition.negated && !takesNot condition.operator

/-- The condition inside its negation. -/
def unwrapped (condition : Condition) : Condition :=
  { condition with negated := condition.negated && takesNot condition.operator }

variable {clause : Clause} {condition : Condition} {spelling : Spelling}

theorem IsWritten.unwrapped (hwritten : condition.IsWritten clause) :
    condition.unwrapped.IsWritten clause :=
  ⟨hwritten.term, hwritten.operands, hwritten.slots⟩

theorem spelledBody_unwrapped :
    condition.unwrapped.spelledBody spelling = condition.spelledBody spelling := by
  simp [spelledBody, negationLexemes, unwrapped, spelledOperands, spelledValues]

theorem spelledLexemes_unwrapped :
    condition.unwrapped.spelledLexemes spelling = condition.spelledBody spelling := by
  rw [← spelledBody_unwrapped, spelledLexemes]
  simp [unwrapped]

theorem exists_spelledBody_eq_cons (hwritten : condition.IsWritten clause) :
    ∃ first rest, condition.spelledBody spelling = first :: rest ∧ first ≠ mark '(' ∧
      first.label ≠ "NOT".toList := by
  obtain ⟨first, rest, hterm⟩ :=
    List.exists_cons_of_ne_nil (ColumnTerm.solid_lexemes hwritten.term).ne_nil
  have hmem : first ∈ condition.term.lexemes.head? := by simp [hterm]
  refine ⟨first, _, by rw [spelledBody, hterm, List.cons_append],
    condition.term.head_ne_paren first hmem,
    ColumnTerm.label_head_ne hwritten.term (by decide) first hmem⟩

/-- Nothing is taken off a condition that begins with its column. -/
theorem stripWithin_spelledBody (hwritten : condition.IsWritten clause) (bound : Nat)
    (negated : Bool) (start : Nat) :
    stripWithin bound negated ⟨textOf (condition.spelledBody spelling), start⟩ =
      (⟨textOf (condition.spelledBody spelling), start⟩, negated) := by
  have hsolid := @solid_spelledBody clause condition spelling hwritten
  obtain ⟨first, rest, hbody, hparen, hnot⟩ :=
    @exists_spelledBody_eq_cons clause condition spelling hwritten
  have htrim := Fragment.trim_of_tight hsolid.tight start
  rw [hbody] at hsolid htrim ⊢
  have hinside := Fragment.inside?_of_head hsolid hparen start
  have hlexed := hsolid.clean.lexed
  have hkeyword : Keyword.not_.length? none (textOf (first :: rest)).cells = none := by
    rw [hlexed.cells_textOf]
    refine Keyword.length?_eq_none none true rfl hlexed fun lexeme hmem => ?_
    obtain rfl : first = lexeme := by simpa using hmem
    exact hnot
  cases bound with
  | zero => rw [stripWithin, htrim]
  | succ bound =>
      rw [stripWithin, htrim]
      simp only [hinside, hkeyword]

/-- A group behind `NOT`. -/
def notGroup (body : List Lexeme) : List Lexeme :=
  word "NOT".toList :: mark ' ' :: mark '(' :: (body ++ [mark ')'])

theorem length?_not_notGroup {body : List Lexeme} (hsolid : Solid (notGroup body)) :
    Keyword.not_.length? none (textOf (notGroup body)).cells = some 3 := by
  have hlexed := hsolid.clean.lexed
  have hbehind : Keyword.not_.behind? (notGroup body) =
      some (mark ' ' :: mark '(' :: (body ++ [mark ')'])) := rfl
  rw [hlexed.cells_textOf, Keyword.length?_cellsOf true rfl (startsBehind_none _) hlexed, hbehind]
  simp [notGroup, Lexeme.text]

/-- Behind `NOT`, without the blank, stands the group. -/
theorem trim_drop_notGroup {body : List Lexeme} (hgroup : Solid (mark '(' :: (body ++ [mark ')'])))
    (start : Nat) :
    ((Fragment.mk (textOf (notGroup body)) start).drop 3).trim =
      ⟨textOf (mark '(' :: (body ++ [mark ')'])), start + Text.size "NOT ".toList⟩ := by
  have hdrop : (Fragment.mk (textOf (notGroup body)) start).drop 3 =
      ⟨[' '] ++ textOf (mark '(' :: (body ++ [mark ')'])) ++ [],
        start + Text.size "NOT".toList⟩ := by
    simp [Fragment.drop, notGroup, Lexeme.text]
  rw [hdrop, Fragment.trim_padded (fun c hc => by rw [List.mem_singleton.mp hc]; rfl)
    (List.forall_mem_nil _) hgroup.tight]
  rfl

/-- A negation around a condition is taken off. -/
theorem strip_spelled (hwritten : condition.IsWritten clause) (start : Nat) :
    ∃ place, strip ⟨textOf (condition.spelledLexemes spelling), start⟩ =
      (⟨textOf (condition.spelledBody spelling), place⟩, condition.isWrapped) := by
  rw [strip]
  cases hwrapped : condition.isWrapped with
  | false =>
      have hlexemes : condition.spelledLexemes spelling = condition.spelledBody spelling := by
        rw [isWrapped] at hwrapped
        rw [spelledLexemes, hwrapped]
        rfl
      rw [hlexemes]
      exact ⟨start, stripWithin_spelledBody hwritten _ false start⟩
  | true =>
      have hlexemes : condition.spelledLexemes spelling =
          notGroup (condition.spelledBody spelling) := by
        rw [isWrapped] at hwrapped
        rw [spelledLexemes, hwrapped]
        rfl
      have hsolid := @solid_spelledLexemes clause condition spelling hwritten
      have hgroup := (@solid_spelledBody clause condition spelling hwritten).group
      rw [hlexemes] at hsolid ⊢
      have hclosed : (Fragment.mk (textOf (notGroup (condition.spelledBody spelling)))
          start).inside? = none := Fragment.inside?_of_head hsolid (by simp) start
      have hopened := @Fragment.inside?_group (condition.spelledBody spelling) [] []
        (solid_spelledBody hwritten) (List.forall_mem_nil _) (List.forall_mem_nil _)
        (start + Text.size "NOT ".toList)
      rw [List.nil_append, List.append_nil] at hopened
      -- One step takes the `NOT` off and one the parentheses, so two are enough.
      obtain ⟨bound, hbound⟩ : ∃ bound,
          (textOf (notGroup (condition.spelledBody spelling))).length = bound + 2 :=
        ⟨(textOf (condition.spelledBody spelling)).length + 4, by simp [notGroup, Lexeme.text]⟩
      rw [hbound, stripWithin, Fragment.trim_of_tight hsolid.tight start]
      simp only [hclosed, length?_not_notGroup hsolid]
      rw [stripWithin, trim_drop_notGroup hgroup]
      simp only [hopened]
      rw [stripWithin_spelledBody hwritten]
      exact ⟨_, rfl⟩

/-! ## A single condition -/

/-- A condition is no chain of several ones. -/
theorem length_splitChain (hwritten : condition.IsWritten clause) (start : Nat) :
    ((Fragment.mk (textOf (condition.spelledBody spelling)) start).splitChain
      [.and, .or]).length = 1 := by
  have hproper := @isProper_spelledLink _ _ spelling hwritten.unwrapped
  have hparts := @Fragment.parts_splitChain [.and, .or] [] [' '] []
    (condition.unwrapped.spelledLink spelling) [] (by simp) (List.forall_mem_nil _)
    (by simp [isLayoutBlank]) (by simp) (List.forall_mem_nil _) hproper (List.forall_mem_nil _)
    start
  have hlength := congrArg List.length hparts
  rw [ChainLink.textOf_chain, lexemes_spelledLink, spelledLexemes_unwrapped] at hlength
  simpa using hlength

/-! ## The operator -/

/-- The entries of the operator finder. -/
def operatorEntries : List (Keyword × OperatorMark) :=
  [(.isNotNull, .operator .isNotNull), (.isNull, .operator .isNull), (.not_, .not),
    (.between, .operator .between), (.in_, .operator .inList), (.like, .operator .like),
    (.notEqual, .operator .notEqual), (.notEqualBang, .operator .notEqual),
    (.greaterOrEqual, .operator .greaterOrEqual),
    (.lessOrEqual, .operator .lessOrEqual), (.equal, .operator .equal),
    (.greater, .operator .greater), (.less, .operator .less)]

theorem isPlain_operatorEntries : ∀ entry ∈ operatorEntries, entry.1.isPlain = true := by
  decide

theorem operatorFinder_stopsAt : operatorFinder.StopsAt stops :=
  (Finder.ofKeywords_stopsAt isPlain_operatorEntries).mono (by decide)

/-- A symbol is not taken for a longer one, since a blank or nothing is behind it. -/
theorem operatorFinder_announces (bang : Bool) (operator : Operator) :
    operatorFinder.Announces (operator.spelledLexemes bang) (.operator operator) := by
  refine Finder.ofKeywords_announces isPlain_operatorEntries ?_ fun rest hgap => ?_
  · cases bang <;> cases operator <;> exact ⟨_, _, rfl, rfl, rfl⟩
  · cases rest with
    | nil => cases bang <;> cases operator <;> rfl
    | cons lexeme rest =>
        cases lexeme with
        | mark c =>
            have hblank : Text.isAsciiBlank c = true := hgap
            simp only [Text.isAsciiBlank, Bool.or_eq_true, beq_iff_eq] at hblank
            rcases hblank with (((rfl | rfl) | rfl) | rfl) | rfl <;> cases bang <;>
              cases operator <;> rfl
        | word _ | literal _ _ | lineComment _ | blockComment _ =>
            exact absurd hgap (by simp [isGap])

theorem operatorFinder_announces_not :
    operatorFinder.Announces [word "NOT".toList] .not :=
  Finder.ofKeywords_announces isPlain_operatorEntries ⟨_, _, rfl, rfl, rfl⟩ fun _ _ => rfl

/-- The entries of the finder of operators behind `NOT`. -/
def negatedEntries : List (Keyword × Operator) :=
  [(.between, .between), (.in_, .inList), (.like, .like)]

/-- The operator behind `NOT` and a space. -/
theorem negatedOperator?_written {front rest : List Lexeme} {operator : Operator}
    (hlexed : Lexed none (front ++ mark ' ' :: (operator.lexemes ++ rest)))
    (htakes : takesNot operator = true) :
    negatedOperator? (textOf (front ++ mark ' ' :: (operator.lexemes ++ rest)))
        (textOf front).length =
      some (operator, (textOf (front ++ mark ' ' :: operator.lexemes)).length) := by
  have hplain : ∀ entry ∈ negatedEntries, entry.1.isPlain = true := by decide
  have hspace : ∀ c ∈ [' '], Text.isBlank c = true := by simp [Text.isBlank]
  have htight := operator.solid_lexemes.tight
  have hhead : ∃ c ∈ (textOf (operator.lexemes ++ rest)).head?, Text.isBlank c = false := by
    rw [textOf_append, List.head?_append_of_ne_nil _ htight.ne_nil]
    exact htight.head
  have hwhole : front ++ mark ' ' :: (operator.lexemes ++ rest) =
      (front ++ [mark ' ']) ++ (operator.lexemes ++ rest) := by simp
  have hdrop : (textOf (front ++ mark ' ' :: (operator.lexemes ++ rest))).drop
      (textOf front).length = [' '] ++ textOf (operator.lexemes ++ rest) := by
    rw [textOf_append, List.drop_left]
    rfl
  have hleading : (Text.leading ([' '] ++ textOf (operator.lexemes ++ rest))).length = 1 := by
    rw [Text.leading_append hspace hhead]
    rfl
  have hstart : (textOf front).length + 1 = (textOf (front ++ [mark ' '])).length := by
    simp [Lexeme.text]
  have htake : (textOf (front ++ mark ' ' :: (operator.lexemes ++ rest))).take
      (textOf (front ++ [mark ' '])).length = textOf front ++ [' '] := by
    rw [hwhole, textOf_append _ (operator.lexemes ++ rest), List.take_left]
    simp [Lexeme.text]
  have hcells : (textOf (front ++ mark ' ' :: (operator.lexemes ++ rest))).cells.drop
      (textOf (front ++ [mark ' '])).length =
        cellsOf (freshBehind true (front ++ [mark ' '])) (operator.lexemes ++ rest) := by
    rw [hlexed.cells_textOf, hwhole, cellsOf_append, List.drop_left' (length_cellsOf _ _)]
  have hfound : Finder.behindAny? negatedEntries (operator.lexemes ++ rest) =
      some (operator, rest) := by
    cases operator <;> first | rfl | exact absurd htakes (by decide)
  rw [hwhole] at hlexed
  have hfind := Finder.ofKeywords_append (freshBehind true (front ++ [mark ' '])) hplain
    (startsBehind_of_any (by decide : (some ' ').any Text.isWordChar = false) _)
    (Lexed.append_iff.mp hlexed).2 hfound
  rw [negatedOperator?]
  simp only [hdrop, hleading]
  rw [hstart, htake, hcells, List.getLast?_concat, negatedFinder, ← negatedEntries, hfind]
  simp [Lexeme.text, Nat.add_assoc]
  omega

theorem quiet_front (hwritten : condition.IsWritten clause) :
    Quiet stops (condition.term.lexemes ++ [mark ' ']) ∧
      nestingOf (condition.term.lexemes ++ [mark ' ']) = 0 := by
  have hterm := ColumnTerm.solid_lexemes hwritten.term
  constructor
  · exact quiet_append.mpr ⟨ColumnTerm.quiet_lexemes hwritten.term,
      quiet_cons.mpr ⟨by decide, quiet_nil _⟩⟩
  · rw [nestingOf_append, hterm.nestingOf_eq]
    rfl

theorem trim_front (hwritten : condition.IsWritten clause) :
    Text.trim (textOf (condition.term.lexemes ++ [mark ' '])) = textOf condition.term.lexemes := by
  have htrim := @Solid.trim_eq condition.term.lexemes [] [' ']
    (ColumnTerm.solid_lexemes hwritten.term) (List.forall_mem_nil _) (by simp [isLayoutBlank])
  rw [textOf_append]
  exact htrim

theorem head?_spelledOperands :
    (condition.spelledOperands spelling).head?.all isGap = true := by
  rw [spelledOperands]
  cases condition.operator <;> rfl

/-- No `NOT` stands in front of the sign of inequality. -/
theorem ne_notEqual {operator : Operator} (htakes : takesNot operator = true) :
    operator ≠ .notEqual := by
  rintro rfl
  exact absurd htakes (by decide)

/-- A condition is split at its operator. -/
theorem splitOperator_spelled (hwritten : condition.IsWritten clause) (start : Nat) :
    ∃ split, splitOperator clause ⟨textOf (condition.spelledBody spelling), start⟩ = .ok split ∧
      Text.trim split.left.text = textOf condition.term.lexemes ∧
      split.operator = condition.operator ∧
      split.negated = (condition.negated && takesNot condition.operator) ∧
      split.right.text = textOf (condition.spelledOperands spelling) := by
  have hlexed := (@solid_spelledBody clause condition spelling hwritten).clean.lexed
  have htrim := trim_front hwritten
  obtain ⟨hquiet, hclosed⟩ := quiet_front hwritten
  rw [splitOperator]
  cases hnegated : condition.negated && takesNot condition.operator with
  | false =>
      have hbody : condition.spelledBody spelling = (condition.term.lexemes ++ [mark ' ']) ++
          (condition.operator.spelledLexemes spelling.bang ++
            condition.spelledOperands spelling) := by
        simp [spelledBody, negationLexemes, hnegated]
      rw [hbody] at hlexed ⊢
      obtain ⟨split, hsplit, hlabel, hbefore, -, hafter⟩ := Fragment.splitFirst?_of_mark
        operatorFinder_stopsAt (operatorFinder_announces spelling.bang condition.operator) hlexed
        hquiet hclosed head?_spelledOperands start
      simp only [hsplit, hlabel]
      exact ⟨_, rfl, by rw [hbefore, htrim], rfl, rfl, hafter⟩
  | true =>
      have htakes := (Bool.and_eq_true_iff.mp hnegated).2
      have hplain := Operator.spelledLexemes_of_ne spelling.bang (ne_notEqual htakes)
      have hbody : condition.spelledBody spelling = (condition.term.lexemes ++ [mark ' ']) ++
          ([word "NOT".toList] ++
            mark ' ' :: (condition.operator.lexemes ++ condition.spelledOperands spelling)) := by
        simp [spelledBody, negationLexemes, hnegated, hplain]
      rw [hbody] at hlexed ⊢
      obtain ⟨split, hsplit, hlabel, hbefore, hmark, -⟩ := Fragment.splitFirst?_of_mark
        operatorFinder_stopsAt operatorFinder_announces_not hlexed hquiet hclosed rfl start
      have hfront : (condition.term.lexemes ++ [mark ' ']) ++ ([word "NOT".toList] ++
          mark ' ' :: (condition.operator.lexemes ++ condition.spelledOperands spelling)) =
          (condition.term.lexemes ++ [mark ' ', word "NOT".toList]) ++
            mark ' ' :: (condition.operator.lexemes ++ condition.spelledOperands spelling) := by
        simp
      have hcount : split.before.text.length + split.mark.text.length =
          (textOf (condition.term.lexemes ++ [mark ' ', word "NOT".toList])).length := by
        rw [hbefore, hmark]
        simp [Lexeme.text, Nat.add_assoc]
      have hoperator := negatedOperator?_written (hfront ▸ hlexed) htakes
      simp only [hsplit, hlabel, hcount]
      rw [hfront, hoperator]
      refine ⟨_, rfl, by rw [hbefore, htrim], rfl, rfl, ?_⟩
      have hright : (condition.term.lexemes ++ [mark ' ', word "NOT".toList]) ++
          mark ' ' :: (condition.operator.lexemes ++ condition.spelledOperands spelling) =
          ((condition.term.lexemes ++ [mark ' ', word "NOT".toList]) ++
            mark ' ' :: condition.operator.lexemes) ++ condition.spelledOperands spelling := by
        simp
      rw [hright, textOf_append _ (condition.spelledOperands spelling)]
      exact List.drop_left

/-! ## The two sides -/

theorem readTerm_written (hwritten : condition.IsWritten clause) (hclause : clause ≠ .select)
    (hplain : clause = .where_ → condition.term.aggregate = none) {left : Fragment}
    (hleft : Text.trim left.text = textOf condition.term.lexemes) :
    readTerm clause left = .ok condition.term := by
  have hbare := OrderItem.isBareWildcard_of_isSpelled hwritten.term hclause
  have hread := @ColumnTerm.read_written clause clause condition.term left.text hwritten.term
    hleft left.start
  rw [ColumnTerm.canonical_of_not_isBareWildcard hbare] at hread
  have haggregate : ¬ (clause = .where_ ∧ condition.term.aggregate.isSome = true) := by
    rintro ⟨hwhere, hsome⟩
    simp [hplain hwhere] at hsome
  rw [readTerm, hread]
  simp [bind, Except.bind, hbare, haggregate]

theorem readSlot_spelled {operand : Operand} {quote : Quote} {pad trail : Text}
    (hwritten : operand.IsWritten) (hpad : ∀ c ∈ pad, isLayoutBlank c = true)
    (htrail : ∀ c ∈ trail, isLayoutBlank c = true) {fragment : Fragment}
    (htext : fragment.text = pad ++ textOf (operand.spelledLexemes quote) ++ trail) :
    Operand.read clause fragment = .ok operand := by
  have htrim := (Operand.solid_spelledLexemes hwritten quote).trim_eq hpad htrail
  rw [← htext] at htrim
  exact Operand.read_spelled hwritten htrim fragment.start

/-- The bounds of `BETWEEN` are split at their `AND`. -/
theorem splitFirst?_bounds {low high : List Lexeme} (hlow : Solid low ∧ Quiet stops low)
    (hhigh : Solid high) (start : Nat) :
    ∃ split, (Fragment.mk (textOf (mark ' ' :: (low ++
        mark ' ' :: word "AND".toList :: mark ' ' :: high))) start).splitFirst?
          (.ofKeyword .and_) = some split ∧
      split.before.text = [' '] ++ textOf low ++ [' '] ∧
      split.after.text = [' '] ++ textOf high ++ [] := by
  have hspace : ∀ c ∈ [' '], isSpacer c = true := by simp [isSpacer]
  have hand : Solid [word "AND".toList] := solid_keyword (by simp) rfl
  have hsolid := hlow.1.glue_space (hand.glue_space hhigh)
  have hlexed := (clean_marks_append hspace hsolid.clean).lexed
  have hannounces : (Finder.ofKeyword .and_).Announces [word "AND".toList] () :=
    Finder.ofKeywords_announces (by simp [Keyword.isPlain, Keyword.and_, Keyword.ofWords])
      ⟨_, _, rfl, rfl, rfl⟩ fun _ _ => rfl
  have hquiet : Quiet [Keyword.and_.firstLabel] (mark ' ' :: (low ++ [mark ' '])) := by
    have hlowQuiet := hlow.2.mono (by decide : [Keyword.and_.firstLabel] ⊆ stops)
    exact quiet_cons.mpr ⟨by decide, quiet_append.mpr ⟨hlowQuiet,
      quiet_cons.mpr ⟨by decide, quiet_nil _⟩⟩⟩
  have hclosed : nestingOf (mark ' ' :: (low ++ [mark ' '])) = 0 := by
    rw [nestingOf_cons, nestingOf_append, hlow.1.nestingOf_eq]
    rfl
  have hwhole : mark ' ' :: (low ++
      mark ' ' :: word "AND".toList :: mark ' ' :: high) =
      (mark ' ' :: (low ++ [mark ' '])) ++
        ([word "AND".toList] ++ mark ' ' :: high) := by simp
  rw [hwhole]
  obtain ⟨split, hsplit, -, hbefore, -, hafter⟩ := Fragment.splitFirst?_of_mark
    (Finder.ofKeyword_stopsAt rfl) hannounces (by simpa [marks] using hlexed) hquiet hclosed rfl
    start
  exact ⟨split, hsplit, by simp [hbefore, Lexeme.text], by simp [hafter, Lexeme.text]⟩

/-- The list of `IN` is taken apart into its values. -/
theorem texts_values (hne : condition.values ≠ []) (hwritten : condition.IsWritten clause)
    (start : Nat) :
    (Fragment.mk (textOf (spread [' '] (condition.spelledValues spelling))) start).splitList.map
        Fragment.text = (condition.spelledValues spelling).map textOf := by
  have hitems : ∀ item ∈ condition.spelledValues spelling, Solid item ∧ Quiet [[',']] item :=
    fun item hmem => (forall_spelledValues hwritten item hmem).imp_right
      fun hquiet => hquiet.mono (by decide)
  have htexts := @Fragment.texts_splitList [] [' '] [] _ (List.forall_mem_nil _)
    (by simp [isLayoutBlank]) (by simp) (List.forall_mem_nil _) (spelledValues_ne_nil hne) hitems
    start
  rwa [List.nil_append, List.append_nil] at htexts

/-- The values of `IN` are read back from the items of their list. -/
theorem mapM_values {items : List Fragment} (hne : condition.values ≠ [])
    (hwritten : condition.IsWritten clause)
    (htexts : items.map Fragment.text = (condition.spelledValues spelling).map textOf) :
    (items.all fun item => item.text.isEmpty) = false ∧
      items.mapM (Operand.read clause) = .ok condition.values := by
  constructor
  · obtain ⟨first, others, hvalues⟩ :=
      List.exists_cons_of_ne_nil (@spelledValues_ne_nil condition spelling hne)
    have htight := (forall_spelledValues hwritten first (hvalues ▸ List.mem_cons_self)).1.tight
    rw [hvalues] at htexts
    cases items with
    | nil => simp at htexts
    | cons item items =>
        rw [List.map_cons, List.map_cons, List.cons.injEq] at htexts
        have hitem : item.text.isEmpty = false := by
          rw [htexts.1]
          simpa using htight.ne_nil
        rw [List.all_cons, hitem, Bool.false_and]
  · refine mapM_of_keys htexts (List.forall₂_map_left_iff.mpr ?_)
    have hvalues := @forall₂_mapIdx _ _ _
      (fun lexemes value => ∀ item : Fragment, item.text = textOf lexemes →
        Operand.read clause item = .ok value) condition.values
      (fun place operand => operand.spelledLexemes (spelling.values place)) id
      fun operand hmem place item hitem =>
        @readSlot_spelled clause operand _ [] [] (hwritten.values operand hmem)
          (List.forall_mem_nil _) (List.forall_mem_nil _) item (by simpa using hitem)
    rwa [List.map_id] at hvalues

/-- The operands of a condition are read back into their slots. -/
theorem readOperands_spelled (hwritten : condition.IsWritten clause) {body right : Fragment}
    (hright : right.text = textOf (condition.spelledOperands spelling)) :
    readOperands clause body right
        { term := condition.term, operator := condition.operator
          negated := condition.negated } =
      .ok { condition.canonical with connector := .and } := by
  have hslots := hwritten.slots
  obtain ⟨text, start⟩ := right
  obtain rfl : text = textOf (condition.spelledOperands spelling) := hright
  have hspace : ∀ c ∈ [' '], isLayoutBlank c = true := by simp [isLayoutBlank]
  rw [HasOperands] at hslots
  rw [readOperands, spelledOperands, canonical]
  cases hoperator : condition.operator with
  | isNull | isNotNull => rfl
  | between =>
      rw [hoperator] at hslots
      obtain ⟨low, hlow⟩ := Option.isSome_iff_exists.mp hslots.1
      obtain ⟨high, hhigh⟩ := Option.isSome_iff_exists.mp hslots.2
      have hlowWritten := hwritten.minValue low hlow
      have hhighWritten := hwritten.maxValue high hhigh
      obtain ⟨split, hsplit, hbefore, hafter⟩ :=
        splitFirst?_bounds ⟨Operand.solid_spelledLexemes hlowWritten spelling.minValue,
          Operand.quiet_spelledLexemes hlowWritten spelling.minValue⟩
          (Operand.solid_spelledLexemes hhighWritten spelling.maxValue) start
      have hlowRead := @readSlot_spelled clause low _ [' '] [' '] hlowWritten hspace hspace _
        hbefore
      have hhighRead := @readSlot_spelled clause high _ [' '] [] hhighWritten hspace
        (List.forall_mem_nil _) _ hafter
      simp only [hlow, hhigh, spelledSlot, hsplit, hlowRead, hhighRead, bind, Except.bind]
  | inList =>
      rw [hoperator] at hslots
      have hinside := @Fragment.inside?_group _ [' '] [] (@solid_values clause condition
        spelling hwritten hslots) hspace
        (List.forall_mem_nil _) start
      have hgroup : textOf (mark ' ' :: mark '(' ::
          (spread [' '] (condition.spelledValues spelling) ++ [mark ')'])) =
          [' '] ++ textOf (mark '(' ::
            (spread [' '] (condition.spelledValues spelling) ++ [mark ')'])) ++ [] := by
        simp [Lexeme.text]
      obtain ⟨hfull, hread⟩ := @mapM_values clause condition spelling _ hslots hwritten
        (texts_values hslots hwritten (start + Text.size [' '] + 1))
      simp only [hgroup, hinside, hfull, hread, bind, Except.bind]
      rfl
  | equal | notEqual | less | greater | lessOrEqual | greaterOrEqual | like =>
      rw [hoperator] at hslots
      obtain ⟨value, hvalue⟩ := Option.isSome_iff_exists.mp hslots
      have hread := @readSlot_spelled clause value spelling.value [' '] []
        (hwritten.value value hvalue) hspace (List.forall_mem_nil _)
        ⟨textOf (mark ' ' :: value.spelledLexemes spelling.value), start⟩ (by simp [Lexeme.text])
      simp only [hvalue, spelledSlot, hread, bind, Except.bind]

/-- A condition is read back in its spellings, without the operands that are not written. -/
theorem read_spelled (hwritten : condition.IsWritten clause) (hclause : clause ≠ .select)
    (hplain : clause = .where_ → condition.term.aggregate = none) (start : Nat) :
    read clause ⟨textOf (condition.spelledLexemes spelling), start⟩ =
      .ok { condition.canonical with connector := .and } := by
  obtain ⟨place, hstrip⟩ := @strip_spelled clause condition spelling hwritten start
  have hlength := @length_splitChain clause condition spelling hwritten place
  obtain ⟨split, hsplit, hleft, hoperator, hnegated, hright⟩ :=
    @splitOperator_spelled clause condition spelling hwritten place
  have hterm := readTerm_written hwritten hclause hplain hleft
  have hsign : (condition.isWrapped ^^ split.negated) = condition.negated := by
    rw [hnegated, isWrapped]
    cases condition.negated <;> cases takesNot condition.operator <;> rfl
  rw [read, hstrip]
  simp only [hlength, hsplit, lt_irrefl, if_false, bind, Except.bind, hterm, hoperator, hsign]
  exact readOperands_spelled hwritten hright

/-! ## Chains -/

/-- A link is read as a condition with the connector in front of it. -/
structure LinkReads (clause : Clause) (entry : Connector × ChainLink) (condition : Condition) :
    Prop where
  connector : entry.1 = condition.connector
  proper : entry.2.IsProper
  reads : ReadAs (read clause) entry.2.lexemes { condition.canonical with connector := .and }

theorem readPart_of_linkReads {entry : Connector × ChainLink}
    (hreads : LinkReads clause entry condition) {chain : Fragment} {part : ChainPart}
    (htext : part.expression.text = textOf entry.2.lexemes) :
    readPart clause chain part =
      .ok { condition.canonical with connector := part.connector.getD .and } := by
  obtain ⟨connector, text, start⟩ := part
  obtain rfl : text = textOf entry.2.lexemes := htext
  have hempty : (textOf entry.2.lexemes).isEmpty = false :=
    List.isEmpty_eq_false_iff.mpr hreads.reads.1.tight.ne_nil
  rw [readPart]
  simp [hempty, hreads.reads.2 start, bind, Except.bind]

/-- A chain of links is read as the chain of their conditions. -/
theorem readChain_of_linkReads {layout : Layout} {links : List (Connector × ChainLink)}
    {conditions : List Condition} {trail : Text} (hne : links ≠ [])
    (hreads : List.Forall₂ (LinkReads clause) links conditions)
    (htrail : ∀ c ∈ trail, isLayoutBlank c = true) (start : Nat) :
    readChain clause ⟨textOf (layout.linkLexemes links) ++ trail, start⟩ =
      .ok (canonicalChain conditions) := by
  have hgap := layout.isLayoutBlank_continuation
  cases hreads with
  | nil => exact absurd rfl hne
  | @cons first condition others conditions hfirst hothers =>
      have hproper := ((List.forall₂_and_left _ _).mp (hothers.imp fun entry _ hentry =>
        ⟨(⟨by cases entry.1 <;> simp, hentry.proper⟩ :
          entry.1 ∈ [Connector.and, .or] ∧ entry.2.IsProper), hentry⟩)).1
      have hparts := @Fragment.parts_splitChain [.and, .or] [' '] layout.continuation.toList trail
        first.2 others (by simp) (by simp [isLayoutBlank]) hgap.2 hgap.1 htrail hfirst.proper
        hproper start
      have htext : textOf (layout.linkLexemes (first :: others)) ++ trail =
          [' '] ++ (textOf (ChainLink.chain layout.continuation.toList first.2 others) ++
            trail) := by
        simp [Layout.linkLexemes, Lexeme.text]
      rw [readChain, htext]
      refine mapM_of_keys hparts (.cons ?_ (List.forall₂_map_left_iff.mpr
        (List.forall₂_map_right_iff.mpr (hothers.imp ?_))))
      · rintro part hkey
        obtain ⟨hconnector, hpart⟩ := Prod.mk.inj hkey
        rw [readPart_of_linkReads hfirst hpart, hconnector]
        rfl
      · rintro entry condition hentry part hkey
        obtain ⟨hconnector, hpart⟩ := Prod.mk.inj hkey
        rw [readPart_of_linkReads hentry hpart, hconnector, Option.getD_some, hentry.connector,
          ← condition.connector_canonical]

/-- The links of some conditions are read as these conditions. -/
theorem linkReads_spelled {conditions : List Condition} {spellings : Nat → Spelling}
    (hclause : clause ≠ .select)
    (hwritten : ∀ condition ∈ conditions, condition.IsWritten clause)
    (hplain : ∀ condition ∈ conditions, clause = .where_ → condition.term.aggregate = none) :
    List.Forall₂ (LinkReads clause) (Query.spelledLinks spellings conditions) conditions := by
  have hlinks := @forall₂_mapIdx _ _ _ (LinkReads clause) conditions
    (fun place condition => (condition.connector, condition.spelledLink (spellings place))) id
    fun condition hmem place => by
      have hcondition := hwritten condition hmem
      refine ⟨rfl, isProper_spelledLink hcondition, ?_⟩
      rw [lexemes_spelledLink]
      exact ⟨solid_spelledLexemes hcondition, fun start =>
        read_spelled hcondition hclause (hplain condition hmem) start⟩
  rwa [List.map_id] at hlinks

end Condition

end SelectForm

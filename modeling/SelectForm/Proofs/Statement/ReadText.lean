import Mathlib
import SelectForm.Statement.Condition
import SelectForm.Statement.Lists
import SelectForm.Statement.Table
import SelectForm.Proofs.Text.Name
import SelectForm.Proofs.Statement.ReadCanonical

/-!
# The texts that readers accept

A reader takes the text of an item apart: it trims blanks, splits the last word off, takes a
name off the front.  Here each such step is turned round, and says how the text is put
together from the parts that were found in it.
-/

namespace SelectForm

namespace Text

/-! ## Blanks -/

variable {text front rest word : Text}

theorem exists_trimEnd (text : Text) :
    ∃ gap, text = trimEnd text ++ gap ∧ ∀ c ∈ gap, isBlank c = true := by
  induction text with
  | nil => exact ⟨[], rfl, List.forall_mem_nil _⟩
  | cons c rest ih =>
      obtain ⟨gap, hrest, hgap⟩ := ih
      rw [trimEnd]
      cases hkept : trimEnd rest with
      | nil =>
          rw [hkept, List.nil_append] at hrest
          subst hrest
          cases hblank : isBlank c with
          | true => exact ⟨c :: rest, rfl, List.forall_mem_cons.mpr ⟨hblank, hgap⟩⟩
          | false => exact ⟨rest, rfl, hgap⟩
      | cons d kept =>
          rw [hkept] at hrest
          exact ⟨gap, congrArg (c :: ·) hrest, hgap⟩

theorem exists_trimStart (text : Text) :
    ∃ gap, text = gap ++ trimStart text ∧ ∀ c ∈ gap, isBlank c = true :=
  ⟨leading text, (leading_append_trimStart text).symm, fun _ hc => List.mem_takeWhile_imp hc⟩

theorem exists_trim (text : Text) :
    ∃ front back, text = front ++ (trim text ++ back) ∧ (∀ c ∈ front, isBlank c = true) ∧
      ∀ c ∈ back, isBlank c = true := by
  obtain ⟨front, hfront, hblank⟩ := exists_trimStart text
  obtain ⟨back, hback, hblank'⟩ := exists_trimEnd (trimStart text)
  refine ⟨front, back, ?_, hblank, hblank'⟩
  rw [trim, ← hback, ← hfront]

theorem trimEnd_concat {c : Char} (hblank : isBlank c = true) (text : Text) :
    trimEnd (text ++ [c]) = trimEnd text := by
  induction text with
  | nil => simp [trimEnd, hblank]
  | cons d rest ih => rw [List.cons_append, trimEnd, trimEnd, ih]

/-- The last word of a text has blanks in front of it. -/
theorem exists_of_splitLastWord? (hsplit : splitLastWord? text = some (front, word)) :
    ∃ gap, text = front ++ (gap ++ word) ∧ gap ≠ [] ∧ ∀ c ∈ gap, isBlank c = true := by
  have hreverse := congrArg List.reverse
    (@List.takeWhile_append_dropWhile _ (fun c => !isBlank c) text.reverse)
  have hhead := List.head?_dropWhile_not (fun c => !isBlank c) text.reverse
  rw [splitLastWord?] at hsplit
  cases hdrop : text.reverse.dropWhile fun c => !isBlank c with
  | nil => simp [hdrop] at hsplit
  | cons c rest =>
      rw [hdrop] at hsplit hreverse hhead
      have hblank : isBlank c = true := by simpa using hhead
      simp only [Option.some.injEq, Prod.mk.injEq] at hsplit
      obtain ⟨hfront, hword⟩ := hsplit
      rw [List.reverse_append, hword, List.reverse_reverse, List.reverse_cons] at hreverse
      rw [List.reverse_cons, trimEnd_concat hblank] at hfront
      obtain ⟨gap, hgap, hblanks⟩ := exists_trimEnd rest.reverse
      refine ⟨gap ++ [c], ?_, by simp, ?_⟩
      · rw [hfront] at hgap
        rw [← hreverse, hgap]
        simp
      · rw [List.forall_mem_append]
        exact ⟨hblanks, fun d hd => by rwa [List.mem_singleton.mp hd]⟩

/-! ## Names -/

theorem exists_of_takeRun? {head tail : Char → Bool} {text front rest : Text}
    (htake : takeRun? head tail text = some (front, rest)) :
    text = front ++ rest ∧ isRun head tail front = true := by
  refine ⟨append_of_takeRun? htake, ?_⟩
  cases text with
  | nil => simp [takeRun?] at htake
  | cons c text =>
      rw [takeRun?] at htake
      split at htake
      · rename_i hhead
        obtain ⟨rfl, -⟩ := Prod.mk.inj (Option.some.inj htake)
        rw [isRun, hhead, Bool.true_and, List.all_eq_true]
        exact fun d hd => List.mem_takeWhile_imp hd
      · exact absurd htake (by simp)

theorem exists_of_takeQualified? {table column : Text}
    (htake : takeQualified? text = some ((some table, column), rest)) :
    text = table ++ ('.' :: column) ++ rest ∧ isName table = true ∧ isName column = true := by
  unfold takeQualified? at htake
  split at htake
  · rename_i first behind hfirst
    obtain ⟨found, hfound, hpair⟩ := Option.map_eq_some_iff.mp htake
    obtain ⟨second, back⟩ := found
    obtain ⟨hnames, rfl⟩ := Prod.mk.inj hpair
    obtain ⟨htable, rfl⟩ := Prod.mk.inj hnames
    obtain rfl := Option.some.inj htable
    obtain ⟨rfl, hrun⟩ := exists_of_takeRun? hfirst
    obtain ⟨rfl, hrun'⟩ := exists_of_takeRun? hfound
    exact ⟨by simp, hrun, hrun'⟩
  · simp at htake
  · simp at htake

theorem exists_of_takeComparison? {operator : Operator}
    (htake : takeComparison? text = some (operator, rest)) :
    ∃ symbol, text = symbol ++ rest ∧ symbol ≠ [] ∧ symbol ⊆ ['<', '>', '!', '='] ∧
      operator.isComparison = true := by
  unfold takeComparison? at htake
  split at htake
  · obtain ⟨rfl, rfl⟩ := Prod.mk.inj (Option.some.inj htake)
    exact ⟨['<', '>'], rfl, by simp, by decide, rfl⟩
  · obtain ⟨rfl, rfl⟩ := Prod.mk.inj (Option.some.inj htake)
    exact ⟨['!', '='], rfl, by simp, by decide, rfl⟩
  · obtain ⟨rfl, rfl⟩ := Prod.mk.inj (Option.some.inj htake)
    exact ⟨['<', '='], rfl, by simp, by decide, rfl⟩
  · obtain ⟨rfl, rfl⟩ := Prod.mk.inj (Option.some.inj htake)
    exact ⟨['>', '='], rfl, by simp, by decide, rfl⟩
  · obtain ⟨rfl, rfl⟩ := Prod.mk.inj (Option.some.inj htake)
    exact ⟨['='], rfl, by simp, by decide, rfl⟩
  · obtain ⟨rfl, rfl⟩ := Prod.mk.inj (Option.some.inj htake)
    exact ⟨['<'], rfl, by simp, by decide, rfl⟩
  · obtain ⟨rfl, rfl⟩ := Prod.mk.inj (Option.some.inj htake)
    exact ⟨['>'], rfl, by simp, by decide, rfl⟩
  · exact absurd htake (by simp)

/-- A comparison of two qualified columns has a symbol between them, and maybe blanks
around the symbol. -/
theorem exists_of_comparison? {operator : Operator} {leftTable leftColumn rightTable rightColumn : Text}
    (hread : comparison? text =
      some ((some leftTable, leftColumn), operator, (some rightTable, rightColumn))) :
    ∃ gap symbol gap', text = leftTable ++ ('.' :: leftColumn) ++ (gap ++ symbol ++ (gap' ++
          (rightTable ++ ('.' :: rightColumn)))) ∧
      (∀ c ∈ gap, isBlank c = true) ∧ (∀ c ∈ gap', isBlank c = true) ∧
      symbol ≠ [] ∧ symbol ⊆ ['<', '>', '!', '='] ∧ operator.isComparison = true ∧
      (isName leftTable = true ∧ isName leftColumn = true) ∧
      isName rightTable = true ∧ isName rightColumn = true := by
  unfold comparison? at hread
  rw [Option.bind_eq_bind, Option.bind_eq_some_iff] at hread
  obtain ⟨⟨left, behind⟩, hleft, hread⟩ := hread
  dsimp only at hread
  rw [Option.bind_eq_bind, Option.bind_eq_some_iff] at hread
  obtain ⟨⟨symbol, back⟩, hsymbol, hread⟩ := hread
  dsimp only at hread
  rw [Option.bind_eq_some_iff] at hread
  obtain ⟨⟨right, rest⟩, hright, hread⟩ := hread
  cases rest with
  | cons c rest => simp at hread
  | nil =>
      simp only [Option.some.injEq, Prod.mk.injEq] at hread
      obtain ⟨rfl, rfl, rfl⟩ := hread
      obtain ⟨rfl, hleftNames⟩ := exists_of_takeQualified? hleft
      obtain ⟨mark, hmark, hne, hsubset, hcomparison⟩ := exists_of_takeComparison? hsymbol
      obtain ⟨htext, hrightNames⟩ := exists_of_takeQualified? hright
      obtain ⟨gap, hgap, hblank⟩ := exists_trimStart behind
      obtain ⟨gap', hgap', hblank'⟩ := exists_trimStart back
      refine ⟨gap, mark, gap', ?_, hblank, hblank', hne, hsubset, hcomparison, hleftNames,
        hrightNames⟩
      rw [List.append_nil] at htext
      rw [← htext, ← hgap', List.append_assoc gap, ← hmark, ← hgap]

end Text

/-! ## Columns -/

namespace ColumnTerm

/-- A column is read from a name alone, or from a call of an aggregate function. -/
theorem cases_of_read {clause : Clause} {fragment : Fragment} {term : ColumnTerm}
    (hread : read clause fragment = .ok term) :
    ofName? fragment.trim.text = some term ∨
      ∃ name argument distinct aggregate named,
        Text.call? fragment.trim.text = some (name, distinct, argument) ∧
        Aggregate.ofName? (String.ofList name) = some aggregate ∧
        ofName? argument = some named ∧
        (named.isWildcard = true →
          named.table = none ∧ distinct = false ∧ aggregate.acceptsWildcard = true) ∧
        term = { named with aggregate := some aggregate, distinct } := by
  rw [read] at hread
  cases hcall : Text.call? fragment.trim.text with
  | none =>
      cases hname : ofName? fragment.trim.text with
      | none => simp [hcall, hname] at hread
      | some named =>
          simp only [hcall, hname, Except.ok.injEq] at hread
          exact .inl (congrArg some hread)
  | some call =>
      obtain ⟨name, distinct, argument⟩ := call
      simp only [hcall] at hread
      split at hread
      next => simp at hread
      next aggregate haggregate =>
        split at hread
        next => simp at hread
        next named hnamed =>
          split at hread
          next => simp at hread
          next hwildcard =>
            rw [Except.ok.injEq] at hread
            refine .inr ⟨name, argument, distinct, aggregate, named, rfl, haggregate, hnamed,
              fun hstar => ?_, hread.symm⟩
            simpa [hstar, and_assoc] using hwildcard

/-- The names in a column that is called by its name alone. -/
theorem isSpelled_of_ofName? {text : Text} {term : ColumnTerm} (hname : ofName? text = some term) :
    term.aggregate = none ∧ term.distinct = false ∧
      (∀ table, term.table = some table → Identifier.isValid table = true) ∧
      (Identifier.isValid term.column = true ∨ term.column = "*") := by
  rw [ofName?] at hname
  cases hcolumn : Text.columnName? text with
  | none => simp [hcolumn] at hname
  | some name =>
      obtain ⟨table, column⟩ := name
      simp only [hcolumn, Option.ite_none_right_eq_some, Option.some.injEq] at hname
      obtain ⟨hvalid, rfl⟩ := hname
      rw [Bool.and_eq_true, Bool.or_eq_true, beq_iff_eq] at hvalid
      refine ⟨rfl, rfl, fun name htable => ?_, hvalid.2.symm⟩
      have hall := hvalid.1
      dsimp only at htable
      rw [htable] at hall
      exact hall

end ColumnTerm

end SelectForm

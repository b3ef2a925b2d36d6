import Mathlib
import SelectForm.Check.ParameterType
import SelectForm.Proofs.Check.Distinct
import SelectForm.Proofs.Lexis.HeldParameters
import SelectForm.Proofs.Statement.HeldStatement

/-!
# The parameters of a parsed statement

Parameters are found in two ways: by a scan of the text of a statement, and in the
conditions of the query that was read from it.  A statement that is read holds exactly the
tokens of its query, so both ways find the same names in the same order.
-/

namespace SelectForm

open Lexeme

/-! ## Recorded names -/

namespace ParameterType

theorem map_fst_record (types : List (String × ParameterType)) (name : String)
    (type : ParameterType) :
    (record types name type).map Prod.fst =
      if name ∈ types.map Prod.fst then types.map Prod.fst else types.map Prod.fst ++ [name] := by
  induction types with
  | nil => rfl
  | cons entry types ih =>
      obtain ⟨other, known⟩ := entry
      rw [record]
      by_cases hsame : other = name
      · simp [hsame]
      · rw [if_neg hsame, List.map_cons, ih, List.map_cons]
        by_cases hmem : name ∈ types.map Prod.fst
        · rw [if_pos hmem, if_pos (List.mem_cons_of_mem _ hmem)]
        · rw [if_neg hmem, if_neg (by simpa [Ne.symm hsame] using hmem), List.cons_append]

theorem map_fst_foldl_record {uses types : List (String × ParameterType)} {seen : List String}
    (htypes : types.map Prod.fst = seen.eraseDups) :
    (uses.foldl (fun types (name, type) => record types name type) types).map Prod.fst =
      (seen ++ uses.map Prod.fst).eraseDups := by
  induction uses generalizing types seen with
  | nil => simpa using htypes
  | cons use uses ih =>
      obtain ⟨name, type⟩ := use
      have hnext : (record types name type).map Prod.fst = (seen ++ [name]).eraseDups := by
        rw [map_fst_record, htypes, eraseDups_append_singleton]
        simp only [List.mem_eraseDups]
      have hrest := ih hnext
      rwa [List.append_assoc] at hrest

end ParameterType

/-! ## The parameters among the tokens of a query -/

theorem Operand.filterMap_parameterName? (operand : Operand) :
    operand.tokens.filterMap Token.parameterName? = operand.parameterName?.toList := by
  cases operand with
  | parameter name => simp [tokens, Token.parameterName?, parameterName?]
  | literal value => cases value <;> rfl
  | column table name => exact filterMap_column (fun _ => rfl) table name

/-- The parameters among the tokens of a query are those of its conditions. -/
theorem Query.filterMap_parameterName? (query : Query) :
    query.tokens.filterMap Token.parameterName? =
      query.conditions.flatMap fun condition => condition.operands.filterMap Operand.parameterName? := by
  rw [filterMap_tokens fun _ => rfl]
  refine List.flatMap_congr fun condition _ => ?_
  rw [List.filterMap_eq_flatMap_toList]
  exact List.flatMap_congr fun operand _ => operand.filterMap_parameterName?

/-! ## Two ways to find parameters -/

namespace Query

variable {sql : String} {query : Query}

/-- The scan of a statement finds the parameters of the query in the order in which its
conditions are written. -/
theorem filterMap_template {text : Text} (hread : ofText text = .ok query) :
    text.template.filterMap TemplatePart.name? =
      query.conditions.flatMap fun condition => condition.operands.filterMap Operand.parameterName? := by
  obtain ⟨row, hfine, rfl⟩ := exists_fine_of_ofText hread
  obtain ⟨front, back, hrow, hholds, hapart, hback⟩ :=
    exists_front_of_ofText hread hfine.sound_covered hfine.maskComments_textOf
  have hscan := hfine.namesOf_covered true true (show (none : Option Char) ≠ some ':' by simp)
    (show (none : Option Char) ≠ some ':' by simp)
  rw [Text.template, hfine.cells_textOf, ← TemplatePart.namesOf, hscan, hrow, cellsOf_append,
    TemplatePart.namesOf_append (Nat.zero_le _) (hapart.cellsOf _ _),
    hholds.namesOf_cellsOf true (.inl rfl), namesOf_marks _ rfl hback, List.append_nil,
    filterMap_parameterName?]

theorem map_fst_parameterUses (query : Query) :
    query.parameterUses.map Prod.fst =
      query.conditions.flatMap fun condition => condition.operands.filterMap Operand.parameterName? := by
  rw [parameterUses, List.map_flatMap]
  refine List.flatMap_congr fun condition _ => ?_
  rw [List.map_filterMap]
  refine List.filterMap_congr fun operand _ => ?_
  rw [Option.map_map]
  cases operand.parameterName? <;> rfl

/-- The typed parameters of a parsed query are the parameters of its text, and the names
bound to the question marks are the parameters of its conditions one by one. -/
theorem parameters_of_parse (hread : parse sql = .ok query) :
    query.parameterTypes.map Prod.fst = Text.parameterNames sql.toList ∧
      (PositionalStatement.ofText sql.toList).parameters =
        query.conditions.flatMap fun condition =>
          condition.operands.filterMap Operand.parameterName? := by
  have hnames := filterMap_template hread
  constructor
  · have hkeys := @ParameterType.map_fst_foldl_record query.parameterUses [] [] rfl
    rw [parameterTypes, hkeys, List.nil_append, map_fst_parameterUses, Text.parameterNames, hnames]
  · exact hnames

/-- Comments, literals and a parameter that stands twice. -/
theorem parameters_of_parse_repeated :
    let sql := "SELECT * FROM t WHERE /* :z */ NOT (a BETWEEN :x AND :y) AND b = ':w' OR c IN (1, :x)"
    ∃ query, parse sql = .ok query ∧ query.parameterTypes.map Prod.fst = ["x", "y"] ∧
      Text.parameterNames sql.toList = ["x", "y"] ∧
      (query.conditions.flatMap fun condition =>
        condition.operands.filterMap Operand.parameterName?) = ["x", "y", "x"] := by
  intro sql
  have hread : (parse sql).isOk = true := by decide +kernel
  cases hparse : parse sql with
  | error _ => simp [hparse, Except.isOk, Except.toBool] at hread
  | ok query =>
      obtain ⟨htypes, hbound⟩ := parameters_of_parse hparse
      have hnames : Text.parameterNames sql.toList = ["x", "y"] := by decide +kernel
      have hmarks : (PositionalStatement.ofText sql.toList).parameters = ["x", "y", "x"] := by
        decide +kernel
      exact ⟨query, rfl, htypes.trans hnames, hnames, hbound.symm.trans hmarks⟩

end Query

end SelectForm

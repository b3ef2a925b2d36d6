import Mathlib
import SelectForm.Proofs.Check.Distinct
import SelectForm.Proofs.Check.WrittenParameters

/-!
# The first definite type of a parameter

The types of the parameters are recorded in one walk over all uses: an open entry is made
definite where it stands, a definite entry is left alone, and a new name goes to the end.
However the uses of different names are interleaved, the outcome is a table with one entry
for each name, in the order of the first uses, and every type in it is the first definite
one among the types inferred at the uses of that name.
-/

namespace SelectForm

/-! ## The table of types -/

namespace ParameterType

/-- The type of an entry after one more use. -/
def refine (known later : ParameterType) : ParameterType :=
  if known = any then later else known

/-- The first type of a list that is not open, and the open type if there is none. -/
def firstDefinite (types : List ParameterType) : ParameterType :=
  (types.find? (· ≠ any)).getD any

theorem firstDefinite_append (types : List ParameterType) (type : ParameterType) :
    firstDefinite (types ++ [type]) = refine (firstDefinite types) type := by
  rw [firstDefinite, firstDefinite, refine, List.find?_append]
  cases hfirst : types.find? (· ≠ any) with
  | none => cases type <;> rfl
  | some known =>
      have hknown : known ≠ any := by simpa using List.find?_some hfirst
      simp [hknown]

/-- Recording a use in a table with distinct names: the entry of the name is refined in its
place, and a name without an entry gets one at the end. -/
theorem record_map {names : List String} (hnodup : names.Nodup)
    (typeOf : String → ParameterType) (name : String) (type : ParameterType) :
    record (names.map fun key => (key, typeOf key)) name type =
      if name ∈ names then
        names.map fun key => (key, if key = name then refine (typeOf key) type else typeOf key)
      else
        (names.map fun key => (key, typeOf key)) ++ [(name, type)] := by
  induction names with
  | nil => rfl
  | cons first names ih =>
      obtain ⟨hfirst, hnames⟩ := List.nodup_cons.mp hnodup
      rw [List.map_cons, record]
      by_cases hsame : first = name
      · have hkept : ∀ key ∈ names,
            (key, if key = name then refine (typeOf key) type else typeOf key) =
              (key, typeOf key) := by
          intro key hkey
          have hother : key ≠ name := fun heq => hfirst (hsame ▸ heq ▸ hkey)
          rw [if_neg hother]
        rw [if_pos hsame, if_pos (List.mem_cons.mpr (.inl hsame.symm)), List.map_cons,
          if_pos hsame, List.map_congr_left hkept, refine]
      · rw [if_neg hsame, ih hnames]
        by_cases hmem : name ∈ names
        · rw [if_pos hmem, if_pos (List.mem_cons_of_mem _ hmem), List.map_cons, if_neg hsame]
        · have hnone : name ∉ first :: names := by
            simpa [Ne.symm hsame] using hmem
          rw [if_neg hmem, if_neg hnone, List.cons_append]

/-- The types recorded under one name. -/
def typesUnder (name : String) (uses : List (String × ParameterType)) : List ParameterType :=
  uses.filterMap fun (other, type) => if other = name then some type else none

/-- The table after all uses: the invariant of the walk is that an entry holds the first
definite type of the uses so far. -/
theorem foldl_record (uses : List (String × ParameterType)) :
    uses.foldl (fun types (name, type) => record types name type) [] =
      (uses.map Prod.fst).eraseDups.map fun name =>
        (name, firstDefinite (typesUnder name uses)) := by
  induction uses using List.reverseRecOn with
  | nil => rfl
  | append_singleton uses use ih =>
      obtain ⟨name, type⟩ := use
      have hsame : firstDefinite (typesUnder name (uses ++ [(name, type)])) =
          refine (firstDefinite (typesUnder name uses)) type := by
        rw [← firstDefinite_append]
        simp [typesUnder]
      have hother : ∀ key, key ≠ name →
          typesUnder key (uses ++ [(name, type)]) = typesUnder key uses := by
        intro key hkey
        simp [typesUnder, Ne.symm hkey]
      have hstep : (uses ++ [(name, type)]).foldl
          (fun types (name, type) => record types name type) [] =
            record ((uses.map Prod.fst).eraseDups.map fun name =>
              (name, firstDefinite (typesUnder name uses))) name type := by
        rw [List.foldl_append, ih]
        rfl
      rw [hstep, record_map (nodup_eraseDups _), List.map_append, List.map_singleton,
        eraseDups_append_singleton]
      simp only [List.mem_eraseDups]
      split
      next hmem =>
        refine List.map_congr_left fun key _ => ?_
        by_cases hkey : key = name
        · rw [if_pos hkey, hkey, hsame]
        · rw [if_neg hkey, hother key hkey]
      next hmem =>
        have hfresh : typesUnder name uses = [] := by
          refine List.filterMap_eq_nil_iff.mpr fun use huse => if_neg fun heq => hmem ?_
          exact heq ▸ List.mem_map_of_mem huse
        have hlast : firstDefinite (typesUnder name (uses ++ [(name, type)])) = type := by
          rw [hsame, hfresh]
          rfl
        rw [List.map_append, List.map_singleton, hlast]
        congr 1
        refine List.map_congr_left fun key hkey => ?_
        rw [hother key fun heq => hmem (heq ▸ List.mem_eraseDups.mp hkey)]

end ParameterType

/-! ## The types of a query -/

namespace Query

/-- The names of the parameters among the operands of WHERE, then of HAVING, with every use
counted. -/
def carriedParameters (query : Query) : List String :=
  query.conditions.flatMap fun condition => condition.operands.filterMap Operand.parameterName?

/-- The types inferred at the uses of one parameter, in the order of the uses. -/
def inferredTypes (query : Query) (name : String) : List ParameterType :=
  query.conditions.flatMap fun condition =>
    (condition.operands.filter (· = .parameter name)).map fun _ =>
      ParameterType.infer condition name

theorem typesUnder_parameterUses (query : Query) (name : String) :
    ParameterType.typesUnder name query.parameterUses = query.inferredTypes name := by
  rw [ParameterType.typesUnder, parameterUses, inferredTypes, List.filterMap_flatMap]
  refine List.flatMap_congr fun condition _ => ?_
  rw [List.filterMap_filterMap, ← List.filterMap_eq_map, List.filterMap_filter]
  refine List.filterMap_congr fun operand _ => ?_
  cases operand with
  | parameter other =>
      by_cases hsame : other = name <;> simp [Operand.parameterName?, hsame]
  | literal value => simp [Operand.parameterName?]
  | column table column => simp [Operand.parameterName?]

/-- The types of the parameters of a query: every parameter among the operands of the
conditions has exactly one entry, the entries stand in the order of the first uses, and the
type of each is the first definite one that its uses give. -/
theorem parameterTypes_eq_firstDefinite (query : Query) :
    (query.parameterTypes.map Prod.fst).Nodup ∧
      (∀ name, name ∈ query.parameterTypes.map Prod.fst ↔
        ∃ condition ∈ query.filters ++ query.groupFilters,
          .parameter name ∈ condition.operands) ∧
      (query.parameterTypes.map Prod.fst).Pairwise (fun one other =>
        query.carriedParameters.idxOf one < query.carriedParameters.idxOf other) ∧
      query.parameterTypes = (query.parameterTypes.map Prod.fst).map fun name =>
        (name, ParameterType.firstDefinite (query.inferredTypes name)) := by
  have hnames : query.parameterTypes.map Prod.fst = query.carriedParameters.eraseDups :=
    map_fst_parameterTypes query
  have htypes : query.parameterTypes = query.carriedParameters.eraseDups.map fun name =>
      (name, ParameterType.firstDefinite (query.inferredTypes name)) := by
    rw [parameterTypes, ParameterType.foldl_record, map_fst_parameterUses]
    simp only [typesUnder_parameterUses]
    rfl
  rw [hnames]
  refine ⟨nodup_eraseDups _, fun name => ?_, pairwise_idxOf_eraseDups _, htypes⟩
  have hname : ∀ operand : Operand,
      operand.parameterName? = some name ↔ operand = .parameter name := by
    intro operand
    cases operand <;> simp [Operand.parameterName?]
  simp only [List.mem_eraseDups, carriedParameters, List.mem_flatMap, List.mem_filterMap, hname,
    conditions, exists_eq_right]

/-- Two names with interleaved uses: the first is open, then a string, then a list. -/
example :
    let between (low high : String) : Condition :=
      { term := { column := "a" }
        operator := .between
        minValue := some (.parameter low)
        maxValue := some (.parameter high) }
    let query : Query :=
      { columns := [.wildcard]
        tables := [{ tableName := "t" }]
        filters := [between "p" "q",
          { term := { column := "a" }, operator := .equal, value := some (.parameter "p") }]
        groupFilters := [{
          term := { column := "a" }
          operator := .inList
          values := [.parameter "p", .parameter "r"] }] }
    query.parameterTypes = [("p", .string), ("q", .any), ("r", .list)] := by
  decide +kernel

end Query

end SelectForm

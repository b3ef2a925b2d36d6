import Mathlib
import SelectForm.Proofs.Json.SparseRecord
import SelectForm.Proofs.Json.TextRoundTrip
import SelectForm.Service.Settings

/-!
# The JSON form of queries and settings

Queries, layouts and settings are read from what they are written to, and still after
members with their default values have been left out and unknown members put in, in every
record that they consist of.  Operands and literals are written in one form only.
-/

namespace SelectForm

open Json

/-! ## Words and operands -/

theorem Aggregate.lossless : Lossless Eq toJson ofJson? :=
  .ofEq fun aggregate => by cases aggregate <;> decide

theorem Aggregate.lossless_option : Lossless Eq (Json.ofOption toJson) (nullable? ofJson?) :=
  .ofOption rfl lossless.read_write

theorem JoinKind.lossless : Lossless Eq toJson ofJson? :=
  .ofEq fun kind => by cases kind <;> decide

theorem Operator.lossless : Lossless Eq toJson ofJson? :=
  .ofEq fun operator => by cases operator <;> decide

theorem Connector.lossless : Lossless Eq toJson ofJson? :=
  .ofEq fun connector => by cases connector <;> decide

theorem Direction.lossless : Lossless Eq toJson ofJson? :=
  .ofEq fun direction => by cases direction <;> decide

theorem Literal.lossless : Lossless Eq toJson ofJson? :=
  .ofEq fun value => by cases value <;> rfl

namespace Operand

theorem lossless : Lossless Eq toJson ofJson? :=
  .ofEq fun operand => by
    cases operand with
    | parameter name => rfl
    | literal value =>
        have hvalue := Literal.lossless.read_write value
        have hread : ofJson? (literal value).toJson =
            (Literal.ofJson? value.toJson).map literal := rfl
        rw [hread, hvalue, Option.map_some]
    | column table name => cases table <;> rfl

theorem lossless_option : Lossless Eq (Json.ofOption toJson) (nullable? ofJson?) :=
  .ofOption rfl lossless.read_write

theorem lossless_list : Lossless Eq (Json.ofList toJson) (list? ofJson?) :=
  .ofEq lossless.list.read_write

end Operand

/-! ## Parts of a query -/

namespace SelectItem

def thinning : Thinning := .record ({} : SelectItem).toJson fun _ => Eq

theorem lossless : Lossless thinning toJson ofJson? where
  written item := .intro (.written fun _ _ => rfl)
  read item json hthinned := by
    refine hthinned.read rfl (by decide) (by decide) fun members hread => ?_
    refine Option.bind_eq_some_iff.mpr ⟨_, hread "table" .ofStringOption rfl rfl, ?_⟩
    refine Option.bind_eq_some_iff.mpr ⟨_, hread "column" .ofString rfl rfl, ?_⟩
    refine Option.bind_eq_some_iff.mpr
      ⟨_, hread "aggregateFunction" Aggregate.lossless_option rfl rfl, ?_⟩
    refine Option.bind_eq_some_iff.mpr ⟨_, hread "alias" .ofStringOption rfl rfl, ?_⟩
    refine Option.bind_eq_some_iff.mpr ⟨_, hread "distinct" .ofBoolean rfl rfl, ?_⟩
    rfl

end SelectItem

namespace TableItem

def thinning : Thinning := .record ({} : TableItem).toJson fun _ => Eq

theorem lossless : Lossless thinning toJson ofJson? where
  written table := .intro (.written fun _ _ => rfl)
  read table json hthinned := by
    refine hthinned.read rfl (by decide) (by decide) fun members hread => ?_
    refine Option.bind_eq_some_iff.mpr ⟨_, hread "tableName" .ofString rfl rfl, ?_⟩
    refine Option.bind_eq_some_iff.mpr ⟨_, hread "alias" .ofStringOption rfl rfl, ?_⟩
    rfl

end TableItem

namespace JoinCondition

def thinning : Thinning := .record ({} : JoinCondition).toJson fun _ => Eq

theorem lossless : Lossless thinning toJson ofJson? where
  written condition := .intro (.written fun _ _ => rfl)
  read condition json hthinned := by
    refine hthinned.read rfl (by decide) (by decide) fun members hread => ?_
    refine Option.bind_eq_some_iff.mpr ⟨_, hread "leftTable" .ofString rfl rfl, ?_⟩
    refine Option.bind_eq_some_iff.mpr ⟨_, hread "leftColumn" .ofString rfl rfl, ?_⟩
    refine Option.bind_eq_some_iff.mpr ⟨_, hread "operator" Operator.lossless rfl rfl, ?_⟩
    refine Option.bind_eq_some_iff.mpr ⟨_, hread "rightTable" .ofString rfl rfl, ?_⟩
    refine Option.bind_eq_some_iff.mpr ⟨_, hread "rightColumn" .ofString rfl rfl, ?_⟩
    rfl

end JoinCondition

namespace Join

def thinning : Thinning :=
  .record ({} : Join).toJson fun
    | "conditions" => .list JoinCondition.thinning
    | _ => Eq

theorem lossless : Lossless thinning toJson ofJson? where
  written join := by
    refine .intro (.written ?_)
    simp only [List.forall_mem_cons]
    exact ⟨rfl, rfl, rfl, JoinCondition.lossless.list.written _, List.forall_mem_nil _⟩
  read join json hthinned := by
    refine hthinned.read rfl (by decide) (by decide) fun members hread => ?_
    refine Option.bind_eq_some_iff.mpr ⟨_, hread "joinType" JoinKind.lossless rfl rfl, ?_⟩
    refine Option.bind_eq_some_iff.mpr ⟨_, hread "tableName" .ofString rfl rfl, ?_⟩
    refine Option.bind_eq_some_iff.mpr ⟨_, hread "alias" .ofStringOption rfl rfl, ?_⟩
    refine Option.bind_eq_some_iff.mpr
      ⟨_, hread "conditions" JoinCondition.lossless.list rfl rfl, ?_⟩
    rfl

end Join

namespace Condition

def thinning : Thinning := .record ({} : Condition).toJson fun _ => Eq

theorem lossless : Lossless thinning toJson ofJson? where
  written condition := .intro (.written fun _ _ => rfl)
  read condition json hthinned := by
    refine hthinned.read rfl (by decide) (by decide) fun members hread => ?_
    refine Option.bind_eq_some_iff.mpr ⟨_, hread "table" .ofStringOption rfl rfl, ?_⟩
    refine Option.bind_eq_some_iff.mpr ⟨_, hread "column" .ofString rfl rfl, ?_⟩
    refine Option.bind_eq_some_iff.mpr
      ⟨_, hread "aggregateFunction" Aggregate.lossless_option rfl rfl, ?_⟩
    refine Option.bind_eq_some_iff.mpr ⟨_, hread "aggregateDistinct" .ofBoolean rfl rfl, ?_⟩
    refine Option.bind_eq_some_iff.mpr ⟨_, hread "operator" Operator.lossless rfl rfl, ?_⟩
    refine Option.bind_eq_some_iff.mpr ⟨_, hread "value" Operand.lossless_option rfl rfl, ?_⟩
    refine Option.bind_eq_some_iff.mpr ⟨_, hread "values" Operand.lossless_list rfl rfl, ?_⟩
    refine Option.bind_eq_some_iff.mpr ⟨_, hread "minValue" Operand.lossless_option rfl rfl, ?_⟩
    refine Option.bind_eq_some_iff.mpr ⟨_, hread "maxValue" Operand.lossless_option rfl rfl, ?_⟩
    refine Option.bind_eq_some_iff.mpr ⟨_, hread "negated" .ofBoolean rfl rfl, ?_⟩
    refine Option.bind_eq_some_iff.mpr ⟨_, hread "connector" Connector.lossless rfl rfl, ?_⟩
    rfl

end Condition

namespace GroupItem

def thinning : Thinning := .record ({} : GroupItem).toJson fun _ => Eq

theorem lossless : Lossless thinning toJson ofJson? where
  written item := .intro (.written fun _ _ => rfl)
  read item json hthinned := by
    refine hthinned.read rfl (by decide) (by decide) fun members hread => ?_
    refine Option.bind_eq_some_iff.mpr ⟨_, hread "table" .ofStringOption rfl rfl, ?_⟩
    refine Option.bind_eq_some_iff.mpr ⟨_, hread "column" .ofString rfl rfl, ?_⟩
    refine Option.bind_eq_some_iff.mpr
      ⟨_, hread "aggregateFunction" Aggregate.lossless_option rfl rfl, ?_⟩
    rfl

end GroupItem

namespace OrderItem

def thinning : Thinning := .record ({} : OrderItem).toJson fun _ => Eq

theorem lossless : Lossless thinning toJson ofJson? where
  written item := .intro (.written fun _ _ => rfl)
  read item json hthinned := by
    refine hthinned.read rfl (by decide) (by decide) fun members hread => ?_
    refine Option.bind_eq_some_iff.mpr ⟨_, hread "table" .ofStringOption rfl rfl, ?_⟩
    refine Option.bind_eq_some_iff.mpr ⟨_, hread "column" .ofString rfl rfl, ?_⟩
    refine Option.bind_eq_some_iff.mpr
      ⟨_, hread "aggregateFunction" Aggregate.lossless_option rfl rfl, ?_⟩
    refine Option.bind_eq_some_iff.mpr ⟨_, hread "aggregateDistinct" .ofBoolean rfl rfl, ?_⟩
    refine Option.bind_eq_some_iff.mpr ⟨_, hread "direction" Direction.lossless rfl rfl, ?_⟩
    rfl

end OrderItem

/-! ## Queries and settings -/

namespace Query

def thinning : Thinning :=
  .record ({} : Query).toJson fun
    | "selectColumns" => .list SelectItem.thinning
    | "fromTables" => .list TableItem.thinning
    | "joins" => .list Join.thinning
    | "whereConditions" => .list Condition.thinning
    | "groupByColumns" => .list GroupItem.thinning
    | "havingConditions" => .list Condition.thinning
    | "orderByColumns" => .list OrderItem.thinning
    | _ => Eq

theorem lossless : Lossless thinning toJson ofJson? where
  written query := by
    refine .intro (.written ?_)
    simp only [List.forall_mem_cons]
    exact ⟨SelectItem.lossless.list.written _, rfl, TableItem.lossless.list.written _,
      Join.lossless.list.written _, Condition.lossless.list.written _,
      GroupItem.lossless.list.written _, Condition.lossless.list.written _,
      OrderItem.lossless.list.written _, rfl, rfl, List.forall_mem_nil _⟩
  read query json hthinned := by
    refine hthinned.read rfl (by decide) (by decide) fun members hread => ?_
    refine Option.bind_eq_some_iff.mpr
      ⟨_, hread "selectColumns" SelectItem.lossless.list rfl rfl, ?_⟩
    refine Option.bind_eq_some_iff.mpr ⟨_, hread "distinct" .ofBoolean rfl rfl, ?_⟩
    refine Option.bind_eq_some_iff.mpr ⟨_, hread "fromTables" TableItem.lossless.list rfl rfl, ?_⟩
    refine Option.bind_eq_some_iff.mpr ⟨_, hread "joins" Join.lossless.list rfl rfl, ?_⟩
    refine Option.bind_eq_some_iff.mpr
      ⟨_, hread "whereConditions" Condition.lossless.list rfl rfl, ?_⟩
    refine Option.bind_eq_some_iff.mpr
      ⟨_, hread "groupByColumns" GroupItem.lossless.list rfl rfl, ?_⟩
    refine Option.bind_eq_some_iff.mpr
      ⟨_, hread "havingConditions" Condition.lossless.list rfl rfl, ?_⟩
    refine Option.bind_eq_some_iff.mpr
      ⟨_, hread "orderByColumns" OrderItem.lossless.list rfl rfl, ?_⟩
    refine Option.bind_eq_some_iff.mpr ⟨_, hread "limit" .ofWordOption rfl rfl, ?_⟩
    refine Option.bind_eq_some_iff.mpr ⟨_, hread "offset" .ofWordOption rfl rfl, ?_⟩
    rfl

end Query

namespace Layout

def thinning : Thinning := .record ({} : Layout).toJson fun _ => Eq

theorem lossless : Lossless thinning toJson ofJson? where
  written layout := .intro (.written fun _ _ => rfl)
  read layout json hthinned := by
    refine hthinned.read rfl (by decide) (by decide) fun members hread => ?_
    refine Option.bind_eq_some_iff.mpr ⟨_, hread "formatSql" .ofBoolean rfl rfl, ?_⟩
    refine Option.bind_eq_some_iff.mpr ⟨_, hread "includeComments" .ofBoolean rfl rfl, ?_⟩
    refine Option.bind_eq_some_iff.mpr ⟨_, hread "indentWidth" .ofWord rfl rfl, ?_⟩
    rfl

end Layout

namespace Settings

def thinning : Thinning :=
  .record ({} : Settings).toJson fun
    | "build" => Layout.thinning
    | _ => Eq

theorem lossless : Lossless thinning toJson ofJson? where
  written settings := by
    refine .intro (.written ?_)
    simp only [List.forall_mem_cons]
    exact ⟨Layout.lossless.written _, rfl, List.forall_mem_nil _⟩
  read settings json hthinned := by
    refine hthinned.read rfl (by decide) (by decide) fun members hread => ?_
    refine Option.bind_eq_some_iff.mpr ⟨_, hread "build" Layout.lossless rfl rfl, ?_⟩
    refine Option.bind_eq_some_iff.mpr ⟨_, hread "maxSqlLength" .ofWord rfl rfl, ?_⟩
    rfl

end Settings

/-! ## Texts -/

@[simp] theorem Json.isPlain_ofOption {α : Type} {write : α → Json}
    (hwrite : ∀ value, (write value).IsPlain)
    (value : Option α) : (ofOption write value).IsPlain := by
  cases value with
  | none => simp [ofOption, IsPlain]
  | some value => exact hwrite value

@[simp] theorem Json.isPlain_ofList {α : Type} {write : α → Json}
    (hwrite : ∀ value, (write value).IsPlain)
    (values : List α) : (ofList write values).IsPlain := by
  rw [ofList, IsPlain, allPlain_iff, List.forall_mem_map]
  exact fun value _ => hwrite value

@[simp] theorem Json.isPlain_ofStringOption (value : Option String) :
    (ofOption Json.string value).IsPlain :=
  isPlain_ofOption (fun _ => by simp [IsPlain]) value

@[simp] theorem Json.isPlain_ofWord (value : UInt64) : (ofWord value).IsPlain := by
  simp [ofWord, IsPlain]

@[simp] theorem Aggregate.isPlain_toJson (aggregate : Aggregate) : aggregate.toJson.IsPlain := by
  simp [toJson, IsPlain]

@[simp] theorem Operator.isPlain_toJson (operator : Operator) : operator.toJson.IsPlain := by
  simp [toJson, IsPlain]

@[simp] theorem Literal.isPlain_toJson (value : Literal) : value.toJson.IsPlain := by
  cases value <;> simp [toJson, IsPlain, MembersPlain]

@[simp] theorem Operand.isPlain_toJson (operand : Operand) : operand.toJson.IsPlain := by
  cases operand <;> simp [toJson, IsPlain, MembersPlain]

@[simp] theorem SelectItem.isPlain_toJson (item : SelectItem) : item.toJson.IsPlain := by
  simp [toJson, IsPlain, MembersPlain]

@[simp] theorem TableItem.isPlain_toJson (table : TableItem) : table.toJson.IsPlain := by
  simp [toJson, IsPlain, MembersPlain]

@[simp] theorem JoinCondition.isPlain_toJson (condition : JoinCondition) :
    condition.toJson.IsPlain := by
  simp [toJson, IsPlain, MembersPlain]

@[simp] theorem Join.isPlain_toJson (join : Join) : join.toJson.IsPlain := by
  simp [toJson, IsPlain, MembersPlain, JoinKind.toJson]

@[simp] theorem Condition.isPlain_toJson (condition : Condition) : condition.toJson.IsPlain := by
  simp [toJson, IsPlain, MembersPlain, Connector.toJson]

@[simp] theorem GroupItem.isPlain_toJson (item : GroupItem) : item.toJson.IsPlain := by
  simp [toJson, IsPlain, MembersPlain]

@[simp] theorem OrderItem.isPlain_toJson (item : OrderItem) : item.toJson.IsPlain := by
  simp [toJson, IsPlain, MembersPlain, Direction.toJson]

@[simp] theorem Query.isPlain_toJson (query : Query) : query.toJson.IsPlain := by
  simp [toJson, IsPlain, MembersPlain]

@[simp] theorem Layout.isPlain_toJson (layout : Layout) : layout.toJson.IsPlain := by
  simp [toJson, IsPlain, MembersPlain]

@[simp] theorem Settings.isPlain_toJson (settings : Settings) : settings.toJson.IsPlain := by
  simp [toJson, IsPlain, MembersPlain]

theorem Json.Lossless.read_text {α : Type} {thinning : Thinning} {write : α → Json}
    {read? : Json → Option α} (hlossless : Lossless thinning write read?) {value : α}
    (hplain : (write value).IsPlain) : (parse? (write value).render).bind read? = some value := by
  rw [parse?_render hplain, Option.bind_some, hlossless.read_write]

/-- Queries, layouts and settings are read back from their texts, and from all that may
become of their written forms when members with default values are left out of their
records and unknown members are put in. -/
theorem Query.lossless_forms (query : Query) (layout : Layout) (settings : Settings) :
    ((parse? query.toJson.render).bind Query.ofJson? = some query ∧
      ∀ json, Query.thinning query.toJson json → Query.ofJson? json = some query) ∧
    ((parse? layout.toJson.render).bind Layout.ofJson? = some layout ∧
      ∀ json, Layout.thinning layout.toJson json → Layout.ofJson? json = some layout) ∧
    (parse? settings.toJson.render).bind Settings.ofJson? = some settings ∧
      ∀ json, Settings.thinning settings.toJson json → Settings.ofJson? json = some settings := by
  refine ⟨⟨Query.lossless.read_text query.isPlain_toJson, Query.lossless.read query⟩,
    ⟨Layout.lossless.read_text layout.isPlain_toJson, Layout.lossless.read layout⟩,
    Settings.lossless.read_text settings.isPlain_toJson, Settings.lossless.read settings⟩

/-- Only what differs from the defaults is sent, and a few members that nobody knows. -/
theorem Query.lossless_forms_sparse :
    let query : Query :=
      { columns := [.wildcard], tables := [{ tableName := "t" }], limit := some 5 }
    let layout : Layout := { indentWidth := 2 }
    Query.ofJson?
        (object
          [("note", .string "draft"),
            ("selectColumns", array [object [("column", .string "*")]]),
            ("fromTables", array [object [("tableName", .string "t"), ("schema", null)]]),
            ("limit", natural 5)]) = some query ∧
      Layout.ofJson? (object [("indentWidth", natural 2)]) = some layout ∧
      Settings.ofJson? (object [("build", object [("indentWidth", natural 2)])]) =
        some { layout } := by
  intro query layout
  have hitem : SelectItem.thinning SelectItem.wildcard.toJson
      (object [("column", .string "*")]) :=
    .intro (.leaveOut rfl (.keep rfl (.leaveOut rfl (.leaveOut rfl (.leaveOut rfl .nil)))))
  have htable : TableItem.thinning (TableItem.toJson { tableName := "t" })
      (object [("tableName", .string "t"), ("schema", null)]) :=
    .intro (.keep rfl (.leaveOut rfl (.add rfl .nil)))
  have hlayout : Layout.thinning layout.toJson (object [("indentWidth", natural 2)]) :=
    .intro (.leaveOut rfl (.leaveOut rfl (.keep rfl .nil)))
  have hforms := lossless_forms query layout { layout }
  refine ⟨hforms.1.2 _ ?_, hforms.2.1.2 _ hlayout, hforms.2.2.2 _ ?_⟩
  · exact .intro (.add rfl (.keep (.intro (.cons hitem .nil)) (.leaveOut rfl
      (.keep (.intro (.cons htable .nil)) (.leaveOut rfl (.leaveOut rfl (.leaveOut rfl (.leaveOut rfl
        (.leaveOut rfl (.keep rfl (.leaveOut rfl .nil)))))))))))
  · exact .intro (.keep hlayout (.leaveOut rfl .nil))

end SelectForm

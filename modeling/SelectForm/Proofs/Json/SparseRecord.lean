import Mathlib
import SelectForm.Json.Basic
import SelectForm.Query.Codec

/-!
# Sparse records

A record may be sent without the members that have their default values, and with members
that the reader does not know.  A thinning says how far a value that is read may differ in
this way from the value that was written, member by member and item by item.
-/

namespace SelectForm

namespace Json

/-- What a written value may have become when it is read. -/
abbrev Thinning := Json → Json → Prop

/-- The members of a record, of which those with the value of a blank record may be left
out, while any members that the blank record does not have may be put between them. -/
inductive ThinnedMembers (blank : Json) (part : String → Thinning) : Members → Members → Prop
  | nil : ThinnedMembers blank part [] []
  | keep {name : String} {json thinned : Json} {members others : Members} :
      part name json thinned → ThinnedMembers blank part members others →
        ThinnedMembers blank part ((name, json) :: members) ((name, thinned) :: others)
  | leaveOut {name : String} {json : Json} {members others : Members} :
      blank.member? name = some json → ThinnedMembers blank part members others →
        ThinnedMembers blank part ((name, json) :: members) others
  | add {name : String} {json : Json} {members others : Members} :
      blank.member? name = none → ThinnedMembers blank part members others →
        ThinnedMembers blank part members ((name, json) :: others)

namespace Thinning

/-- A record whose members may be thinned each in its own way. -/
inductive record (blank : Json) (part : String → Thinning) : Thinning
  | intro {members others : Members} :
      ThinnedMembers blank part members others → record blank part (object members) (object others)

/-- A list whose items may be thinned. -/
inductive list (item : Thinning) : Thinning
  | intro {items others : List Json} :
      List.Forall₂ item items others → list item (array items) (array others)

end Thinning

/-- A value is read from everything that may have become of its written form. -/
structure Lossless {α : Type} (thinning : Thinning) (write : α → Json) (read? : Json → Option α) :
    Prop where
  written : ∀ value, thinning (write value) (write value)
  read : ∀ value json, thinning (write value) json → read? json = some value

/-! ## Plain values -/

section Plain

variable {α : Type} {write : α → Json} {read? : Json → Option α}

theorem Lossless.ofEq (hread : ∀ value, read? (write value) = some value) :
    Lossless Eq write read? where
  written _ := rfl
  read value _ hjson := hjson ▸ hread value

theorem Lossless.read_write {thinning : Thinning} (hlossless : Lossless thinning write read?)
    (value : α) : read? (write value) = some value :=
  hlossless.read value _ (hlossless.written value)

theorem nullable?_eq_some {json : Json} {value : α} (hnull : read? null = none)
    (hread : read? json = some value) : nullable? read? json = some (some value) := by
  cases json with
  | null => rw [hnull] at hread; contradiction
  | _ => simp [nullable?, hread]

theorem Lossless.ofOption (hnull : read? null = none)
    (hread : ∀ value, read? (write value) = some value) :
    Lossless Eq (Json.ofOption write) (nullable? read?) :=
  .ofEq fun value => by
    cases value with
    | none => rfl
    | some value => exact nullable?_eq_some hnull (hread value)

theorem readAll?_of_forall₂ {item : Thinning} (hread : Lossless item write read?)
    {values : List α} {items : List Json} (hitems : List.Forall₂ item (values.map write) items) :
    readAll? read? items = some values := by
  induction values generalizing items with
  | nil =>
      cases hitems
      rfl
  | cons value values ih =>
      rw [List.map_cons] at hitems
      obtain ⟨json, rest, hjson, hrest, rfl⟩ := List.forall₂_cons_left_iff.mp hitems
      rw [readAll?, hread.read value json hjson, ih hrest]

theorem Lossless.list {item : Thinning} (hitem : Lossless item write read?) :
    Lossless (.list item) (Json.ofList write) (list? read?) where
  written values :=
    .intro (List.forall₂_same.mpr (List.forall_mem_map.mpr fun value _ => hitem.written value))
  read values json hjson := by
    rw [Json.ofList] at hjson
    cases hjson with
    | intro hitems => exact readAll?_of_forall₂ hitem hitems

theorem Lossless.ofWord : Lossless Eq Json.ofWord word? :=
  .ofEq fun value => by
    rw [Json.ofWord, word?, if_pos value.toNat_lt_size, UInt64.ofNat_toNat]

theorem Lossless.ofWordOption : Lossless Eq (Json.ofOption Json.ofWord) (nullable? word?) :=
  .ofOption rfl ofWord.read_write

theorem Lossless.ofBoolean : Lossless Eq Json.boolean boolean? := .ofEq fun _ => rfl

theorem Lossless.ofString : Lossless Eq Json.string string? := .ofEq fun _ => rfl

theorem Lossless.ofStringOption : Lossless Eq (Json.ofOption Json.string) (nullable? string?) :=
  .ofOption rfl fun _ => rfl

end Plain

/-! ## Records -/

namespace ThinnedMembers

variable {blank : Json} {part : String → Thinning} {members others : Members} {name : String}

theorem written (hmembers : ∀ member ∈ members, part member.1 member.2 member.2) :
    ThinnedMembers blank part members members := by
  induction members with
  | nil => exact .nil
  | cons member members ih =>
      rw [List.forall_mem_cons] at hmembers
      exact .keep hmembers.1 (ih hmembers.2)

/-- A member that the record knows does not get more frequent. -/
theorem length_filter_le (hthinned : ThinnedMembers blank part members others)
    (hknown : (blank.member? name).isSome = true) :
    (others.filter (·.1 == name)).length ≤ (members.filter (·.1 == name)).length := by
  induction hthinned with
  | nil => exact Nat.le_refl _
  | @keep other _ _ _ _ _ _ ih =>
      rw [List.filter_cons, List.filter_cons]
      split
      · exact Nat.succ_le_succ ih
      · exact ih
  | leaveOut _ _ ih =>
      rw [List.filter_cons]
      split
      · exact Nat.le_succ_of_le ih
      · exact ih
  | @add other _ _ _ hunknown _ ih =>
      have hne : (other == name) = false := by
        rw [beq_eq_false_iff_ne]
        rintro rfl
        rw [hunknown] at hknown
        contradiction
      rwa [List.filter_cons, if_neg (by simp [hne])]

theorem lookup_eq_none (hthinned : ThinnedMembers blank part members others)
    (hknown : (blank.member? name).isSome = true) (hname : name ∉ members.map Prod.fst) :
    others.lookup name = none := by
  have hnone : members.filter (·.1 == name) = [] := by
    refine List.filter_eq_nil_iff.mpr fun member hmem => ?_
    rw [beq_iff_eq]
    rintro rfl
    exact hname (List.mem_map_of_mem hmem)
  have hlength := hthinned.length_filter_le hknown
  rw [hnone, List.length_nil, Nat.le_zero, List.length_eq_zero_iff] at hlength
  refine List.lookup_eq_none_iff.mpr fun member hmem => ?_
  have hother := List.filter_eq_nil_iff.mp hlength member hmem
  exact bne_iff_ne.mpr fun hsame => hother (beq_iff_eq.mpr hsame.symm)

/-- A member that the record knows is still there, or it was left out because it has the
value of the blank record. -/
theorem lookup_cases (hthinned : ThinnedMembers blank part members others)
    (hnodup : (members.map Prod.fst).Nodup) (hknown : (blank.member? name).isSome = true)
    {json : Json} (hlookup : members.lookup name = some json) :
    (∃ thinned, others.lookup name = some thinned ∧ part name json thinned) ∨
      others.lookup name = none ∧ blank.member? name = some json := by
  induction hthinned with
  | nil => simp at hlookup
  | @keep other _ _ members others hpart _ ih =>
      rw [List.map_cons, List.nodup_cons] at hnodup
      rw [List.lookup_cons] at hlookup ⊢
      by_cases hsame : name = other
      · subst hsame
        simp only [beq_self_eq_true, Option.some.injEq] at hlookup ⊢
        subst hlookup
        exact .inl ⟨_, rfl, hpart⟩
      · simp only [beq_eq_false_iff_ne.mpr hsame] at hlookup ⊢
        exact ih hnodup.2 hlookup
  | @leaveOut other _ members others hblank hthinned ih =>
      rw [List.map_cons, List.nodup_cons] at hnodup
      rw [List.lookup_cons] at hlookup
      by_cases hsame : name = other
      · subst hsame
        simp only [beq_self_eq_true, Option.some.injEq] at hlookup
        subst hlookup
        exact .inr ⟨hthinned.lookup_eq_none hknown hnodup.1, hblank⟩
      · simp only [beq_eq_false_iff_ne.mpr hsame] at hlookup
        exact ih hnodup.2 hlookup
  | @add other _ members others hunknown _ ih =>
      have hne : (name == other) = false := by
        rw [beq_eq_false_iff_ne]
        rintro rfl
        rw [hunknown] at hknown
        contradiction
      rw [List.lookup_cons, hne]
      exact ih hnodup hlookup

end ThinnedMembers

namespace Thinning

variable {α : Type} {blank json : Json} {part : String → Thinning} {names : List String}
  {written : Members}

/-- Each member of a record is read as what was written. -/
def Readable (blank : Json) (part : String → Thinning) (written members : Members) : Prop :=
  ∀ {α : Type} (name : String) {write : α → Json} {read? : Json → Option α} {value default : α},
    Lossless (part name) write read? → written.lookup name = some (write value) →
      blank.member? name = some (write default) →
        Members.read? members name read? default = some value

theorem readable_of_thinnedMembers {members : Members}
    (hthinned : ThinnedMembers blank part written members)
    (hnodup : (written.map Prod.fst).Nodup) : Readable blank part written members := by
  intro α name write read? value default hlossless hlookup hblank
  have hknown : (blank.member? name).isSome = true := by rw [hblank]; rfl
  rcases hthinned.lookup_cases hnodup hknown hlookup with ⟨thinned, hfound, hpart⟩ | ⟨hfound, hsame⟩
  · rw [Members.read?, hfound]
    exact hlossless.read value thinned hpart
  · rw [hblank, Option.some.injEq] at hsame
    have hdefault := hlossless.read_write default
    rw [hsame, hlossless.read_write value] at hdefault
    rw [Members.read?, hfound]
    exact hdefault.symm

/-- A thinned record is taken for a record with its names, and then read member by member. -/
theorem record.read {value : α} {readMembers : Members → Option α}
    (hrecord : record blank part (object written) json) (hwritten : written.map Prod.fst = names)
    (hnodup : names.Nodup) (hnames : ∀ name ∈ names, (blank.member? name).isSome = true)
    (hread : ∀ members, Readable blank part written members → readMembers members = some value) :
    (record? names json >>= readMembers) = some value := by
  cases hrecord with
  | @intro _ others hthinned =>
  subst hwritten
  have honce : ∀ name ∈ written.map Prod.fst, (others.filter (·.1 == name)).length ≤ 1 := by
    intro name hmem
    refine (hthinned.length_filter_le (hnames name hmem)).trans ?_
    have hcount := List.nodup_iff_count_le_one.mp hnodup name
    rwa [List.count, List.countP_map, List.countP_eq_length_filter] at hcount
  have hmembers : record? (written.map Prod.fst) (object others) = some others := by
    rw [record?, if_pos (List.all_eq_true.mpr fun name hmem => decide_eq_true (honce name hmem))]
  rw [hmembers]
  exact hread others (readable_of_thinnedMembers hthinned hnodup)

end Thinning

end Json

end SelectForm

import Mathlib
import SelectForm.Json.Reader
import SelectForm.Json.Writer

/-!
# Reading back JSON texts

The compact text of a value is read as that value, whatever the strings in it hold, if the
value has no numbers but natural ones.  The reader takes no more steps than the text has
characters.
-/

namespace SelectForm

namespace Json

/-! ## Values -/

mutual

/-- A value that is written as what it is: no unreadable string and no number that is kept
as it is written. -/
def IsPlain : Json → Prop
  | decimal _ | unreadable => False
  | array items => AllPlain items
  | object members => MembersPlain members
  | _ => True

def AllPlain : List Json → Prop
  | [] => True
  | item :: items => IsPlain item ∧ AllPlain items

def MembersPlain : List (String × Json) → Prop
  | [] => True
  | (_, json) :: members => IsPlain json ∧ MembersPlain members

end

theorem allPlain_iff {items : List Json} : AllPlain items ↔ ∀ item ∈ items, IsPlain item := by
  induction items with
  | nil => simp [AllPlain]
  | cons item items ih => rw [AllPlain, ih, List.forall_mem_cons]

namespace Reader

open Writer

/-! ## Strings -/

theorem unit?_hexDigit {n : Nat} (hn : n < 0x20) :
    unit? '0' '0' (hexDigit (n / 16)) (hexDigit (n % 16)) = some n := by
  have hall : ∀ n < 0x20, unit? '0' '0' (hexDigit (n / 16)) (hexDigit (n % 16)) = some n := by
    decide
  exact hall n hn

theorem units?_escape (c : Char) (text : List Char) :
    units? (escape c ++ text) =
      (units? text).map fun (units, behind) => (c.toNat :: units, behind) := by
  rw [escape]
  split
  next hquote =>
    obtain rfl := beq_iff_eq.mp hquote
    cases hunits : units? text <;> simp [units?, escape?, hunits]
  next hquote =>
  split
  next hslash =>
    obtain rfl := beq_iff_eq.mp hslash
    cases hunits : units? text <;> simp [units?, escape?, hunits]
  next hslash =>
  split
  next hcontrol =>
    simp only [List.cons_append, List.nil_append, units?, unit?_hexDigit hcontrol]
    cases units? text <;> rfl
  next hcontrol =>
    rw [beq_iff_eq] at hquote hslash
    rw [List.singleton_append,
      units?.eq_4 _ _ (by simpa using hquote) (by simp [hslash]) (by simp [hslash])]
    simp only [hcontrol, hslash, decide_false, Bool.false_or, beq_eq_false_iff_ne.mpr, ne_eq,
      not_false_eq_true, Bool.false_eq_true, if_false]
    cases units? text <;> rfl

theorem units?_quote (text : List Char) (behind : List Char) :
    units? (text.flatMap escape ++ '"' :: behind) = some (text.map Char.toNat, behind) := by
  induction text with
  | nil => rfl
  | cons c text ih =>
      rw [List.flatMap_cons, List.append_assoc, units?_escape, ih]
      rfl

theorem join?_map_toNat (text : List Char) : join? (text.map Char.toNat) = some text := by
  have hvalid : ∀ c : Char, c.toNat.isValidChar := fun c => c.valid
  induction text with
  | nil => rfl
  | cons c text ih =>
      cases text with
      | nil => simp [join?, hvalid]
      | cons next text =>
          simp only [List.map_cons] at ih ⊢
          rw [join?, if_pos (hvalid c), ih, Char.ofNat_toNat]
          rfl

theorem string?_quote (text : String) (behind : List Char) :
    string? (text.toList.flatMap escape ++ '"' :: behind) = some (some text, behind) := by
  have hjoin := join?_map_toNat text.toList
  rw [string?, units?_quote, Option.map_some]
  dsimp only
  rw [hjoin, Option.map_some, String.ofList_toList]

theorem quote_append (text : String) (behind : List Char) :
    quote text ++ behind = '"' :: (text.toList.flatMap escape ++ '"' :: behind) := by
  simp [quote]

/-! ## Numbers -/

theorem head?_toDigits {n : Nat} (hn : 0 < n) : (Nat.toDigits 10 n).head? ≠ some '0' := by
  induction n using Nat.strong_induction_on with
  | _ n ih =>
      rcases Nat.lt_or_ge n 10 with hsmall | hlarge
      · rw [Nat.toDigits_of_lt_base hsmall]
        have hall : ∀ n < 10, 0 < n → n.digitChar ≠ '0' := by decide
        simpa using hall n hsmall hn
      · rw [Nat.toDigits_of_base_le (by decide) hlarge,
          List.head?_append_of_ne_nil _ Nat.toDigits_ne_nil]
        exact ih (n / 10) (by omega) (by omega)

/-- What may stand behind a value: the end of the text, or the end of an item. -/
def EndsValue (behind : List Char) : Prop := ∀ c ∈ behind.head?, c ∈ [',', ']', '}']

theorem EndsValue.not_isDigit {behind : List Char} (hends : EndsValue behind) :
    ∀ c ∈ behind.head?, c.isDigit = false := by
  intro c hc
  have hmem := hends c hc
  simp only [List.mem_cons, List.not_mem_nil, or_false] at hmem
  rcases hmem with rfl | rfl | rfl <;> decide

theorem endsValue_cons {c : Char} (hc : c ∈ [',', ']', '}']) (behind : List Char) :
    EndsValue (c :: behind) := by
  rintro _ ⟨⟩
  exact hc

theorem whole?_toDigits (n : Nat) {behind : List Char} (hends : EndsValue behind) :
    whole? (Nat.toDigits 10 n ++ behind) = some (Nat.toDigits 10 n, behind) := by
  have hdigits : ∀ c ∈ Nat.toDigits 10 n, c.isDigit = true := fun c hc =>
    Nat.isDigit_of_mem_toDigits (by decide) (by decide) hc
  have hbehind : behind.takeWhile Char.isDigit = [] ∧ behind.dropWhile Char.isDigit = behind := by
    cases behind with
    | nil => exact ⟨rfl, rfl⟩
    | cons c behind =>
        have hc := hends.not_isDigit c rfl
        simp [hc]
  have hread : digits? (Nat.toDigits 10 n ++ behind) = some (Nat.toDigits 10 n, behind) := by
    rw [digits?, List.takeWhile_append_of_pos hdigits, List.dropWhile_append_of_pos hdigits,
      hbehind.1, hbehind.2, List.append_nil]
    split
    next hnil => exact absurd hnil Nat.toDigits_ne_nil
    next => rfl
  rw [whole?, hread]
  split
  next digits _ hzero =>
    -- Only zero begins with the digit zero, and it has no second digit.
    simp only [Option.some.injEq, Prod.mk.injEq] at hzero
    rcases Nat.eq_zero_or_pos n with rfl | hn
    · simp at hzero
    · exact absurd (by rw [hzero.1]; rfl) (head?_toDigits hn)
  next => rfl

theorem number?_toDigits (n : Nat) {behind : List Char} (hends : EndsValue behind) :
    number? [] (Nat.toDigits 10 n ++ behind) = some (natural n, behind) := by
  have hfraction : fraction? behind = some ([], behind) := by
    cases behind with
    | nil => rfl
    | cons c behind =>
        have hc := hends c rfl
        simp only [List.mem_cons, List.not_mem_nil, or_false] at hc
        rcases hc with rfl | rfl | rfl <;> rfl
  have hexponent : exponent? behind = some ([], behind) := by
    cases behind with
    | nil => rfl
    | cons c behind =>
        have hc := hends c rfl
        simp only [List.mem_cons, List.not_mem_nil, or_false] at hc
        rcases hc with rfl | rfl | rfl <;> rfl
  have hvalue : value (Nat.toDigits 10 n) = n := by
    have hfold := @Nat.ofDigitChars_ten_toDigits n
    simp only [Nat.ofDigitChars, Nat.mul_comm 10] at hfold
    exact hfold
  rw [number?, whole?_toDigits n hends]
  simp [hfraction, hexponent, hvalue]

/-! ## Texts -/

theorem skipBlanks_cons {c : Char} (hc : c ∉ [' ', '\n', '\t', '\r']) (text : List Char) :
    skipBlanks (c :: text) = c :: text := by
  simp only [List.mem_cons, List.not_mem_nil, or_false, not_or] at hc
  rw [skipBlanks, List.dropWhile_cons_of_neg (by simp [hc])]

theorem value?_digit {c : Char} (hc : c.isDigit = true) (fuel : Nat) (text : List Char) :
    value? (fuel + 1) (c :: text) = number? [] (c :: text) := by
  have hrange : ∀ n ≤ 9, value? (fuel + 1) (Char.ofNat (0x30 + n) :: text) =
      number? [] (Char.ofNat (0x30 + n) :: text) := by
    intro n hn
    interval_cases n <;> rfl
  simp only [Char.isDigit, Bool.and_eq_true, decide_eq_true_eq] at hc
  have hlow : 0x30 ≤ c.toNat := UInt32.le_iff_toNat_le.mp hc.1
  have hhigh : c.toNat ≤ 0x39 := UInt32.le_iff_toNat_le.mp hc.2
  have hcode := hrange (c.toNat - 0x30) (by omega)
  rwa [Nat.add_sub_cancel' hlow, Char.ofNat_toNat] at hcode

/-- How the text of a value begins. -/
theorem exists_chars_eq_cons {json : Json} (hplain : json.IsPlain) :
    ∃ c text, chars json = c :: text ∧ c ∉ [' ', '\n', '\t', '\r'] ∧ c ≠ ']' := by
  cases json with
  | null => exact ⟨_, _, rfl, by decide, by decide⟩
  | boolean value => cases value <;> exact ⟨_, _, rfl, by decide, by decide⟩
  | natural value =>
      have htext : chars (natural value) = Nat.toDigits 10 value := Nat.toList_repr
      obtain ⟨c, text, hdigits⟩ := List.exists_cons_of_ne_nil (@Nat.toDigits_ne_nil value 10)
      have hc : c.isDigit = true :=
        @Nat.isDigit_of_mem_toDigits 10 value c (by decide) (by decide) (by simp [hdigits])
      refine ⟨c, text, htext.trans hdigits, ?_, ?_⟩
      · intro hmem
        simp only [List.mem_cons, List.not_mem_nil, or_false] at hmem
        rcases hmem with rfl | rfl | rfl | rfl <;> exact absurd hc (by decide)
      · rintro rfl
        exact absurd hc (by decide)
  | decimal text => exact hplain.elim
  | string value => exact ⟨_, _, rfl, by decide, by decide⟩
  | array items => exact ⟨_, _, rfl, by decide, by decide⟩
  | object members => exact ⟨_, _, rfl, by decide, by decide⟩
  | unreadable => exact hplain.elim

theorem exists_itemChars_eq_cons {item : Json} {items : List Json} (hplain : item.IsPlain) :
    ∃ c text, itemChars (item :: items) = c :: text ∧ c ∉ [' ', '\n', '\t', '\r'] ∧ c ≠ ']' := by
  obtain ⟨c, text, htext, hblank, hbracket⟩ := exists_chars_eq_cons hplain
  cases items with
  | nil => exact ⟨c, text ++ [']'], by rw [itemChars, htext, List.cons_append], hblank, hbracket⟩
  | cons next items =>
      exact ⟨c, text ++ ',' :: itemChars (next :: items),
        by rw [itemChars, htext, List.cons_append], hblank, hbracket⟩

theorem value?_array {text : List Char} {c : Char} (hblank : c ∉ [' ', '\n', '\t', '\r'])
    (hbracket : c ≠ ']') (fuel : Nat) :
    value? (fuel + 1) ('[' :: c :: text) =
      (items? fuel (c :: text)).map fun (items, behind) => (array items, behind) := by
  have hskip := skipBlanks_cons hblank text
  have hopen : skipBlanks ('[' :: c :: text) = '[' :: c :: text := rfl
  rw [value?, hopen]
  simp only [hskip]
  split
  next heq => exact absurd (List.cons.inj heq).1 hbracket
  next => rfl

theorem exists_memberChars_eq_cons (member : String × Json) (members : List (String × Json)) :
    ∃ text, memberChars (member :: members) = '"' :: text := by
  obtain ⟨name, json⟩ := member
  cases members with
  | nil => exact ⟨_, rfl⟩
  | cons next members => exact ⟨_, rfl⟩

theorem items?_last {fuel : Nat} {text behind : List Char} {item : Json}
    (hitem : value? fuel text = some (item, ']' :: behind)) :
    items? (fuel + 1) text = some ([item], behind) := by
  have hskip := skipBlanks_cons (c := ']') (by decide) behind
  simp [items?, hitem, hskip]

theorem items?_next {fuel : Nat} {text rest behind : List Char} {item : Json} {items : List Json}
    (hitem : value? fuel text = some (item, ',' :: rest))
    (hitems : items? fuel rest = some (items, behind)) :
    items? (fuel + 1) text = some (item :: items, behind) := by
  have hskip := skipBlanks_cons (c := ',') (by decide) rest
  simp [items?, hitem, hskip, hitems]

theorem members?_quote (fuel : Nat) (name : String) (text : List Char) :
    members? (fuel + 1) (quote name ++ ':' :: text) =
      match value? fuel text with
      | none => none
      | some (json, behind) =>
        match skipBlanks behind with
        | ',' :: rest =>
          (members? fuel rest).map fun (others, behind) => (consMember name json others, behind)
        | '}' :: rest => some (consMember name json (object []), rest)
        | _ => none := by
  have hquote := skipBlanks_cons (c := '"') (by decide)
    (name.toList.flatMap escape ++ '"' :: ':' :: text)
  have hcolon := skipBlanks_cons (c := ':') (by decide) text
  rw [quote_append, members?, hquote]
  simp only [string?_quote, hcolon]
  all_goals rfl

theorem members?_last {fuel : Nat} {text behind : List Char} {name : String} {json : Json}
    (hjson : value? fuel text = some (json, '}' :: behind)) :
    members? (fuel + 1) (quote name ++ ':' :: text) = some (object [(name, json)], behind) := by
  have hskip := skipBlanks_cons (c := '}') (by decide) behind
  simp [members?_quote, hjson, hskip, consMember]

theorem members?_next {fuel : Nat} {text rest behind : List Char} {name : String} {json : Json}
    {members : List (String × Json)} (hjson : value? fuel text = some (json, ',' :: rest))
    (hmembers : members? fuel rest = some (object members, behind)) :
    members? (fuel + 1) (quote name ++ ':' :: text) =
      some (object ((name, json) :: members), behind) := by
  have hskip := skipBlanks_cons (c := ',') (by decide) rest
  simp [members?_quote, hjson, hskip, hmembers, consMember]

mutual

/-- The text of a value is read as the value. -/
theorem value?_chars (json : Json) (hplain : json.IsPlain) {fuel : Nat} {behind : List Char}
    (hfuel : (chars json).length ≤ fuel) (hends : EndsValue behind) :
    value? fuel (chars json ++ behind) = some (json, behind) := by
  obtain ⟨c, text, htext, -, -⟩ := exists_chars_eq_cons hplain
  have hne : fuel ≠ 0 := by
    rw [htext, List.length_cons] at hfuel
    omega
  obtain ⟨fuel, rfl⟩ := Nat.exists_eq_add_one_of_ne_zero hne
  match json, hplain with
  | null, _ => rfl
  | boolean true, _ => rfl
  | boolean false, _ => rfl
  | natural value, _ =>
      have hchars : chars (natural value) = Nat.toDigits 10 value := Nat.toList_repr
      have hdigit : c.isDigit = true :=
        @Nat.isDigit_of_mem_toDigits 10 value c (by decide) (by decide)
          (by rw [← hchars, htext]; exact List.mem_cons_self)
      have hnumber := number?_toDigits value hends
      rw [← hchars, htext, List.cons_append] at hnumber
      rw [htext, List.cons_append, value?_digit hdigit, hnumber]
  | string value, _ =>
      have hstring := string?_quote value behind
      have hopen : value? (fuel + 1) ('"' :: (value.toList.flatMap escape ++ '"' :: behind)) =
          (string? (value.toList.flatMap escape ++ '"' :: behind)).map fun (text, behind) =>
            (match text with | some text => string text | none => unreadable, behind) := rfl
      rw [chars, quote_append, hopen, hstring]
      rfl
  | array [], _ => rfl
  | array (item :: items), hplain =>
      rw [IsPlain] at hplain
      obtain ⟨c, rest, hrest, hblank, hbracket⟩ :=
        @exists_itemChars_eq_cons item items (by rw [AllPlain] at hplain; exact hplain.1)
      rw [chars, List.length_cons] at hfuel
      have hitems := items?_itemChars (item :: items) (by simp) hplain
        (Nat.le_of_succ_le_succ hfuel) behind
      rw [hrest, List.cons_append] at hitems
      rw [chars, hrest, List.cons_append, List.cons_append, value?_array hblank hbracket, hitems]
      rfl
  | object [], _ => rfl
  | object (member :: members), hplain =>
      rw [IsPlain] at hplain
      rw [chars, List.length_cons] at hfuel
      obtain ⟨text, htext⟩ := exists_memberChars_eq_cons member members
      have hmembers := members?_memberChars (member :: members) (by simp) hplain
        (Nat.le_of_succ_le_succ hfuel) behind
      rw [htext, List.cons_append] at hmembers
      rw [chars, htext, List.cons_append, List.cons_append]
      exact hmembers

/-- The text of the items of a list is read as the items. -/
theorem items?_itemChars (items : List Json) (hne : items ≠ []) (hplain : AllPlain items)
    {fuel : Nat} (hfuel : (itemChars items).length ≤ fuel) (behind : List Char) :
    items? fuel (itemChars items ++ behind) = some (items, behind) := by
  match items, hplain with
  | [], _ => exact absurd rfl hne
  | [item], hplain =>
      rw [AllPlain] at hplain
      rw [itemChars, List.length_append, List.length_singleton] at hfuel
      obtain ⟨fuel, rfl⟩ := Nat.exists_eq_add_one_of_ne_zero (n := fuel) (by omega)
      have hitem := value?_chars item hplain.1 (Nat.le_of_succ_le_succ hfuel)
        (endsValue_cons (c := ']') (by decide) behind)
      rw [itemChars, List.append_assoc]
      exact items?_last hitem
  | item :: next :: rest, hplain =>
      rw [AllPlain] at hplain
      rw [itemChars, List.length_append, List.length_cons] at hfuel
      obtain ⟨fuel, rfl⟩ := Nat.exists_eq_add_one_of_ne_zero (n := fuel) (by omega)
      have hlength : (chars item).length ≤ fuel ∧ (itemChars (next :: rest)).length ≤ fuel := by
        omega
      have hitem := value?_chars item hplain.1 hlength.1
        (endsValue_cons (c := ',') (by decide) (itemChars (next :: rest) ++ behind))
      have hitems := items?_itemChars (next :: rest) (by simp) hplain.2 hlength.2 behind
      rw [itemChars, List.append_assoc]
      exact items?_next hitem hitems

/-- The text of the members of an object is read as the members. -/
theorem members?_memberChars (members : List (String × Json)) (hne : members ≠ [])
    (hplain : MembersPlain members) {fuel : Nat} (hfuel : (memberChars members).length ≤ fuel)
    (behind : List Char) :
    members? fuel (memberChars members ++ behind) = some (object members, behind) := by
  match members, hplain with
  | [], _ => exact absurd rfl hne
  | [(name, json)], hplain =>
      rw [MembersPlain] at hplain
      simp only [memberChars, List.length_append, List.length_cons, List.length_nil] at hfuel
      obtain ⟨fuel, rfl⟩ := Nat.exists_eq_add_one_of_ne_zero (n := fuel) (by omega)
      have hlength : (chars json).length ≤ fuel := by omega
      have hjson := value?_chars json hplain.1 hlength
        (endsValue_cons (c := '}') (by decide) behind)
      simp only [memberChars, List.append_assoc, List.cons_append, List.nil_append]
      exact members?_last hjson
  | (name, json) :: next :: rest, hplain =>
      rw [MembersPlain] at hplain
      simp only [memberChars.eq_3, List.length_append, List.length_cons] at hfuel
      obtain ⟨fuel, rfl⟩ := Nat.exists_eq_add_one_of_ne_zero (n := fuel) (by omega)
      have hlength : (chars json).length ≤ fuel ∧ (memberChars (next :: rest)).length ≤ fuel := by
        omega
      have hjson := value?_chars json hplain.1 hlength.1
        (endsValue_cons (c := ',') (by decide) (memberChars (next :: rest) ++ behind))
      have hmembers := members?_memberChars (next :: rest) (by simp) hplain.2 hlength.2 behind
      rw [memberChars.eq_3, List.append_assoc, List.cons_append, List.append_assoc,
        List.cons_append]
      exact members?_next hjson hmembers

end

end Reader

theorem parse?_render {json : Json} (hplain : json.IsPlain) : parse? json.render = some json := by
  have hvalue := @Reader.value?_chars json hplain ((Writer.chars json).length + 1) [] (by omega)
    (by simp [Reader.EndsValue])
  rw [List.append_nil] at hvalue
  rw [parse?, render, String.toList_ofList, hvalue]
  rfl

end Json

end SelectForm

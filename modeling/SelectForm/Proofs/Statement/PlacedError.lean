import Mathlib
import SelectForm.Proofs.Statement.PlacedFragment
import SelectForm.Proofs.Text.Bytes
import SelectForm.Statement.Parse

/-!
# Where errors point

Nearly every error points at the place where its text stands.  A few point elsewhere: an
error about an empty item of a list shows a comma and points behind the item, even where no
comma follows; some errors show a text without the blanks in front of it and point at the
blanks; and an error about a missing value that shows blanks points behind them.
-/

namespace SelectForm

namespace Text

theorem size_congr {first second : Text}
    (hsame : first.map Char.toUpper = second.map Char.toUpper) : size first = size second := by
  have hlength := congrArg List.length (map_upperByte_congr hsame)
  simpa [length_bytes] using hlength

end Text

theorem Text.isBlank_of_trim_eq_nil {text : Text} (htrim : trim text = []) :
    ∀ c ∈ text, isBlank c = true := by
  obtain ⟨front, back, htext, hfront, hback⟩ := exists_trim text
  rw [htrim, List.nil_append] at htext
  rw [htext]
  exact List.forall_mem_append.mpr ⟨hfront, hback⟩

namespace ParseError

/-- How the place of an error belongs to the text that it shows. -/
inductive Placement
  /-- The text stands at the place, in a statement whose comments are not masked yet. -/
  | unclosed
  /-- The text stands at the place. -/
  | exact
  /-- The text stands behind blanks at the place. -/
  | behindBlanks
  /-- The text is a comma, and the place is behind an empty item. -/
  | behindItem
  /-- The text is blank, and the place is behind it. -/
  | behindText
deriving DecidableEq, Repr

namespace Cause

def placement : Cause → Placement
  | unterminatedComment | unterminatedIdentifier | unterminatedString => .unclosed
  | emptySelectItem | emptyGroupItem | emptyOrderItem => .behindItem
  | textAfterNullTest | missingList | emptyInList | joinWithoutOn | missingJoinCondition =>
    .behindBlanks
  | missingValue => .behindText
  | _ => .exact

end Cause

variable {whole : Text} {error : ParseError}

/-- The text between the offsets of an error is the front of the text of the error, up to
the case of letters. -/
def Shows (whole : Text) (error : ParseError) : Prop :=
  ∃ before shown behind front rest, whole = before ++ (shown ++ behind) ∧
    error.text = front ++ rest ∧ front.map Char.toUpper = shown.map Char.toUpper ∧
      error.start = Text.size before ∧ error.stop = Text.size before + Text.size shown

/-- Blanks stand at the place of an error, and its text behind them. -/
def ShowsBehindBlanks (whole : Text) (error : ParseError) : Prop :=
  ∃ before blanks behind, whole = before ++ (blanks ++ (error.text ++ behind)) ∧
    (∀ c ∈ blanks, Text.isBlank c = true) ∧ error.start = Text.size before ∧
      error.stop = error.start + Text.size error.text

/-- An error shows a comma at some place of a text, or at its end. -/
def ShowsComma (whole : Text) (error : ParseError) : Prop :=
  ∃ before behind, whole = before ++ behind ∧ error.text = [','] ∧
    error.start = Text.size before ∧ error.stop = error.start + 1

/-- An error shows the blanks in front of its place. -/
def ShowsBlanksBefore (whole : Text) (error : ParseError) : Prop :=
  ∃ before behind, whole = before ++ (error.text ++ behind) ∧
    (∀ c ∈ error.text, Text.isBlank c = true) ∧
      error.start = Text.size before + Text.size error.text ∧
        error.stop = error.start + Text.size error.text

/-- An error that is found behind the masking of comments points into the masked text in the
way of its cause; nothing is left open there. -/
def PlacedIn (whole : Text) (error : ParseError) : Prop :=
  match error.cause.placement with
  | .unclosed => False
  | .exact => error.Shows whole
  | .behindBlanks => error.ShowsBehindBlanks whole
  | .behindItem => error.ShowsComma whole
  | .behindText => error.ShowsBlanksBefore whole

theorem PlacedIn.of_shows (hexact : error.cause.placement = .exact) (hshows : error.Shows whole) :
    error.PlacedIn whole := by
  rwa [PlacedIn, hexact]

/-- An error in the front part of a text is an error in the text. -/
theorem PlacedIn.append_right (hplaced : error.PlacedIn whole) (behind : Text) :
    error.PlacedIn (whole ++ behind) := by
  rw [PlacedIn] at hplaced ⊢
  cases hplacement : error.cause.placement with
  | unclosed =>
      rw [hplacement] at hplaced
      exact hplaced
  | exact =>
      rw [hplacement] at hplaced
      obtain ⟨before, shown, rest, front, more, rfl, htext⟩ := hplaced
      exact ⟨before, shown, rest ++ behind, front, more, by simp, htext⟩
  | behindBlanks =>
      rw [hplacement] at hplaced
      obtain ⟨before, blanks, rest, rfl, hplaced⟩ := hplaced
      exact ⟨before, blanks, rest ++ behind, by simp, hplaced⟩
  | behindItem =>
      rw [hplacement] at hplaced
      obtain ⟨before, rest, rfl, hplaced⟩ := hplaced
      exact ⟨before, rest ++ behind, by simp, hplaced⟩
  | behindText =>
      rw [hplacement] at hplaced
      obtain ⟨before, rest, hwhole, hplaced⟩ := hplaced
      exact ⟨before, rest ++ behind, by rw [hwhole]; simp, hplaced⟩

end ParseError

/-! ## Errors at fragments -/

namespace Fragment.LiesIn

variable {whole : Text} {fragment : Fragment} {cause : ParseError.Cause} {clause : Option Clause}

/-- An error that shows a text whose letters may have another case. -/
theorem shows {text : Text} (hlies : fragment.LiesIn whole)
    (hsame : text.map Char.toUpper = fragment.text.map Char.toUpper) :
    ((mk text fragment.start).error cause clause).Shows whole := by
  obtain ⟨before, behind, hwhole, hstart⟩ := hlies
  refine ⟨before, fragment.text, behind, text, [], hwhole, ?_, hsame, hstart, ?_⟩
  · rw [List.append_nil]
    rfl
  · rw [Fragment.error, stop, Text.size_congr hsame, hstart]

theorem error_same {text : Text} (hlies : fragment.LiesIn whole) (hexact : cause.placement = .exact)
    (hsame : text.map Char.toUpper = fragment.text.map Char.toUpper) :
    ((mk text fragment.start).error cause clause).PlacedIn whole :=
  .of_shows hexact (hlies.shows hsame)

theorem error (hlies : fragment.LiesIn whole) (hexact : cause.placement = .exact) :
    (fragment.error cause clause).PlacedIn whole :=
  hlies.error_same hexact rfl

/-- An error that shows a text without the blanks in front of it. -/
theorem error_trimmed (hlies : fragment.LiesIn whole) (hblanks : cause.placement = .behindBlanks) :
    ((mk (Text.trim fragment.text) fragment.start).error cause clause).PlacedIn whole := by
  obtain ⟨before, behind, hwhole, hstart⟩ := hlies
  obtain ⟨front, back, htext, hfront, -⟩ := Text.exists_trim fragment.text
  rw [ParseError.PlacedIn]
  have hcause :
      ((mk (Text.trim fragment.text) fragment.start).error cause clause).cause = cause := rfl
  rw [hcause, hblanks]
  refine ⟨before, front, back ++ behind, ?_, hfront, hstart, rfl⟩
  rw [hwhole]
  conv => lhs; rw [htext]
  simp [Fragment.error]

theorem emptyItemError {clause : Clause} (hlies : fragment.LiesIn whole)
    (hitem : cause.placement = .behindItem) :
    (fragment.emptyItemError cause clause).PlacedIn whole := by
  obtain ⟨before, behind, hwhole, hstart⟩ := hlies
  rw [ParseError.PlacedIn]
  have hcause : (fragment.emptyItemError cause clause).cause = cause := rfl
  rw [hcause, hitem]
  exact ⟨before, fragment.text ++ behind, hwhole, rfl, hstart, rfl⟩

end Fragment.LiesIn

/-! ## Readers -/

/-- All errors that a reader may report point into a text. -/
def PlacesErrors {α : Type} (whole : Text) (result : Except ParseError α) : Prop :=
  ∀ error, result = .error error → error.PlacedIn whole

namespace PlacesErrors

variable {α β : Type} {whole : Text}

theorem ok (value : α) : PlacesErrors whole (.ok value) := by
  intro error herror
  exact absurd herror (by simp)

theorem error {error : ParseError} (hplaced : error.PlacedIn whole) :
    PlacesErrors whole (.error error : Except ParseError α) := by
  rintro _ ⟨⟩
  exact hplaced

theorem bind {first : Except ParseError α} {next : α → Except ParseError β}
    (hfirst : PlacesErrors whole first)
    (hnext : ∀ value, first = .ok value → PlacesErrors whole (next value)) :
    PlacesErrors whole (first >>= next) := by
  cases first with
  | error error => exact .error (hfirst error rfl)
  | ok value => exact hnext value rfl

theorem map {first : Except ParseError α} (hfirst : PlacesErrors whole first) (f : α → β) :
    PlacesErrors whole (first >>= fun value => .ok (f value)) :=
  hfirst.bind fun _ _ => .ok _

theorem mapM {items : List α} {read : α → Except ParseError β}
    (hread : ∀ item ∈ items, PlacesErrors whole (read item)) :
    PlacesErrors whole (items.mapM read) := by
  induction items with
  | nil => exact .ok []
  | cons item items ih =>
      rw [List.forall_mem_cons] at hread
      rw [List.mapM_cons]
      exact hread.1.bind fun _ _ => (ih hread.2).map _

theorem foldlM {items : List α} {read : β → α → Except ParseError β}
    (hread : ∀ item ∈ items, ∀ value, PlacesErrors whole (read value item)) (first : β) :
    PlacesErrors whole (items.foldlM read first) := by
  induction items generalizing first with
  | nil => exact .ok first
  | cons item items ih =>
      rw [List.forall_mem_cons] at hread
      rw [List.foldlM_cons]
      exact (hread.1 first).bind fun value _ => ih hread.2 value

end PlacesErrors

/-! ## Columns, operands and lists -/

variable {whole : Text} {fragment item : Fragment} {clause : Clause}

theorem ColumnTerm.placesErrors_read (hlies : fragment.LiesIn whole) :
    PlacesErrors whole (read clause fragment) := by
  have htrim := hlies.trim
  rw [read]
  dsimp only
  split
  · split
    · exact .error (htrim.error rfl)
    · split
      · exact .error (htrim.error rfl)
      · split
        · exact .error (htrim.error rfl)
        · exact .ok _
  · split
    · exact .ok _
    · exact .error (htrim.error rfl)

/-- An error about a missing value shows the blanks in its place and points behind them. -/
theorem Operand.placesErrors_read (hlies : fragment.LiesIn whole) :
    PlacesErrors whole (read clause fragment) := by
  have htrim := hlies.trim
  rw [read]
  split
  · rename_i hempty
    obtain ⟨before, behind, hwhole, hstart⟩ := hlies
    have hblank := Text.isBlank_of_trim_eq_nil (List.isEmpty_iff.mp hempty)
    have hleading : Text.leading fragment.text = fragment.text :=
      List.takeWhile_eq_self_iff.mpr hblank
    refine .error ⟨before, behind, hwhole, hblank, ?_, rfl⟩
    have hplace : fragment.trim.start = fragment.start + Text.size fragment.text :=
      congrArg (fun text => fragment.start + Text.size text) hleading
    exact hplace.trans (by rw [hstart]; rfl)
  · split
    · exact .error (htrim.error rfl)
    · split
      · exact .ok _
      · split
        · exact .ok _
        · split
          · split
            · exact .ok _
            · exact .error (htrim.error rfl)
          · exact .error (htrim.error rfl)

theorem SelectItem.placesErrors_read (hlies : item.LiesIn whole)
    (hleading : Text.leading item.text = []) : PlacesErrors whole (read item) := by
  have hexpression : (Fragment.mk (Text.splitAlias item.text).1 item.start).LiesIn whole :=
    hlies.of_isPrefix ((Text.splitAlias_isPrefix _).trans (Text.trim_isPrefix hleading))
  rw [read]
  refine (ColumnTerm.placesErrors_read hexpression).bind fun term _ => ?_
  split
  · exact .ok _
  · split
    · exact .error (hlies.error rfl)
    · split
      · exact .error (hlies.error rfl)
      · exact .ok _

theorem PlacesErrors.items {α : Type} {cause : ParseError.Cause}
    {read : Fragment → Except ParseError α}
    (hlies : fragment.LiesIn whole) (hitem : cause.placement = .behindItem)
    (hread : ∀ item ∈ fragment.splitList, item.LiesIn whole → PlacesErrors whole (read item)) :
    PlacesErrors whole (fragment.splitList.mapM fun item =>
      if item.text.isEmpty then .error (item.emptyItemError cause clause) else read item) := by
  refine .mapM fun item hmem => ?_
  have hpart := hlies.splitList item hmem
  split
  · exact .error (hpart.emptyItemError hitem)
  · exact hread item hmem hpart

theorem SelectItem.placesErrors_readList (hlies : fragment.LiesIn whole) :
    PlacesErrors whole (readList fragment) := by
  rw [readList]
  refine .map (.items (hlies.skipAsciiBlanks.drop _) rfl fun item hmem hpart => ?_) _
  exact placesErrors_read hpart (Fragment.leading_of_mem_splitList hmem)

theorem GroupItem.placesErrors_read (hlies : item.LiesIn whole) :
    PlacesErrors whole (read item) := by
  rw [read]
  refine (ColumnTerm.placesErrors_read hlies).bind fun term _ => ?_
  split
  · exact .error (hlies.error rfl)
  · split
    · exact .error (hlies.error rfl)
    · exact .ok _

theorem GroupItem.placesErrors_readList (hlies : fragment.LiesIn whole) :
    PlacesErrors whole (readList fragment) :=
  .items hlies rfl fun _ _ => placesErrors_read

theorem OrderItem.placesErrors_read (hlies : item.LiesIn whole)
    (hleading : Text.leading item.text = []) : PlacesErrors whole (read item) := by
  have hexpression : (Fragment.mk (Text.splitDirection item.text).1 item.start).LiesIn whole :=
    hlies.of_isPrefix ((Text.splitDirection_isPrefix _).trans (Text.trim_isPrefix hleading))
  rw [read]
  refine (ColumnTerm.placesErrors_read hexpression).bind fun term _ => ?_
  split
  · exact .error (hlies.error rfl)
  · exact .ok _

theorem OrderItem.placesErrors_readList (hlies : fragment.LiesIn whole) :
    PlacesErrors whole (readList fragment) :=
  .items hlies rfl fun _ hmem hpart =>
    placesErrors_read hpart (Fragment.leading_of_mem_splitList hmem)

/-! ## Conditions -/

namespace Condition

variable {body right : Fragment} {condition : Condition}

theorem placesErrors_splitOperator (hlies : body.LiesIn whole) :
    PlacesErrors whole (splitOperator clause body) := by
  rw [splitOperator]
  split
  · exact .error (hlies.error rfl)
  · split
    · exact .ok _
    · dsimp only
      split
      · exact .error (hlies.error rfl)
      · exact .ok _

/-- The parts of a condition that is split at its operator. -/
theorem liesIn_of_splitOperator {split : OperatorSplit} (hlies : body.LiesIn whole)
    (hsplit : splitOperator clause body = .ok split) :
    split.left.LiesIn whole ∧ split.right.LiesIn whole ∧ split.left.text <+: body.text := by
  unfold splitOperator at hsplit
  split at hsplit
  · exact absurd hsplit (by simp)
  · rename_i found hfound
    obtain ⟨hbefore, -, hafter⟩ := hlies.splitFirst? hfound
    have hprefix := Fragment.before_isPrefix hfound
    split at hsplit
    · obtain rfl := Except.ok.inj hsplit
      exact ⟨hbefore, hafter, hprefix⟩
    · dsimp only at hsplit
      split at hsplit
      · exact absurd hsplit (by simp)
      · obtain rfl := Except.ok.inj hsplit
        exact ⟨hbefore, hlies.drop _, hprefix⟩

/-- The left side of a condition that begins with no blank. -/
theorem placesErrors_readTerm {left : Fragment} (hlies : left.LiesIn whole)
    (hleading : Text.leading left.text = []) : PlacesErrors whole (readTerm clause left) := by
  have htrimmed : (Fragment.mk (Text.trim left.text) left.start).LiesIn whole :=
    hlies.of_isPrefix (Text.trim_isPrefix hleading)
  rw [readTerm]
  refine (ColumnTerm.placesErrors_read hlies).bind fun term _ => ?_
  split
  · exact .error (htrimmed.error rfl)
  · split
    · exact .error (htrimmed.error rfl)
    · exact .ok _

theorem placesErrors_readOperands (hbody : body.LiesIn whole) (hright : right.LiesIn whole) :
    PlacesErrors whole (readOperands clause body right condition) := by
  rw [readOperands]
  split
  · split
    · exact .ok _
    · exact .error (hright.error_trimmed rfl)
  · split
    · exact .ok _
    · exact .error (hright.error_trimmed rfl)
  · split
    · exact .error (hbody.error rfl)
    · rename_i split hsplit
      obtain ⟨hbefore, -, hafter⟩ := hright.splitFirst? hsplit
      exact (Operand.placesErrors_read hbefore).bind fun _ _ =>
        (Operand.placesErrors_read hafter).map _
  · split
    · exact .error (hright.error_trimmed rfl)
    · rename_i inner hinside
      split
      · exact .error (hright.error_trimmed rfl)
      · exact .map (.mapM fun item hmem => Operand.placesErrors_read
          ((hright.inside? hinside).splitList item hmem)) _
  · exact (Operand.placesErrors_read hright).map _

theorem placesErrors_read (hlies : fragment.LiesIn whole) :
    PlacesErrors whole (read clause fragment) := by
  have hbody := liesIn_strip hlies
  have hleading := leading_strip fragment
  rw [read]
  split
  rename_i body negated hstrip
  rw [hstrip] at hbody hleading
  split
  · exact .error (hbody.error rfl)
  · refine (placesErrors_splitOperator hbody).bind fun split hsplit => ?_
    obtain ⟨hleft, hright, hprefix⟩ := liesIn_of_splitOperator hbody hsplit
    have hbare := Text.leading_of_isPrefix hprefix hleading
    refine (placesErrors_readTerm hleft hbare).bind fun _ _ => ?_
    exact placesErrors_readOperands hbody hright

theorem placesErrors_readChain (hlies : fragment.LiesIn whole) :
    PlacesErrors whole (readChain clause fragment) := by
  refine .mapM fun part hmem => ?_
  rw [readPart]
  split
  · exact .error (hlies.trim.error rfl)
  · exact (placesErrors_read (hlies.splitChain _ part hmem)).map _

end Condition

/-! ## Tables and joins -/

theorem TableItem.placesErrors_read (hlies : fragment.LiesIn whole) :
    PlacesErrors whole (read clause fragment) := by
  have htrim := hlies.trim
  rw [read]
  dsimp only
  split
  · exact .error (htrim.error rfl)
  · split
    · exact .error (htrim.error rfl)
    · split
      · exact .error (htrim.error rfl)
      · split
        · exact .ok _
        · split
          · exact .ok _
          · exact .error (htrim.error rfl)

theorem JoinCondition.placesErrors_read (hlies : fragment.LiesIn whole) :
    PlacesErrors whole (read fragment) := by
  rw [read]
  split
  · exact .error (hlies.openAll.error rfl)
  · exact .ok _
  · exact .error (hlies.openAll.error rfl)

theorem Keyword.map_toUpper_mark {keyword : Keyword} {word : Text} {split : Fragment.Split Unit}
    (hform : keyword.form = .phrase [word])
    (hsplit : fragment.splitFirst? (.ofKeyword keyword) = some split) :
    split.mark.text.map Char.toUpper = word :=
  Fragment.mark_splitFirst? (P := fun _ mark => mark.map Char.toUpper = word)
    (fun _ _ _ _ => toUpper_of_ofKeyword hform) hsplit

theorem JoinCondition.placesErrors_readChain (hlies : fragment.LiesIn whole) :
    PlacesErrors whole (readChain fragment) := by
  rw [readChain]
  split
  · rename_i split hsplit
    obtain ⟨-, hmark, -⟩ := hlies.splitFirst? hsplit
    exact .error (hmark.error_same rfl (Keyword.map_toUpper_mark rfl hsplit).symm)
  · refine .mapM fun part hmem => ?_
    split
    · exact .error (hlies.error_trimmed rfl)
    · exact placesErrors_read (hlies.splitChain _ part hmem)

theorem Join.placesErrors_readBody {kind : JoinKind} {body : Fragment} (hlies : body.LiesIn whole) :
    PlacesErrors whole (readBody kind body) := by
  rw [readBody]
  split
  · rename_i split hsplit
    obtain ⟨-, hmark, -⟩ := hlies.splitFirst? hsplit
    exact .error (hmark.error_same rfl (Keyword.map_toUpper_mark rfl hsplit).symm)
  · split
    · exact .error (hlies.error_trimmed rfl)
    · rename_i split hsplit
      obtain ⟨hbefore, -, hafter⟩ := hlies.splitFirst? hsplit
      exact (TableItem.placesErrors_read hbefore).bind fun _ _ =>
        (JoinCondition.placesErrors_readChain hafter).map _

theorem Join.placesErrors_readSegment {segment : Segment JoinMark}
    (hmark : segment.mark.LiesIn whole) (hbody : segment.body.LiesIn whole) :
    PlacesErrors whole (readSegment segment) := by
  rw [readSegment]
  split
  · exact placesErrors_readBody hbody
  · exact .error (hmark.error rfl)
  · exact .error (hmark.error rfl)

end SelectForm

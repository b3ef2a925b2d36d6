import Mathlib
import SelectForm.Proofs.Lexis.MaskedText
import SelectForm.Proofs.Lexis.RowSpans
import SelectForm.Proofs.Text.Cuts

/-!
# Scanning byte by byte

The spans of a text can be found in its bytes alone.  The scan below looks at one byte after the
other and cuts the text at offsets; it has no result if it looks behind the end of the text, or cuts
the text inside a character.  It always has one, and finds the spans of the text: whatever ends a
span is a byte of ASCII, and no other character has such a byte.
-/

namespace SelectForm

/-- The byte of a quotation mark. -/
def Quote.byte : Quote → UInt8
  | single => 0x27
  | double => 0x22

namespace Bytewise

/-! ## The scan -/

/-- Whether a literal or a comment begins at a byte. -/
def opensAt (text : Text) (place : Nat) : Option Bool := do
  let byte ← text.byteAt? place
  if byte = 0x27 ∨ byte = 0x22 then
    some true
  else if byte = 0x2D then
    some (text.byteAt? (place + 1) = some 0x2D)
  else if byte = 0x2F then
    some (text.byteAt? (place + 1) = some 0x2A)
  else
    some false

/-- Where code ends. -/
def codeEnd (text : Text) (place : Nat) : Option Nat :=
  if place < Text.size text then do
    let opens ← opensAt text place
    if opens then some place else codeEnd text (place + 1)
  else
    some place
termination_by Text.size text - place

/-- Where a literal ends, and whether it is closed. -/
def quotedEnd (text : Text) (quote : Quote) (place : Nat) : Option (Nat × Bool) :=
  if place < Text.size text then do
    let byte ← text.byteAt? place
    if byte = quote.byte then
      if text.byteAt? (place + 1) = some quote.byte then
        quotedEnd text quote (place + 2)
      else
        some (place + 1, true)
    else
      quotedEnd text quote (place + 1)
  else
    some (place, false)
termination_by Text.size text - place

/-- Where a comment of one line ends. -/
def lineEnd (text : Text) (place : Nat) : Option Nat :=
  if place < Text.size text then do
    let byte ← text.byteAt? place
    if byte = 0x0A then some place else lineEnd text (place + 1)
  else
    some place
termination_by Text.size text - place

/-- Where a block comment ends, and whether it is closed. -/
def blockEnd (text : Text) (place : Nat) : Option (Nat × Bool) :=
  if place < Text.size text then do
    let byte ← text.byteAt? place
    if byte = 0x2A ∧ text.byteAt? (place + 1) = some 0x2F then
      some (place + 2, true)
    else
      blockEnd text (place + 1)
  else
    some (place, false)
termination_by Text.size text - place

/-- The kind and the end of the span that begins at a byte, and whether it is closed. -/
def spanAt (text : Text) (place : Nat) : Option (SpanKind × Nat × Bool) := do
  let byte ← text.byteAt? place
  if byte = 0x27 then
    (quotedEnd text .single (place + 1)).map fun stop => (.quoted .single, stop)
  else if byte = 0x22 then
    (quotedEnd text .double (place + 1)).map fun stop => (.quoted .double, stop)
  else if byte = 0x2D ∧ text.byteAt? (place + 1) = some 0x2D then
    (lineEnd text (place + 2)).map fun stop => (.lineComment, stop, true)
  else if byte = 0x2F ∧ text.byteAt? (place + 1) = some 0x2A then
    (blockEnd text (place + 2)).map fun stop => (.blockComment, stop)
  else
    (codeEnd text (place + 1)).map fun stop => (.code, stop, true)

/-- The spans from a byte on. -/
def spansFrom (text : Text) (place : Nat) : Option (List Span) :=
  if place < Text.size text then do
    let (kind, stop, terminated) ← spanAt text place
    let piece ← text.cut? place stop
    if place < stop then
      (spansFrom text stop).map (⟨kind, place, piece, terminated⟩ :: ·)
    else
      none
  else
    some []
termination_by Text.size text - place

/-- The spans of a text. -/
def spans (text : Text) : Option (List Span) := spansFrom text 0

/-- For every byte of a text, whether it is code. -/
def codeMask (text : Text) : Option (List Bool) :=
  (spans text).map fun spans =>
    spans.flatMap fun span => List.replicate (Text.size span.text) (span.kind == .code)

/-- A text whose comments are replaced by spaces. -/
def maskComments (text : Text) : Option Text :=
  (spans text).map fun spans =>
    spans.flatMap fun span =>
      if span.kind.isComment then List.replicate (Text.size span.text) ' ' else span.text

end Bytewise

/-! ## Reading a span -/

namespace Mode

variable {kind : SpanKind} {mode middle next : Mode} {rest content behind : Text} {c : Char}

/-- A span is read on, in a mode, up to the place where the next one begins. -/
structure ReadsOn (kind : SpanKind) (mode : Mode) (rest content behind : Text) (next : Mode) :
    Prop where
  text : rest = content ++ behind
  cells : mode.cells rest = content.map (⟨·, kind, false⟩) ++ next.cells behind
  after : mode.after rest = next.after behind
  opens : ∀ cell ∈ (next.cells behind).head?, cell.opens = true
  closed : behind ≠ [] → next.isOpen = false

namespace ReadsOn

theorem stop (hopens : ∀ cell ∈ (mode.cells rest).head?, cell.opens = true)
    (hclosed : rest ≠ [] → mode.isOpen = false) : ReadsOn kind mode rest [] rest mode :=
  ⟨rfl, rfl, rfl, hopens, hclosed⟩

theorem atEnd : ReadsOn kind mode [] [] [] mode :=
  stop (by simp [Mode.cells]) fun hne => absurd rfl hne

theorem cons (hstep : mode.step c rest.head? = (⟨c, kind, false⟩, middle))
    (hreads : ReadsOn kind middle rest content behind next) :
    ReadsOn kind mode (c :: rest) (c :: content) behind next where
  text := congrArg (c :: ·) hreads.text
  cells := by
    rw [Mode.cells, hstep, hreads.cells]
    rfl
  after := by
    rw [Mode.after, hstep, hreads.after]
  opens := hreads.opens
  closed := hreads.closed

end ReadsOn

/-- A new span begins behind the end of another one. -/
theorem opens_between : ∀ cell ∈ (between.cells rest).head?, cell.opens = true := by
  cases rest with
  | nil => simp [cells]
  | cons c rest =>
      intro cell hcell
      obtain rfl := Option.some.inj hcell
      simp only [step, enter]
      split
      · rfl
      · split_ifs <;> rfl

end Mode

theorem Quote.byte_eq (quote : Quote) : quote.byte = UInt8.ofNat quote.char.toNat := by
  cases quote <;> rfl

theorem Quote.toNat_char_lt (quote : Quote) : quote.char.toNat < 0x80 := by
  cases quote <;> decide

namespace Bytewise

open Mode (ReadsOn)

variable {front rest : Text} {c : Char}

/-! ### Literals -/

theorem quotedEnd_pass {quote : Quote} (hc : c ≠ quote.char) (front rest : Text) :
    quotedEnd (front ++ c :: rest) quote (Text.size front) =
      quotedEnd (front ++ c :: rest) quote (Text.size front + c.utf8Size) := by
  refine Text.pass_char front rest fun place byte _ _ hbyte hmem => ?_
  have hne : byte ≠ quote.byte := by
    rw [quote.byte_eq]
    exact fun h => hc ((Text.eq_ofNat_iff_of_mem hmem _ quote.toNat_char_lt).mp h)
  rw [quotedEnd, if_pos (Text.lt_size_of_byteAt? hbyte), hbyte]
  exact if_neg hne

theorem byteAt?_quote (quote : Quote) (front rest : Text) :
    Text.byteAt? (front ++ quote.char :: rest) (Text.size front) = some quote.byte := by
  rw [quote.byte_eq, Text.byteAt?_eq_iff quote.toNat_char_lt]
  rfl

theorem quotedEnd_char (quote : Quote) (front rest : Text) :
    quotedEnd (front ++ quote.char :: rest) quote (Text.size front) =
      if rest.head? = some quote.char then
        quotedEnd (front ++ quote.char :: rest) quote (Text.size front + 2)
      else
        some (Text.size front + 1, true) := by
  have hascii := quote.toNat_char_lt
  have hbyte := byteAt?_quote quote front rest
  rw [quotedEnd, if_pos (Text.lt_size_of_byteAt? hbyte), hbyte]
  simp only [Option.bind_eq_bind, Option.bind_some, if_true, quote.byte_eq,
    Text.byteAt?_succ_iff hascii hascii]

theorem quotedEnd_eq (quote : Quote) (front rest : Text) :
    ∃ content behind next, ReadsOn (.quoted quote) (.quoted quote) rest content behind next ∧
      quotedEnd (front ++ rest) quote (Text.size front) =
        some (Text.size front + Text.size content, !next.isOpen) := by
  induction hlength : rest.length using Nat.strong_induction_on generalizing front rest with
  | h length ih =>
      subst hlength
      have hquote : quote.char.utf8Size = 1 := Text.utf8Size_of_lt quote.toNat_char_lt
      cases rest with
      | nil =>
          refine ⟨[], [], _, .atEnd, ?_⟩
          rw [quotedEnd, if_neg (by simp)]
          rfl
      | cons c rest =>
          by_cases hc : c = quote.char
          · subst hc
            rw [quotedEnd_char]
            split
            · -- The mark is written twice, and the literal goes on behind both.
              rename_i hdoubled
              obtain ⟨rest, rfl⟩ := List.head?_eq_some_iff.mp hdoubled
              obtain ⟨content, behind, next, hreads, hend⟩ :=
                ih rest.length (by simp) (front ++ [quote.char, quote.char]) rest rfl
              have hmark : ReadsOn (.quoted quote) (.doubled quote) (quote.char :: rest)
                  (quote.char :: content) behind next := hreads.cons rfl
              refine ⟨_, behind, next, hmark.cons (by simp [Mode.step]), ?_⟩
              have hsize : Text.size (front ++ [quote.char, quote.char]) = Text.size front + 2 := by
                simp [hquote]
              have hcontent : Text.size front + 2 + Text.size content =
                  Text.size front + Text.size (quote.char :: quote.char :: content) := by
                simp only [Text.size_cons, hquote]
                omega
              rw [List.append_assoc, hsize, hcontent] at hend
              exact hend
            · rename_i hclosed
              refine ⟨[quote.char], rest, .between, .cons (by simp [Mode.step, hclosed])
                (.stop Mode.opens_between fun _ => rfl), ?_⟩
              simp [hquote, Mode.isOpen]
          · obtain ⟨content, behind, next, hreads, hend⟩ :=
              ih rest.length (Nat.lt_succ_self _) (front ++ [c]) rest rfl
            refine ⟨c :: content, behind, next, hreads.cons (by simp [Mode.step, hc]), ?_⟩
            rw [quotedEnd_pass hc, Text.size_cons, ← Nat.add_assoc]
            simpa using hend

/-! ### Comments -/

theorem lineEnd_pass (hc : c ≠ '\n') (front rest : Text) :
    lineEnd (front ++ c :: rest) (Text.size front) =
      lineEnd (front ++ c :: rest) (Text.size front + c.utf8Size) := by
  refine Text.pass_char front rest fun place byte _ _ hbyte hmem => ?_
  have hne : byte ≠ 0x0A := fun h => hc ((Text.eq_ofNat_iff_of_mem hmem '\n' (by decide)).mp h)
  rw [lineEnd, if_pos (Text.lt_size_of_byteAt? hbyte), hbyte]
  exact if_neg hne

theorem lineEnd_eq (front rest : Text) :
    ∃ content behind, ReadsOn .lineComment .line rest content behind .line ∧
      lineEnd (front ++ rest) (Text.size front) = some (Text.size front + Text.size content) := by
  induction rest generalizing front with
  | nil =>
      refine ⟨[], [], .atEnd, ?_⟩
      rw [lineEnd, if_neg (by simp)]
      rfl
  | cons c rest ih =>
      by_cases hc : c = '\n'
      · subst hc
        refine ⟨[], '\n' :: rest, .stop ?_ fun _ => rfl, ?_⟩
        · intro cell hcell
          obtain rfl := Option.some.inj hcell
          rfl
        · have hbyte : Text.byteAt? (front ++ '\n' :: rest) (Text.size front) = some 0x0A :=
            (Text.byteAt?_eq_iff (c := '\n') (by decide)).mpr rfl
          rw [lineEnd, if_pos (Text.lt_size_of_byteAt? hbyte), hbyte]
          rfl
      · obtain ⟨content, behind, hreads, hend⟩ := ih (front ++ [c])
        refine ⟨c :: content, behind, hreads.cons (by simp [Mode.step, hc]), ?_⟩
        rw [lineEnd_pass hc, Text.size_cons, ← Nat.add_assoc]
        simpa using hend

theorem blockEnd_pass (hc : c = '*' → rest.head? ≠ some '/') (front : Text) :
    blockEnd (front ++ c :: rest) (Text.size front) =
      blockEnd (front ++ c :: rest) (Text.size front + c.utf8Size) := by
  refine Text.pass_char front rest fun place byte hstart hstop hbyte hmem => ?_
  have hne : ¬ (byte = 0x2A ∧ Text.byteAt? (front ++ c :: rest) (place + 1) = some 0x2F) := by
    rintro ⟨hstar, hslash⟩
    obtain rfl : c = '*' := (Text.eq_ofNat_iff_of_mem hmem '*' (by decide)).mp hstar
    obtain rfl : place = Text.size front := by
      have hsize : '*'.utf8Size = 1 := rfl
      omega
    exact hc rfl ((Text.byteAt?_succ_iff (by decide) (by decide)).mp hslash)
  rw [blockEnd, if_pos (Text.lt_size_of_byteAt? hbyte), hbyte]
  exact if_neg hne

theorem blockEnd_eq (front rest : Text) :
    ∃ content behind next, ReadsOn .blockComment .block rest content behind next ∧
      blockEnd (front ++ rest) (Text.size front) =
        some (Text.size front + Text.size content, !next.isOpen) := by
  induction rest generalizing front with
  | nil =>
      refine ⟨[], [], _, .atEnd, ?_⟩
      rw [blockEnd, if_neg (by simp)]
      rfl
  | cons c rest ih =>
      by_cases hc : c = '*' ∧ rest.head? = some '/'
      · obtain ⟨rfl, hslash⟩ := hc
        obtain ⟨rest, rfl⟩ := List.head?_eq_some_iff.mp hslash
        have htail : ReadsOn .blockComment .blockTail ('/' :: rest) ['/'] rest .between :=
          .cons rfl (.stop Mode.opens_between fun _ => rfl)
        refine ⟨['*', '/'], rest, .between, htail.cons rfl, ?_⟩
        have hstar : Text.byteAt? (front ++ '*' :: '/' :: rest) (Text.size front) = some 0x2A :=
          (Text.byteAt?_eq_iff (c := '*') (by decide)).mpr rfl
        have hslash : Text.byteAt? (front ++ '*' :: '/' :: rest) (Text.size front + 1) =
            some 0x2F := (Text.byteAt?_succ_iff (d := '/') (by decide) (by decide)).mpr rfl
        rw [blockEnd, if_pos (Text.lt_size_of_byteAt? hstar), hstar]
        simp only [Option.bind_eq_bind, Option.bind_some, hslash]
        rfl
      · rw [not_and] at hc
        obtain ⟨content, behind, next, hreads, hend⟩ := ih (front ++ [c])
        refine ⟨c :: content, behind, next, hreads.cons ?_, ?_⟩
        · by_cases hstar : c = '*'
          · simp [Mode.step, hc hstar]
          · simp [Mode.step, hstar]
        · rw [blockEnd_pass hc, Text.size_cons, ← Nat.add_assoc]
          simpa using hend

/-! ### Code -/

/-- Whether a literal or a comment begins with a character in front of another one. -/
def Opens (c : Char) (next : Option Char) : Prop :=
  (c = '\'' ∨ c = '"') ∨ c = '-' ∧ next = some '-' ∨ c = '/' ∧ next = some '*'

instance (c : Char) (next : Option Char) : Decidable (Opens c next) :=
  inferInstanceAs (Decidable (_ ∨ _ ∨ _))

/-- Among the bytes of a character only its first one can open anything. -/
theorem opensAt_eq {place : Nat} {byte : UInt8} (hstart : Text.size front ≤ place)
    (hstop : place < Text.size front + c.utf8Size)
    (hbyte : Text.byteAt? (front ++ c :: rest) place = some byte)
    (hmem : byte ∈ String.utf8EncodeChar c) :
    opensAt (front ++ c :: rest) place = some (decide (Opens c rest.head?)) := by
  have hsingle : byte = 0x27 ↔ c = '\'' :=
    Text.eq_ofNat_iff_of_mem hmem '\'' (by decide)
  have hdouble : byte = 0x22 ↔ c = '"' :=
    Text.eq_ofNat_iff_of_mem hmem '"' (by decide)
  have hdash : byte = 0x2D ↔ c = '-' :=
    Text.eq_ofNat_iff_of_mem hmem '-' (by decide)
  have hslash : byte = 0x2F ↔ c = '/' :=
    Text.eq_ofNat_iff_of_mem hmem '/' (by decide)
  rw [opensAt, hbyte]
  simp only [Option.bind_eq_bind, Option.bind_some, hsingle, hdouble, hdash, hslash]
  split_ifs with hquote hc hc
  · simp [Opens, hquote]
  · subst hc
    obtain rfl : place = Text.size front := by
      have hsize : '-'.utf8Size = 1 := rfl
      omega
    have hnext : Text.byteAt? (front ++ '-' :: rest) (Text.size front + 1) = some 0x2D ↔
        rest.head? = some '-' := Text.byteAt?_succ_iff (d := '-') (by decide) (by decide)
    simp [Opens, hnext]
  · subst hc
    obtain rfl : place = Text.size front := by
      have hsize : '/'.utf8Size = 1 := rfl
      omega
    have hnext : Text.byteAt? (front ++ '/' :: rest) (Text.size front + 1) = some 0x2A ↔
        rest.head? = some '*' := Text.byteAt?_succ_iff (d := '*') (by decide) (by decide)
    simp [Opens, hnext]
  · rename_i hdash
    simp [Opens, hquote, hdash, hc]

theorem enter_of_not_opens {next : Option Char} (hopens : ¬ Opens c next) (fresh : Bool) :
    Mode.enter fresh c next = (⟨c, .code, fresh⟩, .code) := by
  simp only [Opens, not_or] at hopens
  obtain ⟨⟨hsingle, hdouble⟩, hdash, hslash⟩ := hopens
  simp [Mode.enter, Quote.ofChar?, hsingle, hdouble, hdash, hslash]

theorem opens_of_opens {next : Option Char} (hopens : Opens c next) (fresh : Bool) :
    (Mode.enter fresh c next).1.opens = true := by
  rcases hopens with (rfl | rfl) | ⟨rfl, rfl⟩ | ⟨rfl, rfl⟩ <;> rfl

theorem codeEnd_step {place : Nat} {byte : UInt8} (hopens : ¬ Opens c rest.head?)
    (hstart : Text.size front ≤ place) (hstop : place < Text.size front + c.utf8Size)
    (hbyte : Text.byteAt? (front ++ c :: rest) place = some byte)
    (hmem : byte ∈ String.utf8EncodeChar c) :
    codeEnd (front ++ c :: rest) place = codeEnd (front ++ c :: rest) (place + 1) := by
  rw [codeEnd, if_pos (Text.lt_size_of_byteAt? hbyte), opensAt_eq hstart hstop hbyte hmem,
    decide_eq_false hopens]
  rfl

theorem codeEnd_pass (hopens : ¬ Opens c rest.head?) (front : Text) :
    codeEnd (front ++ c :: rest) (Text.size front) =
      codeEnd (front ++ c :: rest) (Text.size front + c.utf8Size) :=
  Text.pass_char front rest fun _ _ => codeEnd_step hopens

theorem codeEnd_eq (front rest : Text) :
    ∃ content behind, ReadsOn .code .code rest content behind .code ∧
      codeEnd (front ++ rest) (Text.size front) = some (Text.size front + Text.size content) := by
  induction rest generalizing front with
  | nil =>
      refine ⟨[], [], .atEnd, ?_⟩
      rw [codeEnd, if_neg (by simp)]
      rfl
  | cons c rest ih =>
      have hpos := c.utf8Size_pos
      by_cases hopens : Opens c rest.head?
      · refine ⟨[], c :: rest, .stop ?_ fun _ => rfl, ?_⟩
        · intro cell hcell
          obtain rfl := Option.some.inj hcell
          exact opens_of_opens hopens false
        · obtain ⟨byte, hmem, hbyte⟩ := @Text.exists_byteAt?_of_mem c front rest (Text.size front)
            le_rfl (by omega)
          rw [codeEnd, if_pos (Text.lt_size_of_byteAt? hbyte),
            opensAt_eq le_rfl (by omega) hbyte hmem, decide_eq_true hopens]
          rfl
      · obtain ⟨content, behind, hreads, hend⟩ := ih (front ++ [c])
        refine ⟨c :: content, behind, hreads.cons (enter_of_not_opens hopens false), ?_⟩
        rw [codeEnd_pass hopens, Text.size_cons, ← Nat.add_assoc]
        simpa using hend

/-! ### Spans -/

/-- Where a span begins, a text is read as it is at its front. -/
theorem step_eq_enter {mode : Mode} {next : Option Char} (hclosed : mode.isOpen = false)
    (hopens : (mode.step c next).1.opens = true) : mode.step c next = Mode.enter true c next := by
  cases mode with
  | between => rfl
  | code =>
      by_cases hc : Opens c next
      · rcases hc with (rfl | rfl) | ⟨rfl, rfl⟩ | ⟨rfl, rfl⟩ <;> rfl
      · rw [Mode.step, enter_of_not_opens hc] at hopens
        contradiction
  | line =>
      by_cases hc : c = '\n'
      · subst hc
        rfl
      · rw [Mode.step, if_neg hc] at hopens
        contradiction
  | quoted _ | doubled _ | blockHead | block | blockTail => contradiction

theorem byteAt?_pair {d : Char} (hc : c.toNat < 0x80) (hd : d.toNat < 0x80) :
    Text.byteAt? (front ++ c :: d :: rest) (Text.size front) = some (UInt8.ofNat c.toNat) ∧
      Text.byteAt? (front ++ c :: d :: rest) (Text.size front + 1) =
        some (UInt8.ofNat d.toNat) :=
  ⟨(Text.byteAt?_eq_iff hc).mpr rfl, (Text.byteAt?_succ_iff hc hd).mpr rfl⟩

/-- The scan finds the span that is read from a character on. -/
def FindsSpan (front rest : Text) (c : Char) : Prop :=
  ∃ kind mode content behind next, Mode.enter true c rest.head? = (⟨c, kind, true⟩, mode) ∧
    ReadsOn kind mode rest content behind next ∧
    spanAt (front ++ c :: rest) (Text.size front) =
      some (kind, Text.size front + Text.size (c :: content), !next.isOpen)

theorem findsSpan_quote (quote : Quote) (front rest : Text) : FindsSpan front rest quote.char := by
  obtain ⟨content, behind, next, hreads, hend⟩ := quotedEnd_eq quote (front ++ [quote.char]) rest
  have hsize : quote.char.utf8Size = 1 := Text.utf8Size_of_lt quote.toNat_char_lt
  have henter : Mode.enter true quote.char rest.head? =
      (⟨quote.char, .quoted quote, true⟩, .quoted quote) := by
    cases quote <;> rfl
  have hspan : spanAt (front ++ quote.char :: rest) (Text.size front) =
      (quotedEnd (front ++ quote.char :: rest) quote (Text.size front + 1)).map fun stop =>
        (.quoted quote, stop) := by
    rw [spanAt, byteAt?_quote]
    cases quote <;> rfl
  refine ⟨_, _, content, behind, next, henter, hreads, ?_⟩
  rw [List.append_assoc, List.singleton_append, Text.size_append, Text.size_cons, Text.size_nil,
    Nat.add_zero, hsize] at hend
  rw [hspan, hend, Text.size_cons, hsize, Nat.add_assoc]
  rfl

theorem findsSpan_line (front rest : Text) : FindsSpan front ('-' :: rest) '-' := by
  obtain ⟨content, behind, hreads, hend⟩ := lineEnd_eq (front ++ ['-', '-']) rest
  obtain ⟨hbyte, hnext⟩ := @byteAt?_pair front rest '-' '-' (by decide) (by decide)
  have hspan : spanAt (front ++ '-' :: '-' :: rest) (Text.size front) =
      (lineEnd (front ++ '-' :: '-' :: rest) (Text.size front + 2)).map fun stop =>
        (.lineComment, stop, true) := by
    rw [spanAt, hbyte]
    exact if_pos ⟨rfl, hnext⟩
  refine ⟨_, _, '-' :: content, behind, .line, rfl, hreads.cons rfl, ?_⟩
  have hmarks : Text.size front + Text.size ['-', '-'] + Text.size content =
      Text.size front + Text.size ('-' :: '-' :: content) := by
    rw [Nat.add_assoc, ← Text.size_append]
    rfl
  rw [List.append_assoc, Text.size_append, hmarks] at hend
  exact hspan.trans (congrArg (Option.map _) hend)

theorem findsSpan_block (front rest : Text) : FindsSpan front ('*' :: rest) '/' := by
  obtain ⟨content, behind, next, hreads, hend⟩ := blockEnd_eq (front ++ ['/', '*']) rest
  obtain ⟨hbyte, hnext⟩ := @byteAt?_pair front rest '/' '*' (by decide) (by decide)
  have hspan : spanAt (front ++ '/' :: '*' :: rest) (Text.size front) =
      (blockEnd (front ++ '/' :: '*' :: rest) (Text.size front + 2)).map fun stop =>
        (.blockComment, stop) := by
    rw [spanAt, hbyte]
    exact if_pos ⟨rfl, hnext⟩
  refine ⟨_, _, '*' :: content, behind, next, rfl, hreads.cons rfl, ?_⟩
  have hmarks : Text.size front + Text.size ['/', '*'] + Text.size content =
      Text.size front + Text.size ('/' :: '*' :: content) := by
    rw [Nat.add_assoc, ← Text.size_append]
    rfl
  rw [List.append_assoc, Text.size_append, hmarks] at hend
  exact hspan.trans (congrArg (Option.map _) hend)

theorem findsSpan_code (hopens : ¬ Opens c rest.head?) (front : Text) :
    FindsSpan front rest c := by
  have hpos := c.utf8Size_pos
  have hassoc : front ++ c :: rest = front ++ [c] ++ rest := by simp
  have hsize : Text.size (front ++ [c]) = Text.size front + c.utf8Size := by simp
  obtain ⟨byte, hmem, hbyte⟩ := @Text.exists_byteAt?_of_mem c front rest (Text.size front)
    le_rfl (by omega)
  obtain ⟨content, behind, hreads, hend⟩ := codeEnd_eq (front ++ [c]) rest
  refine ⟨.code, .code, content, behind, .code, enter_of_not_opens hopens true, hreads, ?_⟩
  have hquote : byte ≠ 0x27 ∧ byte ≠ 0x22 := by
    refine ⟨fun h => hopens (.inl (.inl ?_)), fun h => hopens (.inl (.inr ?_))⟩
    · exact (Text.eq_ofNat_iff_of_mem hmem '\'' (by decide)).mp h
    · exact (Text.eq_ofNat_iff_of_mem hmem '"' (by decide)).mp h
  have hdash : ¬ (byte = 0x2D ∧
      Text.byteAt? (front ++ c :: rest) (Text.size front + 1) = some 0x2D) := by
    rintro ⟨h, hnext⟩
    obtain rfl := (Text.eq_ofNat_iff_of_mem hmem '-' (by decide)).mp h
    exact hopens (.inr (.inl ⟨rfl, (Text.byteAt?_succ_iff (by decide) (by decide)).mp hnext⟩))
  have hslash : ¬ (byte = 0x2F ∧
      Text.byteAt? (front ++ c :: rest) (Text.size front + 1) = some 0x2A) := by
    rintro ⟨h, hnext⟩
    obtain rfl := (Text.eq_ofNat_iff_of_mem hmem '/' (by decide)).mp h
    exact hopens (.inr (.inr ⟨rfl, (Text.byteAt?_succ_iff (by decide) (by decide)).mp hnext⟩))
  -- The scan goes on at the second byte, which may be inside the character.
  have hsecond := codeEnd_step hopens le_rfl (by omega) hbyte hmem
  rw [← hassoc, hsize, ← codeEnd_pass hopens, hsecond, Nat.add_assoc, ← Text.size_cons] at hend
  rw [spanAt, hbyte]
  simp only [Option.bind_eq_bind, Option.bind_some]
  rw [if_neg hquote.1, if_neg hquote.2, if_neg hdash, if_neg hslash]
  exact congrArg (Option.map _) hend

theorem findsSpan (front rest : Text) (c : Char) : FindsSpan front rest c := by
  by_cases hopens : Opens c rest.head?
  · rcases hopens with (rfl | rfl) | ⟨rfl, hnext⟩ | ⟨rfl, hnext⟩
    · exact findsSpan_quote .single front rest
    · exact findsSpan_quote .double front rest
    · obtain ⟨rest, rfl⟩ := List.head?_eq_some_iff.mp hnext
      exact findsSpan_line front rest
    · obtain ⟨rest, rfl⟩ := List.head?_eq_some_iff.mp hnext
      exact findsSpan_block front rest
  · exact findsSpan_code hopens front

/-- The scan finds the spans of what is read from the beginning of a span on. -/
theorem spansFrom_eq {mode : Mode} (hclosed : rest ≠ [] → mode.isOpen = false)
    (hopens : ∀ cell ∈ (mode.cells rest).head?, cell.opens = true) (front : Text) :
    spansFrom (front ++ rest) (Text.size front) =
      some (Span.ofCells (mode.after rest).isOpen (Text.size front) (mode.cells rest)) := by
  induction hlength : rest.length using Nat.strong_induction_on generalizing mode front rest with
  | h length ih =>
      subst hlength
      cases rest with
      | nil =>
          rw [spansFrom, if_neg (by simp)]
          rfl
      | cons c rest =>
          have hpos := c.utf8Size_pos
          have hstep := step_eq_enter (hclosed (List.cons_ne_nil _ _)) (hopens _ rfl)
          obtain ⟨kind, middle, content, behind, next, henter, hreads, hspan⟩ :=
            findsSpan front rest c
          obtain ⟨rfl, hcells, hafter, hbehind, hnext⟩ := hreads
          have hcut := Text.cut?_append front (c :: content) behind
          rw [List.cons_append] at hcut
          rw [spansFrom, if_pos (by simp only [Text.size_append, Text.size_cons]; omega), hspan]
          simp only [Option.bind_eq_bind, Option.bind_some, hcut]
          rw [if_pos (by rw [Text.size_cons]; omega)]
          have hrest := ih behind.length (by simp) hnext hbehind (front ++ c :: content) rfl
          rw [List.append_assoc, List.cons_append, Text.size_append] at hrest
          rw [hrest, Mode.cells, Mode.after, hstep, henter, hcells, hafter]
          cases hothers : next.cells behind with
          | nil =>
              have hnil := Mode.text_cells next behind
              rw [hothers] at hnil
              obtain rfl : behind = [] := hnil.symm
              rw [List.append_nil, Span.ofCells_single]
              rfl
          | cons cell others =>
              have hne : behind ≠ [] := by
                rintro rfl
                simp [Mode.cells] at hothers
              rw [hothers] at hbehind
              have hparts := Span.ofCells_append (next.after behind).isOpen (Text.size front)
                (⟨c, kind, true⟩ :: content.map (⟨·, kind, false⟩)) others (hbehind _ rfl)
              have htext : Cell.text (⟨c, kind, true⟩ :: content.map (⟨·, kind, false⟩)) =
                  c :: content := by simp [Cell.text, Function.comp_def]
              rw [Span.ofCells_single, htext] at hparts
              rw [← List.cons_append, hparts, hnext hne]
              rfl

theorem spans_eq (text : Text) : spans text = some text.spans :=
  spansFrom_eq (fun _ => rfl) Mode.opens_between []

theorem codeMask_eq (text : Text) : codeMask text = some text.codeMask := by
  rw [codeMask, spans_eq, Text.codeMask_eq_flatMap]
  rfl

theorem maskComments_eq (text : Text) : maskComments text = some text.maskComments := by
  rw [maskComments, spans_eq, Text.maskComments_eq_flatMap]
  rfl

end Bytewise

end SelectForm

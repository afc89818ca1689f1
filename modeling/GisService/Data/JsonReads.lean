import GisService.Data.Json

/-! Reading back a text that was put together piece by piece. `Reads` says that
a piece reads as a value whatever comes behind it, and each rule below reads
one construct. -/
namespace Json

open ByteString

/-- A string that stands in a text as it is: no control characters, no quotes
and no backslashes. -/
def Plain (s : Bytes) : Prop := ∀ ch ∈ s, 32 ≤ ch ∧ ch ≠ quote ∧ ch ≠ backslash

/-- A number in front of this text ends there. -/
def EndsNumber (rest : Bytes) : Prop :=
  ∀ ch ∈ rest.head?, Decimal.isDigit ch = false ∧ ch ≠ 46 ∧ ch ≠ 101 ∧ ch ≠ 69

/-- `text` reads as `v`, with fuel for values nested to the given depth. -/
def Reads (depth : Nat) (text : Bytes) (v : Json) : Prop :=
  ∀ fuel rest, depth ≤ fuel → EndsNumber rest → readValue fuel (text ++ rest) = some (v, rest)

/-- The items of an array, closing bracket included. -/
def ReadsItems (depth : Nat) (text : Bytes) (items : List Json) : Prop :=
  ∀ fuel rest, depth ≤ fuel → readItems fuel (text ++ rest) = some (items, rest)

/-- The members of an object, closing brace included. -/
def ReadsMembers (depth : Nat) (text : Bytes) (members : List (Bytes × Json)) : Prop :=
  ∀ fuel rest, depth ≤ fuel → readMembers fuel (text ++ rest) = some (members, rest)

section Tokens

theorem skipSpace_cons {ch : UInt8} (h : isSpace ch = true) (input : Bytes) :
    skipSpace (ch :: input) = skipSpace input := by
  simp [skipSpace, h]

theorem skipSpace_eq_self {ch : UInt8} (h : isSpace ch = false) (input : Bytes) :
    skipSpace (ch :: input) = ch :: input := by
  simp [skipSpace, h]

theorem expect_space {ch space : UInt8} (h : isSpace space = true) (input : Bytes) :
    expect ch (space :: input) = expect ch input := by
  rw [expect, skipSpace_cons h, expect]

theorem expect_self {ch : UInt8} (h : isSpace ch = false) (input : Bytes) :
    expect ch (ch :: input) = some input := by
  simp [expect, skipSpace_eq_self h]

theorem expect_other {ch other : UInt8} (h : isSpace other = false) (hNe : other ≠ ch)
    (input : Bytes) : expect ch (other :: input) = none := by
  simp [expect, skipSpace_eq_self h, hNe]

/-- Some other character comes first, after white space. -/
theorem expect_space_other {ch space other : UInt8} (hSpace : isSpace space = true)
    (h : isSpace other = false) (hNe : other ≠ ch) (input : Bytes) :
    expect ch (space :: other :: input) = none := by
  rw [expect_space hSpace, expect_other h hNe]

theorem endsNumber_cons {ch : UInt8} (h : Decimal.isDigit ch = false ∧ ch ≠ 46 ∧ ch ≠ 101 ∧ ch ≠ 69)
    (rest : Bytes) : EndsNumber (ch :: rest) := by
  intro other hMem
  obtain rfl : ch = other := by simpa using hMem
  exact h

/-- A text without escapes is read up to its quote. -/
theorem readString_plain {s : Bytes} (hPlain : Plain s) (rest : Bytes) :
    readString (s ++ quote :: rest) = some (s, rest) := by
  have hChars : ∀ fuel, s.length < fuel → readChars fuel (s ++ quote :: rest) = some (s, rest) := by
    induction s with
    | nil =>
        intro fuel hFuel
        cases fuel with
        | zero => simp at hFuel
        | succ fuel => simp [readChars]
    | cons ch s ih =>
        intro fuel hFuel
        obtain ⟨hControl, hQuote, hBackslash⟩ := hPlain ch (by simp)
        cases fuel with
        | zero => simp at hFuel
        | succ fuel =>
            have hTail := ih (fun c h => hPlain c (List.mem_cons_of_mem _ h)) fuel
              (by simpa using hFuel)
            have hNot : ¬ ch < 32 := UInt8.not_lt.mpr hControl
            simp [readChars, hQuote, hBackslash, hNot, hTail]
  exact hChars _ (by rw [List.length_append]; omega)

end Tokens

section Numbers

theorem readDigits_append {digits rest : Bytes} (hDigits : ∀ ch ∈ digits, Decimal.isDigit ch = true)
    (hNe : digits ≠ []) (hRest : ∀ ch ∈ rest.head?, Decimal.isDigit ch = false) :
    readDigits (digits ++ rest) = some (digits, rest) := by
  have hTake : rest.takeWhile Decimal.isDigit = [] := by
    cases rest with
    | nil => rfl
    | cons ch rest => simp [hRest ch rfl]
  have hDrop : rest.dropWhile Decimal.isDigit = rest := by
    cases rest with
    | nil => rfl
    | cons ch rest => simp [hRest ch rfl]
  rw [readDigits, List.takeWhile_append_of_pos hDigits, List.dropWhile_append_of_pos hDigits, hTake,
    hDrop, List.append_nil, if_neg hNe]

/-- A number in decimal has no zero in front. -/
theorem readInteger_print (n : Nat) {rest : Bytes}
    (hRest : ∀ ch ∈ rest.head?, Decimal.isDigit ch = false) :
    readInteger (Decimal.print n ++ rest) = some (Decimal.print n, rest) := by
  by_cases hZero : n = 0
  · subst hZero
    rfl
  · have hHead := Decimal.print_head_ne_zero hZero
    have hDigits := readDigits_append (fun _ => Decimal.isDigit_of_mem_print)
      (Decimal.print_ne_nil n) hRest
    cases hPrint : Decimal.print n with
    | nil => exact absurd hPrint (Decimal.print_ne_nil n)
    | cons ch digits =>
        rw [hPrint] at hHead hDigits
        have hCh : ch ≠ 48 := by simpa using hHead
        simpa [readInteger, hCh] using hDigits

/-- What may follow the integer part: nothing, or a fraction. -/
inductive Fraction : Bytes → Prop where
  | none : Fraction []
  | some {digits : Bytes} (hDigits : ∀ ch ∈ digits, Decimal.isDigit ch = true) (hNe : digits ≠ []) :
      Fraction (46 :: digits)

theorem readFraction_append {fraction rest : Bytes} (h : Fraction fraction) (hRest : EndsNumber rest) :
    readFraction (fraction ++ rest) = some (fraction, rest) := by
  cases h with
  | none =>
      cases rest with
      | nil => rfl
      | cons ch rest => simp [readFraction, (hRest ch rfl).2.1]
  | some hDigits hNe =>
      simp [readFraction, readDigits_append hDigits hNe fun ch h => (hRest ch h).1]

theorem readExponent_eq_nil {rest : Bytes} (hRest : EndsNumber rest) :
    readExponent rest = some ([], rest) := by
  cases rest with
  | nil => rfl
  | cons ch rest => simp [readExponent, (hRest ch rfl).2.2]

theorem readUnsigned_append (n : Nat) {fraction rest : Bytes} (h : Fraction fraction)
    (hRest : EndsNumber rest) :
    readUnsigned (Decimal.print n ++ fraction ++ rest) =
      some (Decimal.print n ++ fraction, rest) := by
  have hBehind : ∀ ch ∈ (fraction ++ rest).head?, Decimal.isDigit ch = false := by
    cases h with
    | none => exact fun ch hMem => (hRest ch hMem).1
    | some hDigits hNe =>
        intro ch hMem
        obtain rfl : 46 = ch := by simpa using hMem
        rfl
  rw [List.append_assoc]
  simp [readUnsigned, readInteger_print n hBehind, readFraction_append h hRest,
    readExponent_eq_nil hRest]

/-- A value that begins with a digit is a number. -/
theorem readValue_digit {ch : UInt8} (h : Decimal.isDigit ch = true) (fuel : Nat) (input : Bytes) :
    readValue (fuel + 1) (ch :: input) =
      (readUnsigned (ch :: input)).map fun (literal, rest) => (.number literal, rest) := by
  have hBounds := (Decimal.isDigit_iff ch).mp h
  have hNe (other : UInt8) (hOther : Decimal.isDigit other = false) : ch ≠ other := by
    rintro rfl
    rw [h] at hOther
    cases hOther
  have hSpace : isSpace ch = false := by
    simp [isSpace, hNe 32 rfl, hNe 9 rfl, hNe 10 rfl, hNe 13 rfl]
  simp [readValue, skipSpace_eq_self hSpace, hNe quote rfl, hNe 123 rfl, hNe 91 rfl, hNe 110 rfl,
    hNe 116 rfl, hNe 102 rfl, readNumber, hNe 45 rfl]

end Numbers

section Values

/-- A number is kept as its text. -/
theorem reads_number (n : Nat) {fraction : Bytes} (h : Fraction fraction) :
    Reads 1 (Decimal.print n ++ fraction) (.number (Decimal.print n ++ fraction)) := by
  intro fuel rest hFuel hRest
  obtain ⟨fuel, rfl⟩ := Nat.exists_eq_add_of_le' hFuel
  have hRead := readUnsigned_append n h hRest
  cases hPrint : Decimal.print n with
  | nil => exact absurd hPrint (Decimal.print_ne_nil n)
  | cons ch digits =>
      have hDigit : Decimal.isDigit ch = true :=
        Decimal.isDigit_of_mem_print (n := n) (by rw [hPrint]; exact List.mem_cons_self)
      rw [hPrint] at hRead
      simp only [List.cons_append] at hRead ⊢
      rw [readValue_digit hDigit, hRead]
      rfl

theorem reads_natural (n : Nat) : Reads 1 (Decimal.print n) (.number (Decimal.print n)) := by
  have hReads := reads_number n .none
  rwa [List.append_nil] at hReads

theorem reads_string {s : Bytes} (h : Plain s) : Reads 1 (quote :: (s ++ [quote])) (.string s) := by
  intro fuel rest hFuel hRest
  obtain ⟨fuel, rfl⟩ := Nat.exists_eq_add_of_le' hFuel
  have hSpace : isSpace quote = false := rfl
  simp [readValue, skipSpace_eq_self hSpace, readString_plain h]

/-- White space in front of a value. -/
theorem Reads.space {depth : Nat} {text : Bytes} {v : Json} (h : Reads depth text v) {ch : UInt8}
    (hSpace : isSpace ch = true) : Reads depth (ch :: text) v := by
  intro fuel rest hFuel hRest
  rw [← h fuel rest hFuel hRest]
  cases fuel with
  | zero => rw [readValue, readValue]
  | succ fuel => rw [List.cons_append, readValue, readValue, skipSpace_cons hSpace]

/-- An array is not empty if a value that is no closing bracket follows. -/
theorem reads_array {depth : Nat} {text : Bytes} {items : List Json}
    (h : ReadsItems depth text items) (hOpen : ∀ rest, expect 93 (text ++ rest) = none) :
    Reads (depth + 1) (91 :: text) (.array items) := by
  intro fuel rest hFuel hRest
  obtain ⟨fuel, rfl⟩ := Nat.exists_eq_add_of_le' (Nat.le_trans (Nat.le_add_left 1 depth) hFuel)
  have hSpace : isSpace 91 = false := rfl
  have hItems := h fuel rest (by omega)
  simp [readValue, quote, skipSpace_eq_self hSpace, hOpen, hItems]

/-- An object is its members between braces. -/
theorem reads_object {depth : Nat} {text : Bytes} {members : List (Bytes × Json)}
    (h : ReadsMembers depth text members) (hOpen : ∀ rest, expect 125 (text ++ rest) = none) :
    Reads (depth + 1) (123 :: text) (.object members) := by
  intro fuel rest hFuel hRest
  obtain ⟨fuel, rfl⟩ := Nat.exists_eq_add_of_le' (Nat.le_trans (Nat.le_add_left 1 depth) hFuel)
  have hSpace : isSpace 123 = false := rfl
  have hMembers := h fuel rest (by omega)
  simp [readValue, quote, skipSpace_eq_self hSpace, hOpen, hMembers]

theorem endsNumber_space {space : UInt8} (h : isSpace space = true) (rest : Bytes) :
    EndsNumber (space :: rest) := by
  apply endsNumber_cons
  simp only [isSpace, Bool.or_eq_true, beq_iff_eq, or_assoc] at h
  rcases h with rfl | rfl | rfl | rfl <;> decide

/-- The only item, white space, and the closing bracket. -/
theorem readsItems_last {depth : Nat} {text : Bytes} {v : Json} (h : Reads depth text v)
    {space : UInt8} (hSpace : isSpace space = true) :
    ReadsItems (depth + 1) (text ++ [space, 93]) [v] := by
  intro fuel rest hFuel
  obtain ⟨fuel, rfl⟩ := Nat.exists_eq_add_of_le' (Nat.le_trans (Nat.le_add_left 1 depth) hFuel)
  have hValue := h fuel (space :: 93 :: rest) (by omega) (endsNumber_space hSpace _)
  have hComma : expect 44 (space :: 93 :: rest) = none :=
    expect_space_other hSpace rfl (by decide) rest
  have hClose : expect 93 (space :: 93 :: rest) = some rest := by
    rw [expect_space hSpace, expect_self rfl]
  simp [readItems, hValue, hComma, hClose]

section Members
variable {depth : Nat} {name text : Bytes} {v : Json}

/-- A member up to its value. -/
theorem readMembers_succ (hName : Plain name) (h : Reads depth text v) {fuel : Nat}
    (hFuel : depth ≤ fuel) {rest : Bytes} (hRest : EndsNumber rest) :
    readMembers (fuel + 1) (quote :: (name ++ quote :: 58 :: (text ++ rest))) =
      match expect 44 rest with
      | some input => (readMembers fuel input).map fun (members, rest) => ((name, v) :: members, rest)
      | none => (expect 125 rest).map fun rest => ([(name, v)], rest) := by
  have hValue := h fuel rest hFuel hRest
  rw [readMembers]
  cases hComma : expect 44 rest <;>
    simp only [expect_self (show isSpace quote = false from rfl), readString_plain hName,
      expect_self (show isSpace 58 = false from rfl), hValue, hComma, Option.bind_eq_bind,
      Option.bind_some]

/-- The last member, white space, and the closing brace. -/
theorem readsMembers_last (hName : Plain name) (h : Reads depth text v) {space : UInt8}
    (hSpace : isSpace space = true) :
    ReadsMembers (depth + 1) (quote :: (name ++ quote :: 58 :: (text ++ [space, 125])))
      [(name, v)] := by
  intro fuel rest hFuel
  obtain ⟨fuel, rfl⟩ := Nat.exists_eq_add_of_le' (Nat.le_trans (Nat.le_add_left 1 depth) hFuel)
  have hComma : expect 44 (space :: 125 :: rest) = none :=
    expect_space_other hSpace rfl (by decide) rest
  have hClose : expect 125 (space :: 125 :: rest) = some rest := by
    rw [expect_space hSpace, expect_self rfl]
  have hMember := readMembers_succ hName h (by omega : depth ≤ fuel)
    (endsNumber_space hSpace (125 :: rest))
  rw [hComma, hClose] at hMember
  simpa using hMember

/-- A member, a comma, and the members after it. -/
theorem readsMembers_cons (hName : Plain name) (h : Reads depth text v) {more : Bytes}
    {members : List (Bytes × Json)} (hMore : ReadsMembers depth more members) :
    ReadsMembers (depth + 1) (quote :: (name ++ quote :: 58 :: (text ++ 44 :: more)))
      ((name, v) :: members) := by
  intro fuel rest hFuel
  obtain ⟨fuel, rfl⟩ := Nat.exists_eq_add_of_le' (Nat.le_trans (Nat.le_add_left 1 depth) hFuel)
  have hEnds : EndsNumber (44 :: (more ++ rest)) := endsNumber_cons (by decide) _
  have hMember := readMembers_succ hName h (by omega : depth ≤ fuel) hEnds
  rw [expect_self rfl] at hMember
  simpa [hMore fuel rest (by omega)] using hMember

theorem ReadsMembers.space {members : List (Bytes × Json)} (h : ReadsMembers depth text members)
    {ch : UInt8} (hSpace : isSpace ch = true) : ReadsMembers depth (ch :: text) members := by
  intro fuel rest hFuel
  rw [← h fuel rest hFuel]
  cases fuel with
  | zero => rw [readMembers, readMembers]
  | succ fuel => rw [List.cons_append, readMembers, readMembers, expect_space hSpace]

/-- Fuel does no harm. -/
theorem Reads.mono (h : Reads depth text v) {deeper : Nat} (hDepth : depth ≤ deeper) :
    Reads deeper text v :=
  fun fuel rest hFuel => h fuel rest (Nat.le_trans hDepth hFuel)

end Members

/-- A value that reads back in any text is what the whole text stands for. -/
theorem parse_of_reads {depth : Nat} {text : Bytes} {v : Json} (h : Reads depth text v)
    (hDepth : depth ≤ 2 * text.length + 2) : parse text = some v := by
  have hEnds : EndsNumber [] := fun ch hMem => by simp at hMem
  have hRead := h (2 * text.length + 2) [] hDepth hEnds
  rw [List.append_nil] at hRead
  rw [parse, hRead]
  rfl

end Values

end Json

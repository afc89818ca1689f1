import GisService.Data.AddressText
import GisService.Data.Decimal
import GisService.Url.Parse

/-! Addresses of version 6: which texts `is_valid_ipv6` accepts, and what
`normalize_IPv6` makes of a text. -/
namespace Url

open ByteString

/-- `is_uint`, with the text behind the digits -/
def takeUint (max : Nat) (text : Bytes) : Option Bytes :=
  match text with
  | [] => none
  | c :: _ =>
      if isNum c ∧
          (uintDigits text).foldl (fun val d => (val * 10 + (d.toNat - 48)) % 2 ^ 32) 0 ≤ max then
        some (text.drop (uintDigits text).length)
      else none

/-- Numbers up to 255 with a dot behind each but the last. -/
def isDotted : Nat → Bytes → Bool
  | 0, text => takeUint 255 text = some []
  | dots + 1, text =>
      match takeUint 255 text with
      | some (46 :: rest) => isDotted dots rest
      | _ => false

def isValidIPv4 (text : Bytes) : Bool := isDotted 3 text

/-- What `is_valid_ipv6` decides at the end of the text. -/
def isValidEnd (text : Bytes) (nullField : Bool) (nfields ndigits : Nat) : Bool :=
  if ndigits = 0 ∧ text.getLast? = some 58 then
    text.dropLast.getLast? = some 58 && nfields < 8
  else
    let nfields := if 0 < ndigits then nfields + 1 else nfields
    (!nullField && nfields == 8) || (nullField && nfields < 8)

/-- The loop of `is_valid_ipv6`, with the text from the start of the field. -/
def isValidFields (text : Bytes) :
    Bytes → Bytes → (nullField : Bool) → (nfields ndigits : Nat) → Bool
  | _, [], nullField, nfields, ndigits => isValidEnd text nullField nfields ndigits
  | field, c :: rest, nullField, nfields, ndigits =>
      if c = 46 then
        ((!nullField && nfields == 6) || (nullField && nfields < 7)) && isValidIPv4 field
      else if c = 58 then
        if ndigits = 0 then !nullField && isValidFields text rest rest true nfields 0
        else isValidFields text rest rest nullField (nfields + 1) 0
      else
        ndigits < 4 && isHexdigit c && isValidFields text field rest nullField nfields (ndigits + 1)

def isValidIPv6 (text : Bytes) : Bool :=
  if 39 < text.length || text.length < 2 then false
  else match text with
    | 58 :: 58 :: [] => true
    | 58 :: 58 :: rest => isValidFields text rest rest true 0 0
    | 58 :: _ => false
    | _ => isValidFields text text text false 0 0

/-- The text without a colon at its front and one at its end. -/
def stripColons (text : Bytes) : Bytes :=
  let text := if text.head? = some 58 then text.tail else text
  if text.getLast? = some 58 then text.dropLast else text

/-- The texts that `tokens` delimits, each without the colon behind it. From the
eighth colon on the last two parts are one token, and there is room for nine. -/
def tokens (text : Bytes) : Option (List Bytes) :=
  let parts := text.splitOn 58
  if parts.length ≤ 8 then some parts
  else if parts.length ≤ 10 then
    some (parts.take (parts.length - 2) ++ [[58].intercalate (parts.drop (parts.length - 2))])
  else none

/-- A dot is read as a digit of value -1. -/
def fieldValue (digits : Bytes) : Nat :=
  digits.foldl (fun field c =>
    match PercentCode.hexValue c with
    | some digit => (16 * field + digit) % 65536
    | none => 65535) 0

/-- The loop over the tokens: `null_pos`, and the fields behind those before. -/
def decodeFields (i nullPos : Nat) (fields : List Nat) : List Bytes → Nat × List Nat
  | [] => (nullPos, fields)
  | token :: rest =>
      let digits := token.takeWhile (· ≠ 58)
      if digits = [] then decodeFields (i + 1) i fields rest
      else decodeFields (i + 1) nullPos (fields ++ [fieldValue digits]) rest

/-- The fields behind the null field are moved to the end, and zeros put between.
Without a null field in front of them the loop leaves the array. -/
def expand (nfields nullPos : Nat) (fields : List Nat) : Option (List Nat) :=
  if 8 < fields.length then none
  else if fields.length < nfields then
    if nullPos ≤ fields.length then
      some (fields.take nullPos ++ List.replicate (nfields - fields.length) 0 ++
        fields.drop nullPos)
    else none
  else some (fields.take nfields)

/-- At the end of a row of zeros: `null_pos` and `null_len`, replaced if the row is
longer. -/
def endZeros (i : Nat) (first : Option Nat) (best : Nat × Nat) : Nat × Nat :=
  match first with
  | some first => if best.2 < i - first then (first, i - first) else best
  | none => best

/-- The search for the first longest row of zeros. Inside of a row `first` is where it
starts. -/
def longestZeros (i : Nat) (first : Option Nat) (best : Nat × Nat) : List Nat → Nat × Nat
  | [] => endZeros i first best
  | field :: rest =>
      if field = 0 then longestZeros (i + 1) (some (first.getD i)) best rest
      else longestZeros (i + 1) none (endZeros i first best) rest

/-- The text of the fields, with `null_len` of them at `null_pos` left out. -/
def encodeFields (fields : List Nat) (nullPos nullLen : Nat) (ipv4 : Option Bytes) : Bytes :=
  let front :=
    if nullPos = 0 then [58]
    else [58].intercalate ((fields.take nullPos).map hexText) ++
      (if nullPos < fields.length then [58] else []) ++
      (if nullPos + nullLen = 8 ∧ nullLen ≠ 0 then [58] else [])
  front ++ (fields.drop (nullPos + nullLen)).flatMap (fun field => 58 :: hexText field) ++
    ipv4.toList.flatMap (58 :: ·)

/-- A row of one zero is written like any other field. -/
def canonicalIPv6 (fields : List Nat) (ipv4 : Option Bytes) : Bytes :=
  let zeros := longestZeros 0 none (fields.length, 0) fields
  encodeFields fields (if zeros.2 = 1 then fields.length else zeros.1) zeros.2 ipv4

/-- The fields of a text, and the last part if it is too long for a group. -/
def readIPv6 (text : Bytes) : Option (List Nat × Option Bytes) := do
  let all ← tokens (stripColons text)
  let last := all.getLast?.getD []
  let ipv4 := if 5 < last.length then some last else none
  let decoded := decodeFields 0 8 [] (if 5 < last.length then all.dropLast else all)
  let fields ← expand (AddressText.size ipv4) decoded.1 decoded.2
  return (fields, ipv4)

/-- `normalize_IPv6`, where it stays inside of its arrays. -/
def normalizeIPv6 (text : Bytes) : Option (Except Error Bytes) :=
  if !isIPv6 text then some (.error (.parse (ascii "IPv6 [" ++ text ++ ascii "] is invalid")))
  else if text = ascii "::" then some (.ok text)
  else do
    let (fields, ipv4) ← readIPv6 text
    return .ok (canonicalIPv6 fields ipv4)

example :
    normalizeIPv6 (ascii "2001:DB8:0:0:1:0:0:1") = some (.ok (ascii "2001:db8::1:0:0:1")) := by
  decide +kernel

example : normalizeIPv6 (ascii "0:0:0:0:0:0:0:0") = some (.ok (ascii ":")) := by decide +kernel

/-- A zero at the front is a number of its own. -/
theorem uintDigits_cons (c : UInt8) (rest : Bytes) :
    uintDigits (c :: rest) = c :: if c = 48 then [] else rest.takeWhile isNum := by
  show (if c = 48 then [c] else c :: rest.takeWhile isNum) = _
  split <;> rfl

/-- A decimal number up to 255, with no zero in front. `is_uint` computes with 32 bits,
so that of a longer number only the remainder counts. -/
structure IsNumber (n : Bytes) : Prop where
  nonempty : n ≠ []
  digits : ∀ c ∈ n, isNum c = true
  zero : n.head? = some 48 → n = [48]
  value : Decimal.value n % 2 ^ 32 ≤ 255

/-- What may stand at the end in place of two groups: four numbers with dots between
them. The digits of the first are counted like those of a group, so that it does not
reach 32 bits. -/
def Dotted (text : Bytes) : Prop :=
  ∃ first second third fourth, (∀ n ∈ [first, second, third, fourth], IsNumber n) ∧
    first.length ≤ 4 ∧ text = [46].intercalate [first, second, third, fourth]

/-- `is_uint` keeps the remainder after each digit, which comes to the remainder of
the whole. -/
theorem foldl_digits (digits : Bytes) :
    digits.foldl (fun val d => (val * 10 + (d.toNat - 48)) % 2 ^ 32) 0 =
      Decimal.value digits % 2 ^ 32 := by
  induction digits using List.reverseRecOn with
  | nil => rfl
  | append_singleton digits d ih =>
      have hValue : Decimal.value (digits ++ [d]) =
          10 * Decimal.value digits + (d.toNat - 48) := by
        simp [Decimal.value]
      rw [List.foldl_append, List.foldl_cons, List.foldl_nil, ih, hValue]
      omega

/-- `is_uint` takes a number from the front of the text. -/
theorem takeUint_eq_some {text rest : Bytes} (h : takeUint 255 text = some rest) :
    ∃ digits, IsNumber digits ∧ text = digits ++ rest := by
  cases text with
  | nil => cases h
  | cons c text =>
      rw [takeUint, foldl_digits] at h
      split at h
      · next hNum =>
          have hMore : (if c = 48 then [] else text.takeWhile isNum) <+: text := by
            split
            · exact List.nil_prefix
            · exact List.takeWhile_prefix isNum
          obtain rfl := Option.some.inj h
          refine ⟨uintDigits (c :: text), ⟨by simp [uintDigits_cons], ?_, ?_, hNum.2⟩, ?_⟩
          · intro b hb
            rw [uintDigits_cons] at hb
            rcases List.mem_cons.mp hb with rfl | hb
            · exact hNum.1
            · split at hb
              · cases hb
              · exact List.mem_takeWhile_imp hb
          · intro hHead
            rw [uintDigits_cons] at hHead ⊢
            obtain rfl := Option.some.inj hHead
            rfl
          · refine (List.prefix_iff_eq_append.mp ?_).symm
            rw [uintDigits_cons]
            exact List.cons_prefix_cons.mpr ⟨rfl, hMore⟩
      · cases h

/-- A number is taken as a whole if no digit follows. -/
theorem takeUint_append {digits rest : Bytes} (h : IsNumber digits)
    (hRest : ∀ c ∈ rest.head?, isNum c = false) : takeUint 255 (digits ++ rest) = some rest := by
  obtain ⟨c, more, rfl⟩ := List.exists_cons_of_ne_nil h.nonempty
  have hDigits : uintDigits (c :: more ++ rest) = c :: more := by
    rw [List.cons_append, uintDigits_cons]
    split
    · next hZero =>
        rw [h.zero (by rw [hZero]; rfl), hZero]
    · have hStop : rest.takeWhile isNum = [] := by
        cases rest with
        | nil => rfl
        | cons b rest => simp [hRest b rfl]
      rw [List.takeWhile_append_of_pos fun b hb => h.digits b (List.mem_cons_of_mem _ hb), hStop,
        List.append_nil]
  rw [List.cons_append] at hDigits ⊢
  rw [takeUint, hDigits, foldl_digits, if_pos ⟨h.digits c List.mem_cons_self, h.value⟩,
    ← List.cons_append, List.drop_left]

/-- The numbers that are read, one more than there are dots. -/
theorem isDotted_iff {dots : Nat} {text : Bytes} :
    isDotted dots text = true ↔ ∃ numbers, numbers.length = dots + 1 ∧
      (∀ n ∈ numbers, IsNumber n) ∧ text = [46].intercalate numbers := by
  induction dots generalizing text with
  | zero =>
      rw [isDotted, decide_eq_true_iff]
      constructor
      · intro hTake
        obtain ⟨digits, hNumber, rfl⟩ := takeUint_eq_some hTake
        exact ⟨[digits], rfl, by simpa using hNumber, by simp⟩
      · rintro ⟨numbers, hOne, hNumbers, rfl⟩
        obtain ⟨digits, rfl⟩ := List.length_eq_one_iff.mp hOne
        have hTake := @takeUint_append digits [] (hNumbers digits (by simp)) nofun
        simpa using hTake
  | succ dots ih =>
      constructor
      · intro h
        unfold isDotted at h
        split at h
        · next rest hTake =>
            obtain ⟨digits, hNumber, rfl⟩ := takeUint_eq_some hTake
            obtain ⟨numbers, hCount, hNumbers, rfl⟩ := ih.mp h
            refine ⟨digits :: numbers, by rw [List.length_cons, hCount],
              List.forall_mem_cons.mpr ⟨hNumber, hNumbers⟩, ?_⟩
            obtain ⟨next, more, rfl⟩ := List.exists_cons_of_length_eq_add_one hCount
            rw [List.intercalate_cons_cons]
            simp
        · cases h
      · rintro ⟨numbers, hCount, hNumbers, rfl⟩
        obtain ⟨digits, numbers, rfl⟩ := List.exists_cons_of_length_eq_add_one hCount
        obtain ⟨hNumber, hNumbers⟩ := List.forall_mem_cons.mp hNumbers
        have hMore : numbers.length = dots + 1 := by simpa using hCount
        have hJoin : [46].intercalate (digits :: numbers) =
            digits ++ 46 :: [46].intercalate numbers := by
          obtain ⟨next, more, rfl⟩ := List.exists_cons_of_length_eq_add_one hMore
          rw [List.intercalate_cons_cons]
          simp
        have hDot : ∀ c ∈ (46 :: [46].intercalate numbers : Bytes).head?, isNum c = false := by
          rintro c ⟨⟩
          decide
        rw [hJoin, isDotted, takeUint_append hNumber hDot]
        exact ih.mpr ⟨numbers, hMore, hNumbers, rfl⟩

/-- Each dot has a digit on either side. -/
theorem isDotted_spec {dots : Nat} {text : Bytes} (h : isDotted dots text = true) :
    (∀ c ∈ text, c = 46 ∨ isNum c = true) ∧ 2 * dots < text.length ∧
      (0 < dots → (46 : UInt8) ∈ text) := by
  induction dots generalizing text with
  | zero =>
      obtain ⟨digits, hNumber, rfl⟩ := takeUint_eq_some (of_decide_eq_true h)
      refine ⟨fun c hc => .inr (hNumber.digits c (by simpa using hc)), ?_, by omega⟩
      simpa using List.length_pos_of_ne_nil hNumber.nonempty
  | succ dots ih =>
      unfold isDotted at h
      split at h
      · next rest hTake =>
          obtain ⟨digits, hNumber, rfl⟩ := takeUint_eq_some hTake
          obtain ⟨hChars, hLength, -⟩ := ih h
          refine ⟨?_, ?_, by simp⟩
          · intro c hc
            rcases List.mem_append.mp hc with hc | hc
            · exact .inr (hNumber.digits c hc)
            · rcases List.mem_cons.mp hc with rfl | hc
              · exact .inl rfl
              · exact hChars c hc
          · have hPos := List.length_pos_of_ne_nil hNumber.nonempty
            rw [List.length_append, List.length_cons]
            omega
      · cases h

theorem IsNumber.dot {digits : Bytes} (h : IsNumber digits) : (46 : UInt8) ∉ digits :=
  fun hMem => absurd (h.digits 46 hMem) (by decide)

/-- The first of the numbers is what stands in front of the first dot. -/
theorem takeWhile_intercalate {first : Bytes} (h : IsNumber first) (rest : List Bytes) :
    ([46].intercalate (first :: rest)).takeWhile (· ≠ 46) = first := by
  have hAll : ∀ c ∈ first, decide (c ≠ 46) = true := by
    intro c hc
    refine decide_eq_true ?_
    rintro rfl
    exact h.dot hc
  cases rest with
  | nil => simpa using List.takeWhile_eq_self_iff.mpr hAll
  | cons second rest =>
      rw [List.intercalate_cons_cons, List.append_assoc, List.takeWhile_append_of_pos hAll]
      simp

/-- The dotted part as `is_valid_ipv6` finds it: `is_valid_ipv4` accepts it, and the
loop has let the digits in front of its first dot pass. -/
theorem dotted_iff {text : Bytes} :
    Dotted text ↔ isValidIPv4 text = true ∧ (text.takeWhile (· ≠ 46)).length ≤ 4 := by
  rw [isValidIPv4, isDotted_iff]
  constructor
  · rintro ⟨first, second, third, fourth, hNumbers, hFirst, rfl⟩
    refine ⟨⟨_, rfl, hNumbers, rfl⟩, ?_⟩
    rwa [takeWhile_intercalate (hNumbers first List.mem_cons_self)]
  · rintro ⟨⟨numbers, hFour, hNumbers, rfl⟩, hFirst⟩
    match numbers, hFour with
    | [first, second, third, fourth], _ =>
        rw [takeWhile_intercalate (hNumbers first List.mem_cons_self)] at hFirst
        exact ⟨first, second, third, fourth, hNumbers, hFirst, rfl⟩

theorem Dotted.valid {text : Bytes} (h : Dotted text) : isValidIPv4 text = true :=
  (dotted_iff.mp h).1

theorem Dotted.first {text : Bytes} (h : Dotted text) :
    (text.takeWhile (· ≠ 46)).length ≤ 4 :=
  (dotted_iff.mp h).2

/-- A dotted part is never cut at a colon. -/
theorem Dotted.colon {text : Bytes} (h : isValidIPv4 text = true) : (58 : UInt8) ∉ text := by
  intro hMem
  rcases (isDotted_spec h).1 58 hMem with hDot | hNum
  · exact absurd hDot (by decide)
  · exact absurd hNum (by decide)

theorem isHexdigit_eq (c : UInt8) : isHexdigit c = AddressText.isHex c := by
  revert c
  apply forall_byte
  decide +kernel

section
variable {text field rest : Bytes} {nullField : Bool} {nfields ndigits : Nat}

/-- The part up to a colon or the end: hexadecimal digits, no more than four, up to the
first dot, if there is one. -/
theorem isValidFields_part {part : Bytes} (hColon : (58 : UInt8) ∉ part) (hDigits : ndigits ≤ 4) :
    isValidFields text field (part ++ rest) nullField nfields ndigits =
      ((part.takeWhile (· ≠ 46)).all isHexdigit &&
        decide (ndigits + (part.takeWhile (· ≠ 46)).length ≤ 4) &&
        if (46 : UInt8) ∈ part then
          ((!nullField && nfields == 6) || (nullField && nfields < 7)) && isValidIPv4 field
        else isValidFields text field rest nullField nfields (ndigits + part.length)) := by
  induction part generalizing ndigits with
  | nil => simp [hDigits]
  | cons c part ih =>
      obtain ⟨hNot, hColon⟩ := List.ne_and_not_mem_of_not_mem_cons hColon
      rw [List.cons_append, isValidFields]
      by_cases hDot : c = 46
      · subst hDot
        simp [hDigits]
      · rw [if_neg hDot, if_neg (Ne.symm hNot)]
        rw [List.takeWhile_cons_of_pos (by simpa using hDot), List.all_cons, List.length_cons]
        by_cases hRoom : ndigits < 4
        · rw [ih hColon (by omega)]
          have hMem : (46 : UInt8) ∈ c :: part ↔ (46 : UInt8) ∈ part := by
            simp [Ne.symm hDot]
          simp only [hMem, hRoom, decide_true, Bool.true_and, List.length_cons, Bool.and_assoc,
            Nat.add_assoc, Nat.add_comm 1]
        · have hFull : ¬ ndigits + ((part.takeWhile (· ≠ 46)).length + 1) ≤ 4 := by omega
          rw [decide_eq_false hRoom, decide_eq_false hFull]
          simp only [Bool.false_and, Bool.and_false]

/-- A colon ends a group, or stands next to another and makes a null field. -/
theorem isValidFields_colon :
    isValidFields text field (58 :: rest) nullField nfields ndigits =
      if ndigits = 0 then !nullField && isValidFields text rest rest true nfields 0
      else isValidFields text rest rest nullField (nfields + 1) 0 := by
  rw [isValidFields, if_neg (by decide), if_pos rfl]

theorem takeWhile_ne {stop : UInt8} {s : Bytes} (h : stop ∉ s) : s.takeWhile (· ≠ stop) = s := by
  refine List.takeWhile_eq_self_iff.mpr ?_
  intro c hc
  simp only [ne_eq, decide_eq_true_eq]
  rintro rfl
  exact h hc

/-- The loop passes a group as a whole. -/
theorem takeWhile_group {g : Bytes} (h : AddressText.IsGroup g) :
    (46 : UInt8) ∉ g ∧ g.takeWhile (· ≠ 46) = g ∧ g.all isHexdigit = true := by
  have hDot : (46 : UInt8) ∉ g := fun hMem => absurd (h.digits 46 hMem) (by decide)
  refine ⟨hDot, takeWhile_ne hDot, List.all_eq_true.mpr ?_⟩
  intro c hc
  rw [isHexdigit_eq]
  exact h.digits c hc

/-- The digits in front of the first dot are a group if there is no dot. -/
theorem isGroup_of_part {part : Bytes} (hNonempty : part ≠ []) (hDot : (46 : UInt8) ∉ part)
    (hDigits : (part.takeWhile (· ≠ 46)).all isHexdigit = true)
    (hLength : (part.takeWhile (· ≠ 46)).length ≤ 4) : AddressText.IsGroup part := by
  rw [takeWhile_ne hDot] at hDigits hLength
  refine ⟨hNonempty, hLength, fun c hc => ?_⟩
  rw [← isHexdigit_eq]
  exact List.all_eq_true.mp hDigits c hc

/-- A group of digits is counted at the colon behind it. -/
theorem isValidFields_group {g : Bytes} (h : AddressText.IsGroup g) :
    isValidFields text field (g ++ 58 :: rest) nullField nfields 0 =
      isValidFields text rest rest nullField (nfields + 1) 0 := by
  obtain ⟨hDot, hAll, hHex⟩ := takeWhile_group h
  have hPos := List.length_pos_of_ne_nil h.nonempty
  rw [isValidFields_part h.colon (by omega), hAll, hHex, if_neg hDot, isValidFields_colon,
    if_neg (by omega), Nat.zero_add, decide_eq_true h.length]
  rfl

/-- Nothing else may stand in front of a colon. -/
theorem isValidFields_other {part : Bytes} (hColon : (58 : UInt8) ∉ part) (hNonempty : part ≠ [])
    (hGroup : ¬ AddressText.IsGroup part) :
    isValidFields text (part ++ 58 :: rest) (part ++ 58 :: rest) nullField nfields 0 = false := by
  rw [isValidFields_part hColon (by omega)]
  by_cases hDot : (46 : UInt8) ∈ part
  · have hAddress : isValidIPv4 (part ++ 58 :: rest) = false := by
      rw [Bool.eq_false_iff]
      intro h
      exact Dotted.colon h (by simp)
    rw [if_pos hDot, hAddress, Bool.and_false, Bool.and_false]
  · rw [if_neg hDot, Nat.zero_add]
    rw [Bool.eq_false_iff]
    intro h
    obtain ⟨hFront, -⟩ := Bool.and_eq_true_iff.mp h
    obtain ⟨hDigits, hLength⟩ := Bool.and_eq_true_iff.mp hFront
    exact hGroup (isGroup_of_part hNonempty hDot hDigits (of_decide_eq_true hLength))

/-- The loop passes a dotted part up to its first dot. -/
theorem Dotted.digits {part : Bytes} (h : Dotted part) :
    (46 : UInt8) ∈ part ∧ (part.takeWhile (· ≠ 46)).all isHexdigit = true := by
  obtain ⟨hChars, -, hDot⟩ := isDotted_spec h.valid
  refine ⟨hDot (by omega), List.all_eq_true.mpr ?_⟩
  intro c hc
  have hNotDot : c ≠ 46 := by simpa using List.mem_takeWhile_imp hc
  have hNum := (hChars c (List.takeWhile_prefix _ |>.subset hc)).resolve_left hNotDot
  simp [isHexdigit, hNum]

/-- At the end of a group it is the eighth, or a null field stands for one or
more. -/
theorem isValidEnd_group (hPos : 0 < ndigits) :
    isValidEnd text nullField nfields ndigits = true ↔
      nullField = false ∧ nfields = 7 ∨ nullField = true ∧ nfields < 7 := by
  rw [isValidEnd, if_neg (by omega), if_pos hPos]
  cases nullField <;> simp
  omega

/-- The last part: a group, or a dotted one. -/
theorem isValidFields_last {part : Bytes} (hColon : (58 : UInt8) ∉ part) (hNonempty : part ≠ []) :
    isValidFields text part part nullField nfields 0 = true ↔
      (AddressText.IsGroup part ∧
        (nullField = false ∧ nfields = 7 ∨ nullField = true ∧ nfields < 7)) ∨
      (Dotted part ∧ (nullField = false ∧ nfields = 6 ∨ nullField = true ∧ nfields < 7)) := by
  have hPart := @isValidFields_part text part [] nullField nfields 0 part hColon (Nat.zero_le 4)
  rw [List.append_nil, Nat.zero_add, Nat.zero_add] at hPart
  rw [hPart, Bool.and_eq_true_iff, Bool.and_eq_true_iff, decide_eq_true_iff]
  by_cases hDot : (46 : UInt8) ∈ part
  · rw [if_pos hDot, Bool.and_eq_true_iff]
    have hCount : ((!nullField && nfields == 6) || (nullField && decide (nfields < 7))) = true ↔
        nullField = false ∧ nfields = 6 ∨ nullField = true ∧ nfields < 7 := by
      cases nullField <;> simp
    rw [hCount]
    constructor
    · rintro ⟨⟨-, hFirst⟩, hNumber, hValid⟩
      exact .inr ⟨dotted_iff.mpr ⟨hValid, hFirst⟩, hNumber⟩
    · rintro (⟨hGroup, -⟩ | ⟨hDotted, hNumber⟩)
      · exact absurd hDot (takeWhile_group hGroup).1
      · exact ⟨⟨hDotted.digits.2, hDotted.first⟩, hNumber, hDotted.valid⟩
  · rw [if_neg hDot, isValidFields, isValidEnd_group (List.length_pos_of_ne_nil hNonempty)]
    constructor
    · rintro ⟨⟨hDigits, hLength⟩, hNumber⟩
      exact .inl ⟨isGroup_of_part hNonempty hDot hDigits hLength, hNumber⟩
    · rintro (⟨hGroup, hNumber⟩ | ⟨hDotted, -⟩)
      · obtain ⟨-, hAll, hHex⟩ := takeWhile_group hGroup
        rw [hAll]
        exact ⟨⟨hHex, hGroup.length⟩, hNumber⟩
      · exact absurd hDotted.digits.1 hDot

/-- Groups, and the last part behind them if there is one. -/
def Ends (parts : List Bytes) (tail : Option Bytes) : Prop :=
  ∃ groups, (∀ g ∈ groups, AddressText.IsGroup g) ∧ (∀ t ∈ tail, Dotted t) ∧
    parts = groups ++ tail.toList

theorem Dotted.nonempty {part : Bytes} (h : Dotted part) : part ≠ [] := by
  rintro rfl
  exact absurd h.valid (by decide)

theorem ends_nonempty {parts : List Bytes} {tail : Option Bytes} (h : Ends parts tail) :
    [] ∉ parts := by
  obtain ⟨groups, hGroups, hTail, rfl⟩ := h
  intro hMem
  rcases List.mem_append.mp hMem with hMem | hMem
  · exact (hGroups [] hMem).nonempty rfl
  · exact (hTail [] (Option.mem_toList.mp hMem)).nonempty rfl

/-- The last part is a group or a dotted part. -/
theorem ends_singleton {part : Bytes} {tail : Option Bytes} :
    Ends [part] tail ↔ tail = none ∧ AddressText.IsGroup part ∨ tail = some part ∧ Dotted part := by
  constructor
  · rintro ⟨groups, hGroups, hTail, hParts⟩
    cases tail with
    | none =>
        obtain rfl : [part] = groups := by simpa using hParts
        exact .inl ⟨rfl, hGroups part (by simp)⟩
    | some t =>
        obtain ⟨rfl, rfl⟩ : groups = [] ∧ part = t := by
          cases groups with
          | nil => simpa using hParts
          | cons g groups => simp at hParts
        exact .inr ⟨rfl, hTail part rfl⟩
  · rintro (⟨rfl, hGroup⟩ | ⟨rfl, hDotted⟩)
    · exact ⟨[part], by simpa using hGroup, nofun, rfl⟩
    · exact ⟨[], nofun, fun t ht => Option.some.inj ht ▸ hDotted, rfl⟩

/-- What stands in front of another part is a group. -/
theorem ends_cons {part next : Bytes} {parts : List Bytes} {tail : Option Bytes} :
    Ends (part :: next :: parts) tail ↔
      AddressText.IsGroup part ∧ Ends (next :: parts) tail := by
  constructor
  · rintro ⟨groups, hGroups, hTail, hParts⟩
    cases groups with
    | nil =>
        cases tail with
        | none => simp at hParts
        | some t => simp at hParts
    | cons g groups =>
        obtain ⟨rfl, hRest⟩ := List.cons.inj hParts
        exact ⟨hGroups part List.mem_cons_self,
          groups, fun g h => hGroups g (List.mem_cons_of_mem _ h), hTail, hRest⟩
  · rintro ⟨hGroup, groups, hGroups, hTail, hParts⟩
    refine ⟨part :: groups, ?_, hTail, by rw [hParts]; rfl⟩
    intro g hMem
    rcases List.mem_cons.mp hMem with rfl | hMem
    · exact hGroup
    · exact hGroups g hMem

/-- What may stand behind a null field: the end of the text, or more fields. -/
def Behind (parts : List Bytes) (nfields : Nat) : Prop :=
  parts = [[]] ∧ nfields < 8 ∨ (∃ tail, Ends parts tail) ∧ nfields + parts.length < 8

variable {before : Bytes}

/-- Behind a group a single colon at the end is not a null field. -/
theorem getLast?_before {g : Bytes} (h : AddressText.IsGroup g) :
    (before ++ g ++ [58]).dropLast.getLast? ≠ some 58 := by
  rw [List.dropLast_concat, List.getLast?_append_of_ne_nil _ h.nonempty]
  intro hLast
  exact h.colon (List.mem_of_getLast? hLast)

/-- The fields behind the null field. -/
theorem isValidFields_behind {parts : List Bytes} (hColon : ∀ part ∈ parts, (58 : UInt8) ∉ part)
    (hParts : parts ≠ []) (hText : text = before ++ [58].intercalate parts)
    (hBefore : before.getLast? = some 58) :
    isValidFields text ([58].intercalate parts) ([58].intercalate parts) true nfields 0 = true ↔
      parts = [[]] ∧ before.dropLast.getLast? = some 58 ∧ nfields < 8 ∨
        (∃ tail, Ends parts tail) ∧ nfields + parts.length < 8 := by
  induction parts generalizing before nfields with
  | nil => exact absurd rfl hParts
  | cons part parts ih =>
      have hPart := hColon part List.mem_cons_self
      cases parts with
      | nil =>
          rw [List.intercalate_singleton] at hText ⊢
          by_cases hEmpty : part = []
          · subst hEmpty
            rw [List.append_nil] at hText
            subst hText
            rw [isValidFields, isValidEnd, if_pos ⟨rfl, hBefore⟩, Bool.and_eq_true_iff]
            have hNone : ¬ ∃ tail, Ends [[]] tail :=
              fun ⟨tail, hEnds⟩ => ends_nonempty hEnds (by simp)
            simp [hNone]
          · rw [isValidFields_last hPart hEmpty]
            have hNumber : nfields + 1 < 8 ↔ nfields < 7 := by omega
            simp [hEmpty, ends_singleton, exists_or, or_and_right, hNumber]
      | cons next parts =>
          rw [AddressText.intercalate_cons_cons] at hText ⊢
          have hNotLast : part :: next :: parts ≠ [[]] := by simp
          by_cases hEmpty : part = []
          · subst hEmpty
            have hNone : ¬ ∃ tail, Ends ([] :: next :: parts) tail :=
              fun ⟨tail, hEnds⟩ => ends_nonempty hEnds (by simp)
            rw [List.nil_append, isValidFields_colon, if_pos rfl]
            simp [hNone]
          · by_cases hGroup : AddressText.IsGroup part
            · have hNext : text = (before ++ part ++ [58]) ++ [58].intercalate (next :: parts) := by
                rw [hText]
                simp
              rw [isValidFields_group hGroup,
                ih (fun p hp => hColon p (List.mem_cons_of_mem _ hp)) (by simp) hNext (by simp)]
              simp only [ends_cons, hGroup, true_and, getLast?_before hGroup, hNotLast, false_and,
                and_false, false_or, List.length_cons]
              rw [Nat.add_assoc, Nat.add_comm 1]
            · rw [isValidFields_other hPart hEmpty hGroup]
              simp [ends_cons, hGroup]

/-- Groups, a null field, and what may stand behind it. -/
def WithNull (parts : List Bytes) (nfields : Nat) : Prop :=
  ∃ front back, (∀ g ∈ front, AddressText.IsGroup g) ∧ back ≠ [] ∧
    parts = front ++ [] :: back ∧ Behind back (nfields + front.length)

theorem not_withNull_singleton {part : Bytes} : ¬ WithNull [part] nfields := by
  rintro ⟨front, back, -, hBack, hSame, -⟩
  have hLength := congrArg List.length hSame
  have hPos := List.length_pos_of_ne_nil hBack
  simp only [List.length_append, List.length_cons, List.length_nil] at hLength
  omega

/-- An empty part is the null field. -/
theorem withNull_nil_cons {next : Bytes} {parts : List Bytes} :
    WithNull ([] :: next :: parts) nfields ↔ Behind (next :: parts) nfields := by
  constructor
  · rintro ⟨front, back, hFront, -, hSame, h⟩
    cases front with
    | nil =>
        obtain rfl := (List.cons.inj hSame).2
        exact h
    | cons g front =>
        obtain rfl := (List.cons.inj hSame).1
        exact absurd rfl (hFront [] List.mem_cons_self).nonempty
  · exact fun h => ⟨[], next :: parts, nofun, by simp, rfl, h⟩

/-- Any other part in front of the null field is a group. -/
theorem withNull_cons {part next : Bytes} {parts : List Bytes} (hEmpty : part ≠ []) :
    WithNull (part :: next :: parts) nfields ↔
      AddressText.IsGroup part ∧ WithNull (next :: parts) (nfields + 1) := by
  constructor
  · rintro ⟨front, back, hFront, hBack, hSame, h⟩
    cases front with
    | nil => exact absurd (List.cons.inj hSame).1 hEmpty
    | cons g front =>
        obtain ⟨rfl, hRest⟩ := List.cons.inj hSame
        refine ⟨hFront part List.mem_cons_self, front, back,
          fun g hg => hFront g (List.mem_cons_of_mem _ hg), hBack, hRest, ?_⟩
        rwa [List.length_cons, Nat.add_comm front.length, ← Nat.add_assoc] at h
  · rintro ⟨hGroup, front, back, hFront, hBack, hSame, h⟩
    refine ⟨part :: front, back, ?_, hBack, by rw [hSame]; rfl, ?_⟩
    · intro g hMem
      rcases List.mem_cons.mp hMem with rfl | hMem
      · exact hGroup
      · exact hFront g hMem
    · rwa [List.length_cons, Nat.add_comm front.length, ← Nat.add_assoc]

/-- The last field, if no field was null. -/
theorem isValidFields_end {part : Bytes} (hColon : (58 : UInt8) ∉ part)
    (hText : text = before ++ part) (hBefore : before.dropLast.getLast? ≠ some 58)
    (hFirst : part = [] → before.getLast? = some 58) :
    isValidFields text part part false nfields 0 = true ↔
      ∃ tail, Ends [part] tail ∧ nfields + 1 + tail.toList.length = 8 := by
  by_cases hEmpty : part = []
  · subst hEmpty
    rw [List.append_nil] at hText
    subst hText
    rw [isValidFields, isValidEnd, if_pos ⟨rfl, hFirst rfl⟩]
    constructor
    · intro hEnd
      exact absurd (of_decide_eq_true (Bool.and_eq_true_iff.mp hEnd).1) hBefore
    · rintro ⟨tail, hEnds, -⟩
      exact absurd List.mem_cons_self (ends_nonempty hEnds)
  · rw [isValidFields_last hColon hEmpty]
    constructor
    · rintro (⟨hGroup, hNumber⟩ | ⟨hDotted, hNumber⟩)
      · refine ⟨none, ends_singleton.mpr (.inl ⟨rfl, hGroup⟩), ?_⟩
        simpa using hNumber
      · refine ⟨some part, ends_singleton.mpr (.inr ⟨rfl, hDotted⟩), ?_⟩
        simpa using hNumber
    · rintro ⟨tail, hEnds, hNumber⟩
      rcases ends_singleton.mp hEnds with ⟨rfl, hGroup⟩ | ⟨rfl, hDotted⟩
      · exact .inl ⟨hGroup, .inl ⟨rfl, by simpa using hNumber⟩⟩
      · exact .inr ⟨hDotted, .inl ⟨rfl, by simpa using hNumber⟩⟩

/-- All fields, and perhaps a null field between them. -/
theorem isValidFields_all {parts : List Bytes} (hColon : ∀ part ∈ parts, (58 : UInt8) ∉ part)
    (hParts : parts ≠ []) (hText : text = before ++ [58].intercalate parts)
    (hBefore : before.dropLast.getLast? ≠ some 58)
    (hFirst : parts.head? = some [] → before.getLast? = some 58) :
    isValidFields text ([58].intercalate parts) ([58].intercalate parts) false nfields 0 = true ↔
      (∃ tail, Ends parts tail ∧ nfields + parts.length + tail.toList.length = 8) ∨
        WithNull parts nfields := by
  induction parts generalizing before nfields with
  | nil => exact absurd rfl hParts
  | cons part parts ih =>
      have hPart := hColon part List.mem_cons_self
      have hRest : ∀ p ∈ parts, (58 : UInt8) ∉ p := fun p hp => hColon p (List.mem_cons_of_mem _ hp)
      cases parts with
      | nil =>
          rw [List.intercalate_singleton] at hText ⊢
          rw [or_iff_left not_withNull_singleton]
          exact isValidFields_end hPart hText hBefore fun hEmpty => hFirst (by rw [hEmpty]; rfl)
      | cons next parts =>
          rw [AddressText.intercalate_cons_cons] at hText ⊢
          by_cases hEmpty : part = []
          · subst hEmpty
            have hNext : text = (before ++ [58]) ++ [58].intercalate (next :: parts) := by
              rw [hText]
              simp
            have hNone : ¬ ∃ tail, Ends ([] :: next :: parts) tail ∧
                nfields + ([] :: next :: parts).length + tail.toList.length = 8 :=
              fun ⟨_, hEnds, _⟩ => ends_nonempty hEnds List.mem_cons_self
            rw [List.nil_append, isValidFields_colon, if_pos rfl, Bool.not_false, Bool.true_and,
              isValidFields_behind hRest (by simp) hNext (by simp), List.dropLast_concat,
              or_iff_right hNone, withNull_nil_cons, hFirst rfl, Behind]
            simp
          · by_cases hGroup : AddressText.IsGroup part
            · have hNext : text = (before ++ part ++ [58]) ++ [58].intercalate (next :: parts) := by
                rw [hText]
                simp
              rw [isValidFields_group hGroup,
                ih hRest (by simp) hNext (getLast?_before hGroup) (fun _ => by simp)]
              simp only [ends_cons, withNull_cons hEmpty, hGroup, true_and, List.length_cons,
                Nat.add_assoc, Nat.add_comm 1]
            · rw [isValidFields_other hPart hEmpty hGroup]
              simp [ends_cons, withNull_cons hEmpty, hGroup]

/-- Eight parts without a null field denote an address, a dotted part counting
twice. -/
theorem denotes_full {parts : List Bytes} {tail : Option Bytes} (h : Ends parts tail)
    (hSize : parts.length + tail.toList.length = 8) :
    ∃ fields, AddressText.Denotes Dotted ([58].intercalate parts) fields tail := by
  obtain ⟨groups, hGroups, hTail, rfl⟩ := h
  have hAdd := AddressText.size_add tail
  rw [List.length_append] at hSize
  exact ⟨_, .full hGroups hTail (by omega)⟩

/-- Fewer than eight parts with a null field between them denote an address. -/
theorem denotes_null {front parts : List Bytes} {tail : Option Bytes}
    (hFront : ∀ g ∈ front, AddressText.IsGroup g) (h : Ends parts tail)
    (hSize : front.length + parts.length < 8) :
    ∃ fields, AddressText.Denotes Dotted (AddressText.nullText front parts) fields tail := by
  obtain ⟨back, hBack, hTail, rfl⟩ := h
  rw [List.length_append] at hSize
  exact ⟨_, .null hFront hBack hTail (by omega)⟩

theorem ends_nil : Ends [] none := ⟨[], nofun, nofun, rfl⟩

theorem Ends.colon {parts : List Bytes} {tail : Option Bytes} (h : Ends parts tail) :
    ∀ part ∈ parts, (58 : UInt8) ∉ part := by
  obtain ⟨groups, hGroups, hTail, rfl⟩ := h
  intro part hMem
  rcases List.mem_append.mp hMem with hMem | hMem
  · exact (hGroups part hMem).colon
  · exact Dotted.colon (hTail part (Option.mem_toList.mp hMem)).valid

/-- A text that starts with a null field. -/
theorem isValidFields_front {rest : Bytes} (hRest : rest ≠ []) :
    isValidFields (58 :: 58 :: rest) rest rest true 0 0 = true ↔
      (∃ tail, Ends (rest.splitOn 58) tail) ∧ (rest.splitOn 58).length < 8 := by
  have hParts : rest.splitOn 58 ≠ [[]] := by
    intro hNil
    have hJoin : [58].intercalate (rest.splitOn 58) = rest := List.intercalate_splitOn 58
    rw [hNil] at hJoin
    exact hRest hJoin.symm
  have h := @isValidFields_behind (58 :: 58 :: rest) 0 [58, 58] (rest.splitOn 58)
    (fun _ => not_mem_of_mem_splitOn) (List.splitOn_ne_nil 58 rest)
    (by rw [List.intercalate_splitOn]; rfl) rfl
  rw [List.intercalate_splitOn] at h
  simpa [hParts] using h

/-- A text that starts with a field. -/
theorem isValidFields_start (hNonempty : text ≠ []) (hFirst : text.head? ≠ some 58) :
    isValidFields text text text false 0 0 = true ↔
      (∃ tail, Ends (text.splitOn 58) tail ∧ (text.splitOn 58).length + tail.toList.length = 8) ∨
        ∃ front back, (∀ g ∈ front, AddressText.IsGroup g) ∧ front ≠ [] ∧ back ≠ [] ∧
          text.splitOn 58 = front ++ [] :: back ∧ Behind back front.length := by
  have hHead : ∀ parts, text.splitOn 58 ≠ [] :: parts := by
    intro parts hParts
    have hJoin : [58].intercalate (text.splitOn 58) = text := List.intercalate_splitOn 58
    rw [hParts, AddressText.intercalate_nil_cons] at hJoin
    cases parts with
    | nil => exact hNonempty hJoin.symm
    | cons part parts =>
        rw [← hJoin] at hFirst
        exact hFirst rfl
  have h := @isValidFields_all text 0 [] (text.splitOn 58) (fun _ => not_mem_of_mem_splitOn)
    (List.splitOn_ne_nil 58 text) (by rw [List.intercalate_splitOn]; rfl) nofun ?_
  · rw [List.intercalate_splitOn] at h
    rw [h]
    simp only [WithNull, Nat.zero_add]
    refine or_congr_right ?_
    constructor
    · rintro ⟨front, back, hFront, hBack, hParts, hBehind⟩
      refine ⟨front, back, hFront, ?_, hBack, hParts, hBehind⟩
      rintro rfl
      exact hHead back hParts
    · rintro ⟨front, back, hFront, -, hBack, hParts, hBehind⟩
      exact ⟨front, back, hFront, hBack, hParts, hBehind⟩
  · intro hNil
    obtain ⟨parts, hParts⟩ := List.head?_eq_some_iff.mp hNil
    exact absurd hParts (hHead parts)

/-- How `is_valid_ipv6` starts: on two colons alone, behind two colons, or at a
character that is no colon. -/
theorem isValidIPv6_cases : isValidIPv6 text = true ↔
    text.length ≤ 39 ∧ (text = [58, 58] ∨
      (∃ rest, text = 58 :: 58 :: rest ∧ rest ≠ [] ∧
        isValidFields text rest rest true 0 0 = true) ∨
      2 ≤ text.length ∧ text.head? ≠ some 58 ∧
        isValidFields text text text false 0 0 = true) := by
  unfold isValidIPv6
  by_cases hLength : text.length ≤ 39
  · by_cases hShort : text.length < 2
    · have hFirst : ∀ rest, text ≠ 58 :: 58 :: rest := by
        rintro rest rfl
        simp at hShort
      simp [hShort, hFirst, Nat.not_le.mpr hShort]
    · rw [if_neg (by simp; omega)]
      simp only [hLength, true_and, Nat.not_lt.mp hShort]
      split
      · simp
      · next rest hRest =>
          have hNonempty : rest ≠ [] := fun h => hRest (by rw [h])
          simp [hNonempty]
      · next hSecond =>
          simp only [Bool.false_eq_true, false_iff]
          rintro (hText | ⟨rest, hText, -⟩ | ⟨hHead, -⟩)
          · simp_all
          · simp_all
          · exact hHead rfl
      · next h1 h2 h3 =>
          have hHead : text.head? ≠ some 58 := by
            intro hHead
            obtain ⟨rest, rfl⟩ := List.head?_eq_some_iff.mp hHead
            exact h3 rest rfl
          have hNull : ∀ rest, text ≠ 58 :: 58 :: rest := fun rest => h2 rest
          simp [hHead, hNull]
  · simp [hLength, Nat.not_le.mp hLength]

/-- A text that starts with a null field, and goes on. -/
theorem isValidIPv6_front {parts : List Bytes} (hColon : ∀ part ∈ parts, (58 : UInt8) ∉ part)
    (hParts : parts ≠ []) (hNonempty : [58].intercalate parts ≠ []) :
    isValidIPv6 (58 :: 58 :: [58].intercalate parts) = true ↔
      (58 :: 58 :: [58].intercalate parts).length ≤ 39 ∧
        (∃ tail, Ends parts tail) ∧ parts.length < 8 := by
  have hSplit : ([58].intercalate parts).splitOn 58 = parts :=
    List.splitOn_intercalate 58 hColon hParts
  rw [isValidIPv6_cases]
  refine and_congr_right fun _ => ?_
  constructor
  · rintro (hText | ⟨rest, hText, -, hFields⟩ | ⟨-, hHead, -⟩)
    · exact absurd (by simpa using hText) hNonempty
    · obtain rfl : [58].intercalate parts = rest := by simpa using hText
      rwa [isValidFields_front hNonempty, hSplit] at hFields
    · exact absurd rfl hHead
  · intro hEnds
    refine .inr (.inl ⟨_, rfl, hNonempty, ?_⟩)
    rwa [isValidFields_front hNonempty, hSplit]

/-- A text that starts with a field. -/
theorem isValidIPv6_start {parts : List Bytes} (hColon : ∀ part ∈ parts, (58 : UInt8) ∉ part)
    (hFirst : parts.head? ≠ some []) (hTwo : 2 ≤ parts.length) :
    isValidIPv6 ([58].intercalate parts) = true ↔
      ([58].intercalate parts).length ≤ 39 ∧
        ((∃ tail, Ends parts tail ∧ parts.length + tail.toList.length = 8) ∨
          ∃ front back, (∀ g ∈ front, AddressText.IsGroup g) ∧ front ≠ [] ∧ back ≠ [] ∧
            parts = front ++ [] :: back ∧ Behind back front.length) := by
  match parts, hTwo with
  | first :: second :: rest, _ =>
      have hNonempty : first ≠ [] := fun h => hFirst (by rw [h]; rfl)
      have hSplit : ([58].intercalate (first :: second :: rest)).splitOn 58 =
          first :: second :: rest := List.splitOn_intercalate 58 hColon (by simp)
      have hHead : ([58].intercalate (first :: second :: rest)).head? ≠ some 58 := by
        rw [AddressText.head?_intercalate hNonempty]
        intro hHead
        exact hColon first List.mem_cons_self (List.mem_of_mem_head? hHead)
      have hLength : 2 ≤ ([58].intercalate (first :: second :: rest)).length := by
        have hPos := List.length_pos_of_ne_nil hNonempty
        rw [AddressText.intercalate_cons_cons, List.length_append, List.length_cons]
        omega
      have hText : [58].intercalate (first :: second :: rest) ≠ [] := by
        intro hNil
        rw [hNil] at hLength
        exact absurd hLength (by decide)
      rw [isValidIPv6_cases, ← hSplit, ← isValidFields_start hText hHead, hSplit]
      refine and_congr_right fun _ => ?_
      constructor
      · rintro (hSame | ⟨rest, hSame, -⟩ | ⟨-, -, hFields⟩)
        · exact absurd (by rw [hSame]; rfl) hHead
        · exact absurd (by rw [hSame]; rfl) hHead
        · exact hFields
      · exact fun hFields => .inr (.inr ⟨hLength, hHead, hFields⟩)

end

/-- What is accepted denotes an address. -/
theorem denotes_of_valid {text : Bytes} (h : isValidIPv6 text = true) :
    text.length ≤ 39 ∧ ∃ fields tail, AddressText.Denotes Dotted text fields tail := by
  obtain ⟨hLength, h⟩ := isValidIPv6_cases.mp h
  refine ⟨hLength, ?_⟩
  rcases h with rfl | ⟨rest, rfl, hRest, h⟩ | ⟨hTwo, hFirst, h⟩
  · obtain ⟨fields, h⟩ := @denotes_null [] [] none nofun ends_nil (by decide)
    exact ⟨fields, none, h⟩
  · obtain ⟨⟨tail, hEnds⟩, hSize⟩ := (isValidFields_front hRest).mp h
    obtain ⟨fields, h⟩ := @denotes_null [] _ _ nofun hEnds (by simpa using hSize)
    rw [AddressText.nullText_nil (List.splitOn_ne_nil 58 rest), List.intercalate_splitOn] at h
    exact ⟨fields, tail, h⟩
  · have hNonempty : text ≠ [] := by
      rintro rfl
      exact absurd hTwo (by decide)
    have hJoin : [58].intercalate (text.splitOn 58) = text := List.intercalate_splitOn 58
    rw [isValidFields_start hNonempty hFirst] at h
    rw [← hJoin]
    obtain ⟨tail, hEnds, hSize⟩ | ⟨front, back, hFront, hSome, hBack, hParts, hBehind⟩ := h
    · obtain ⟨fields, h⟩ := denotes_full hEnds hSize
      exact ⟨fields, tail, h⟩
    · rw [hParts]
      obtain ⟨rfl, hSize⟩ | ⟨⟨tail, hEnds⟩, hSize⟩ := hBehind
      · obtain ⟨fields, h⟩ := denotes_null hFront ends_nil (by simpa using hSize)
        rw [AddressText.nullText_of_ne_nil hSome, if_pos rfl] at h
        exact ⟨fields, none, h⟩
      · obtain ⟨fields, h⟩ := denotes_null hFront hEnds hSize
        rw [AddressText.nullText_of_ne_nil hSome, if_neg hBack] at h
        exact ⟨fields, tail, h⟩

/-- An address without a null field is accepted. -/
theorem valid_of_full {groups : List Bytes} {tail : Option Bytes}
    (hEnds : Ends (groups ++ tail.toList) tail) (hSize : groups.length = AddressText.size tail)
    (hLength : ([58].intercalate (groups ++ tail.toList)).length ≤ 39) :
    isValidIPv6 ([58].intercalate (groups ++ tail.toList)) = true := by
  have hAdd := AddressText.size_add tail
  have hOne : tail.toList.length ≤ 1 := by cases tail <;> simp
  have hCount : (groups ++ tail.toList).length + tail.toList.length = 8 := by
    rw [List.length_append]
    omega
  refine (isValidIPv6_start hEnds.colon ?_ (by omega)).mpr ⟨hLength, .inl ⟨tail, hEnds, hCount⟩⟩
  exact fun hHead => ends_nonempty hEnds (List.mem_of_mem_head? hHead)

/-- A null field in front of all others. -/
theorem valid_of_null_nil {parts : List Bytes} {tail : Option Bytes} (hEnds : Ends parts tail)
    (hCount : parts.length < 8) (hLength : (AddressText.nullText [] parts).length ≤ 39) :
    isValidIPv6 (AddressText.nullText [] parts) = true := by
  by_cases hParts : parts = []
  · subst hParts
    decide +kernel
  · rw [AddressText.nullText_nil hParts] at hLength ⊢
    refine (isValidIPv6_front hEnds.colon hParts ?_).mpr ⟨hLength, ⟨tail, hEnds⟩, hCount⟩
    obtain ⟨first, rest, rfl⟩ := List.exists_cons_of_ne_nil hParts
    have hFirst : first ≠ [] := fun h => ends_nonempty hEnds (h ▸ List.mem_cons_self)
    exact AddressText.intercalate_ne_nil hFirst rest

/-- A null field behind others. -/
theorem valid_of_null {front parts : List Bytes} {tail : Option Bytes} (hSome : front ≠ [])
    (hFront : ∀ g ∈ front, AddressText.IsGroup g) (hEnds : Ends parts tail)
    (hCount : front.length + parts.length < 8)
    (hLength : (AddressText.nullText front parts).length ≤ 39) :
    isValidIPv6 (AddressText.nullText front parts) = true := by
  rw [AddressText.nullText_of_ne_nil hSome] at hLength ⊢
  have hBehind : Behind (if parts = [] then [[]] else parts) front.length := by
    split
    · next hNil =>
        subst hNil
        exact .inl ⟨rfl, by simpa using hCount⟩
    · exact .inr ⟨⟨tail, hEnds⟩, hCount⟩
  have hMore : (if parts = [] then [[]] else parts) ≠ [] := by
    split
    · simp
    · assumption
  have hColon : ∀ part ∈ if parts = [] then [[]] else parts, (58 : UInt8) ∉ part := by
    split
    · simp
    · exact hEnds.colon
  generalize (if parts = [] then [[]] else parts) = back at hLength hBehind hMore hColon
  refine (isValidIPv6_start ?_ ?_ ?_).mpr
    ⟨hLength, .inr ⟨front, back, hFront, hSome, hMore, rfl, hBehind⟩⟩
  · intro part hMem
    rcases List.mem_append.mp hMem with hMem | hMem
    · exact (hFront part hMem).colon
    · rcases List.mem_cons.mp hMem with rfl | hMem
      · exact List.not_mem_nil
      · exact hColon part hMem
  · rw [List.head?_append_of_ne_nil _ hSome]
    exact fun hHead => (hFront [] (List.mem_of_mem_head? hHead)).nonempty rfl
  · have hPos := List.length_pos_of_ne_nil hSome
    rw [List.length_append, List.length_cons]
    omega

/-- Every text of an address that is not too long is accepted. -/
theorem valid_of_denotes {text : Bytes} {fields : List Nat} {tail : Option Bytes}
    (hDenotes : AddressText.Denotes Dotted text fields tail) (hLength : text.length ≤ 39) :
    isValidIPv6 text = true := by
  cases hDenotes with
  | @full groups _ hGroups hTail hSize =>
      exact valid_of_full ⟨groups, hGroups, hTail, rfl⟩ hSize hLength
  | @null front back _ hFront hBack hTail hSize =>
      have hEnds : Ends (back ++ tail.toList) tail := ⟨back, hBack, hTail, rfl⟩
      have hCount : front.length + (back ++ tail.toList).length < 8 := by
        rw [List.length_append]
        omega
      by_cases hNone : front = []
      · subst hNone
        exact valid_of_null_nil hEnds (by simpa using hCount) hLength
      · exact valid_of_null hNone hFront hEnds hCount hLength

/-- `is_valid_ipv6` accepts the texts of addresses of no more than 39 characters. -/
theorem isValidIPv6_iff (text : Bytes) :
    isValidIPv6 text = true ↔
      text.length ≤ 39 ∧ ∃ fields tail, AddressText.Denotes Dotted text fields tail := by
  constructor
  · exact denotes_of_valid
  · rintro ⟨hLength, fields, tail, hDenotes⟩
    exact valid_of_denotes hDenotes hLength

end Url

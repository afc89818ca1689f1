import GisService.Jwt.Picojson
import Mathlib.Tactic.IntervalCases

/-! Reading back what the writer produces: an object of strings and integers
is parsed to itself, so its text determines its members. -/
namespace Picojson

open ByteString Cxx

/-- A control character is written with four digits and read back. -/
theorem parseQuadhex_hexDigit (c : UInt8) :
    parseQuadhex 48 48 (hexDigit (c.toNat / 16)) (hexDigit (c.toNat % 16)) = some c.toNat := by
  have h : ∀ n < 256, parseQuadhex 48 48 (hexDigit (n / 16)) (hexDigit (n % 16)) = some n := by
    decide +kernel
  exact h c.toNat c.toNat_lt

theorem parseString_quote (rest : Bytes) : parseString (quote :: rest) = some ([], rest) := by
  rw [parseString.eq_def]
  dsimp only
  rfl

/-- Most characters stand for themselves. -/
theorem parseString_plain {ch : UInt8} (hControl : ¬ ch < 32) (hQuote : ch ≠ quote)
    (hBackslash : ch ≠ backslash) (input : Bytes) :
    parseString (ch :: input) = (parseString input).map fun (out, rest) => (ch :: out, rest) := by
  rw [parseString.eq_def]
  dsimp only
  rw [if_neg hControl, if_neg hQuote, if_neg hBackslash]

/-- A simple escape stands for one character. -/
theorem parseString_escape {esc c : UInt8} (h : simpleEscape esc = some c) (input : Bytes) :
    parseString (backslash :: esc :: input) =
      (parseString input).map fun (out, rest) => (c :: out, rest) := by
  rw [parseString.eq_def]
  dsimp only
  rw [if_neg (by decide), if_neg (by decide), if_pos rfl, h]

/-- Four digits stand for a code point, but for surrogates. -/
theorem parseString_unicode {a b c d : UInt8} {uniCh : Nat} (h : parseQuadhex a b c d = some uniCh)
    (hSurrogate : ¬ (0xd800 ≤ uniCh ∧ uniCh ≤ 0xdfff)) (input : Bytes) :
    parseString (backslash :: 117 :: a :: b :: c :: d :: input) =
      (parseString input).map fun (out, rest) => (codepointBytes uniCh ++ out, rest) := by
  have hEscape : simpleEscape 117 = none := by decide
  rw [parseString.eq_def]
  dsimp only
  rw [if_neg (by decide), if_neg (by decide), if_pos rfl, hEscape]
  dsimp only
  rw [if_neg (by decide), h]
  dsimp only
  rw [if_neg hSurrogate]

/-- An escaped character is read back as that character, wherever it stands. -/
theorem parseString_serializeStrChar (c : UInt8) (input : Bytes) :
    parseString (serializeStrChar c ++ input) =
      (parseString input).map fun (out, rest) => (c :: out, rest) := by
  unfold serializeStrChar
  split_ifs with hQuote hBackslash h47 h8 h12 h10 h13 h9 hControl
  · exact parseString_escape (by rw [hQuote]; rfl) input
  · exact parseString_escape (by rw [hBackslash]; rfl) input
  · exact parseString_escape (by rw [h47]; rfl) input
  · exact parseString_escape (by rw [h8]; rfl) input
  · exact parseString_escape (by rw [h12]; rfl) input
  · exact parseString_escape (by rw [h10]; rfl) input
  · exact parseString_escape (by rw [h13]; rfl) input
  · exact parseString_escape (by rw [h9]; rfl) input
  · have hSmall : c.toNat < 0x80 := by
      rcases hControl with h | h
      · have := UInt8.lt_iff_toNat_lt.mp h
        simp only [UInt8.reduceToNat] at this
        omega
      · simp [h]
    have hOut : codepointBytes c.toNat = [c] := by
      rw [codepointBytes, if_pos hSmall, UInt8.ofNat_toNat]
    have h := parseString_unicode (parseQuadhex_hexDigit c) (by omega) input
    rwa [hOut] at h
  · have hControl' : ¬ c < 32 := fun h => hControl (Or.inl h)
    exact parseString_plain hControl' hQuote hBackslash input

/-- A text is read back up to its closing quote. -/
theorem parseString_serialize (s rest : Bytes) :
    parseString (s.flatMap serializeStrChar ++ quote :: rest) = some (s, rest) := by
  induction s with
  | nil => exact parseString_quote rest
  | cons c s ih =>
      rw [List.flatMap_cons, List.append_assoc, parseString_serializeStrChar, ih]
      rfl

/-- Input at which a number ends. -/
def EndsNumber (rest : Bytes) : Prop := ∀ ch ∈ rest.head?, isNumberChar ch = false

theorem isNumberChar_of_isDigit {ch : UInt8} (h : Decimal.isDigit ch = true) :
    isNumberChar ch = true := by
  simp [isNumberChar, h]

/-- An integer is printed with the characters of numbers. -/
theorem isNumberChar_of_mem_printInt {i : Int} {ch : UInt8} (h : ch ∈ Decimal.printInt i) :
    isNumberChar ch = true := by
  unfold Decimal.printInt at h
  split at h
  · rcases List.mem_cons.mp h with rfl | h
    · rfl
    · exact isNumberChar_of_isDigit (Decimal.isDigit_of_mem_print h)
  · exact isNumberChar_of_isDigit (Decimal.isDigit_of_mem_print h)

/-- The characters of a number are taken up to the first other one. -/
theorem takeWhile_number {text rest : Bytes} (hText : ∀ ch ∈ text, isNumberChar ch = true)
    (hRest : EndsNumber rest) :
    (text ++ rest).takeWhile isNumberChar = text ∧ (text ++ rest).dropWhile isNumberChar = rest := by
  have hStop : rest.takeWhile isNumberChar = [] ∧ rest.dropWhile isNumberChar = rest := by
    cases rest with
    | nil => simp
    | cons ch rest => simp [hRest ch (by simp)]
  constructor
  · rw [List.takeWhile_append_of_pos hText, hStop.1, List.append_nil]
  · rw [List.dropWhile_append_of_pos hText, hStop.2]

theorem splitSign_print (n : Nat) : splitSign (Decimal.print n) = (false, Decimal.print n) := by
  cases hPrint : Decimal.print n with
  | nil => rfl
  | cons ch digits =>
      have hDigit : Decimal.isDigit ch = true := Decimal.isDigit_of_mem_print (by rw [hPrint]; simp)
      have hMinus : ch ≠ 45 := by rintro rfl; exact absurd hDigit (by decide)
      have hPlus : ch ≠ 43 := by rintro rfl; exact absurd hDigit (by decide)
      rw [splitSign, if_neg hMinus, if_neg hPlus]

/-- An integer is read as itself. -/
theorem signedDigits_printInt (i : Int) : signedDigits (Decimal.printInt i) = some i := by
  have hAll (n : Nat) : Decimal.print n ≠ [] ∧ (Decimal.print n).all Decimal.isDigit = true :=
    ⟨Decimal.print_ne_nil n, List.all_eq_true.mpr fun _ h => Decimal.isDigit_of_mem_print h⟩
  unfold Decimal.printInt
  split
  · have hSign : splitSign (45 :: Decimal.print i.natAbs) = (true, Decimal.print i.natAbs) := rfl
    rw [signedDigits, hSign]
    dsimp only
    rw [if_pos (hAll _), Decimal.value_print, if_pos rfl]
    congr 1
    omega
  · rw [signedDigits, splitSign_print]
    dsimp only
    rw [if_pos (hAll _), Decimal.value_print, if_neg Bool.false_ne_true]
    congr 1
    omega

/-- A decimal text of a 64-bit integer is converted without loss. -/
theorem strtoimax_printInt {i : Int} (hLow : -2 ^ 63 ≤ i) (hHigh : i < 2 ^ 63) :
    strtoimax (Decimal.printInt i) = some i := by
  rw [strtoimax, signedDigits_printInt]
  exact Option.filter_some_pos (by simpa using ⟨hLow, hHigh⟩)

/-- An integer of 64 bits is not taken for a floating-point number. -/
theorem parseNumber_printInt {i : Int} (hLow : -2 ^ 63 ≤ i) (hHigh : i < 2 ^ 63) {rest : Bytes}
    (hRest : EndsNumber rest) :
    parseNumber (Decimal.printInt i ++ rest) = .done (.int64 i) rest := by
  obtain ⟨hTake, hDrop⟩ := takeWhile_number (fun _ h => isNumberChar_of_mem_printInt h) hRest
  rw [parseNumber, hTake, hDrop, strtoimax_printInt hLow hHigh]

/-- A claim whose text is read back as the same value. -/
def Claim.Fits : Claim → Prop
  | .string _ => True
  | .int64 i => -2 ^ 63 ≤ i ∧ i < 2 ^ 63

theorem skipWs_cons {ch : UInt8} (h : isSpace ch = false) (rest : Bytes) :
    skipWs (ch :: rest) = ch :: rest := by
  simp [skipWs, h]

/-- A character that is expected is found, with no blank in front of it. -/
theorem expect_self {ch : UInt8} (h : isSpace ch = false) (rest : Bytes) :
    expect ch (ch :: rest) = some rest := by
  simp [expect, skipWs_cons h]

theorem expect_other {ch expected : UInt8} (h : isSpace ch = false) (hNe : ch ≠ expected)
    (rest : Bytes) : expect expected (ch :: rest) = none := by
  simp [expect, skipWs_cons h, hNe]

/-- The first character of a printed integer selects the number branch. -/
theorem printInt_head (i : Int) : ∃ ch text, Decimal.printInt i = ch :: text ∧
    (Decimal.isDigit ch = true ∨ ch = 45) := by
  cases hPrint : Decimal.printInt i with
  | nil => exact absurd hPrint (Decimal.printInt_ne_nil i)
  | cons ch text =>
      refine ⟨ch, text, rfl, ?_⟩
      unfold Decimal.printInt at hPrint
      split at hPrint
      · exact Or.inr (List.cons.inj hPrint).1.symm
      · exact Or.inl (Decimal.isDigit_of_mem_print (by rw [hPrint]; simp))

/-- A digit or a sign starts a number. -/
theorem parseValue_number {ch : UInt8} (h : Decimal.isDigit ch = true ∨ ch = 45)
    (fuel depths : Nat) (rest : Bytes) :
    parseValue (fuel + 1) depths (ch :: rest) = parseNumber (ch :: rest) := by
  have hAll : ∀ n < 256, (Decimal.isDigit (UInt8.ofNat n) = true ∨ UInt8.ofNat n = 45) →
      isSpace (UInt8.ofNat n) = false ∧ UInt8.ofNat n ≠ 110 ∧ UInt8.ofNat n ≠ 102 ∧
        UInt8.ofNat n ≠ 116 ∧ UInt8.ofNat n ≠ quote ∧ UInt8.ofNat n ≠ 91 ∧
        UInt8.ofNat n ≠ 123 := by
    decide +kernel
  obtain ⟨hSpace, h1, h2, h3, h4, h5, h6⟩ := UInt8.ofNat_toNat (x := ch) ▸ hAll ch.toNat ch.toNat_lt
    (by rwa [UInt8.ofNat_toNat])
  rw [parseValue, skipWs_cons hSpace]
  dsimp only
  rw [if_neg h1, if_neg h2, if_neg h3, if_neg h4, if_neg h5, if_neg h6, if_pos h]

/-- Each kind of claim is read back as the value it stands for. -/
theorem parseValue_claim {v : Claim} (hFits : v.Fits) (fuel depths : Nat) {rest : Bytes}
    (hRest : EndsNumber rest) :
    parseValue (fuel + 1) depths (v.serialize ++ rest) = .done v.toValue rest := by
  cases v with
  | string s =>
      have hText : (Claim.string s).serialize ++ rest =
          quote :: (s.flatMap serializeStrChar ++ quote :: rest) := by
        simp [Claim.serialize, serializeStr]
      rw [hText, parseValue, skipWs_cons (by decide)]
      dsimp only
      rw [if_neg (by decide), if_neg (by decide), if_neg (by decide), if_pos rfl,
        parseString_serialize]
      rfl
  | int64 i =>
      obtain ⟨ch, text, hPrint, hHead⟩ := printInt_head i
      have hNumber := parseNumber_printInt hFits.1 hFits.2 hRest
      rw [Claim.serialize]
      rw [hPrint] at hNumber ⊢
      rw [List.cons_append, parseValue_number hHead, ← List.cons_append, hNumber]
      rfl

/-- Store a list of members one after another, as the reader does. -/
def storeAll (members : List (Bytes × Claim)) (acc : List (Bytes × Value)) : List (Bytes × Value) :=
  members.foldl (fun acc m => setMember m.1 m.2.toValue acc) acc

/-- One member: its key, its colon and its value. -/
theorem parseObjectItems_member (fuel depths : Nat) (key : Bytes) {v : Claim} (hFits : v.Fits)
    {rest : Bytes} (hRest : EndsNumber rest) (acc : List (Bytes × Value)) :
    parseObjectItems (fuel + 2) depths (serializeStr key ++ 58 :: (v.serialize ++ rest)) acc =
      match expect 44 rest with
      | some input => parseObjectItems (fuel + 1) depths input (setMember key v.toValue acc)
      | none =>
          match expect 125 rest with
          | some input => .done (.object (setMember key v.toValue acc)) input
          | none => .failed := by
  have hKey : serializeStr key ++ 58 :: (v.serialize ++ rest) =
      quote :: (key.flatMap serializeStrChar ++ quote :: 58 :: (v.serialize ++ rest)) := by
    simp [serializeStr]
  rw [parseObjectItems, hKey, expect_self (by decide)]
  dsimp only [Option.bind_some]
  rw [parseString_serialize]
  dsimp only
  rw [expect_self (by decide)]
  dsimp only
  rw [parseValue_claim hFits fuel depths hRest]
  rfl

/-- The members are read back in order, and stored by their names. -/
theorem parseObjectItems_serializeMembers (members : List (Bytes × Claim)) (hNonempty : members ≠ [])
    (hFits : ∀ m ∈ members, m.2.Fits) (fuel depths : Nat) (hFuel : members.length < fuel)
    (rest : Bytes) (acc : List (Bytes × Value)) :
    parseObjectItems fuel depths (serializeMembers members ++ 125 :: rest) acc =
      .done (.object (storeAll members acc)) rest := by
  have hBrace : EndsNumber (125 :: rest) := by
    intro ch h
    cases h
    rfl
  induction members generalizing fuel acc with
  | nil => exact absurd rfl hNonempty
  | cons member members ih =>
      obtain ⟨key, v⟩ := member
      obtain ⟨fuel, rfl⟩ : ∃ k, fuel = k + 2 :=
        ⟨fuel - 2, by simp only [List.length_cons] at hFuel; omega⟩
      have hv : v.Fits := hFits (key, v) (by simp)
      cases members with
      | nil =>
          rw [serializeMembers, List.append_assoc, List.cons_append,
            parseObjectItems_member fuel depths key hv hBrace,
            expect_other (by decide) (by decide), expect_self (by decide)]
          rfl
      | cons next members =>
          have hComma : EndsNumber (44 :: (serializeMembers (next :: members) ++ 125 :: rest)) := by
            intro ch h
            cases h
            rfl
          have hText : serializeMembers ((key, v) :: next :: members) ++ 125 :: rest =
              serializeStr key ++ 58 :: (v.serialize ++
                44 :: (serializeMembers (next :: members) ++ 125 :: rest)) := by
            simp [serializeMembers]
          rw [hText, parseObjectItems_member fuel depths key hv hComma, expect_self (by decide)]
          exact ih (by simp) (fun m hm => hFits m (List.mem_cons_of_mem _ hm)) (fuel + 1)
            (by simp only [List.length_cons] at hFuel ⊢; omega) _

/-- The text of each member is longer than one character. -/
theorem length_lt_serializeMembers (members : List (Bytes × Claim)) :
    members.length ≤ (serializeMembers members).length := by
  fun_induction serializeMembers members with
  | case1 => simp
  | case2 key v => simp [serializeStr]
  | case3 key v rest hRest ih =>
      simp only [List.length_cons, List.length_append]
      omega

/-- A written object is read back with every member it was written from. -/
theorem parse_serialize (members : List (Bytes × Claim)) (hNonempty : members ≠ [])
    (hFits : ∀ m ∈ members, m.2.Fits) :
    parse (serialize members) = .ok (some (.object (storeAll members []))) := by
  have hLength := length_lt_serializeMembers members
  have hHead : ∃ text, serializeMembers members ++ [125] = quote :: text := by
    cases members with
    | nil => exact absurd rfl hNonempty
    | cons member members =>
        cases members <;> simp [serializeMembers, serializeStr]
  obtain ⟨text, hText⟩ := hHead
  have hItems := parseObjectItems_serializeMembers members hNonempty hFits
    (2 * (serialize members).length + 1) defaultMaxDepths
    (by simp only [serialize, List.length_cons, List.length_append]; omega) [] []
  rw [parse, parseValue, serialize, skipWs_cons (by decide)]
  dsimp only
  rw [if_neg (by decide), if_neg (by decide), if_neg (by decide), if_neg (by decide),
    if_neg (by decide), if_pos rfl, if_neg (by decide)]
  rw [serialize] at hItems
  rw [hText] at hItems ⊢
  rw [expect_other (by decide) (by decide)]
  dsimp only
  rw [hItems]

end Picojson

import GisService.Video.Message

/-! `Base64decode_len` and `Base64decode` of `base64.c`. The text ends at the
first character outside of the alphabet, whatever that is. -/
namespace Video

open ByteString Memory

/-- `pr2six`. The second half of the table is 64 throughout. -/
def pr2six (ch : UInt8) : UInt8 :=
  [64, 64, 64, 64, 64, 64, 64, 64, 64, 64, 64, 64, 64, 64, 64, 64,
    64, 64, 64, 64, 64, 64, 64, 64, 64, 64, 64, 64, 64, 64, 64, 64,
    64, 64, 64, 64, 64, 64, 64, 64, 64, 64, 64, 62, 64, 64, 64, 63,
    52, 53, 54, 55, 56, 57, 58, 59, 60, 61, 64, 64, 64, 64, 64, 64,
    64, 0, 1, 2, 3, 4, 5, 6, 7, 8, 9, 10, 11, 12, 13, 14,
    15, 16, 17, 18, 19, 20, 21, 22, 23, 24, 25, 64, 64, 64, 64, 64,
    64, 26, 27, 28, 29, 30, 31, 32, 33, 34, 35, 36, 37, 38, 39, 40,
    41, 42, 43, 44, 45, 46, 47, 48, 49, 50, 51, 64, 64, 64, 64, 64].getD ch.toNat 64

/-- The loop `while (pr2six[*(bufin++)] <= 63)`, as the count of the characters
it passes. It has no end in an array without another character. -/
def scan : Bytes → Option Nat
  | [] => none
  | ch :: bufin => if pr2six ch ≤ 63 then (scan bufin).map (· + 1) else some 0

/-- The bytes for as many whole groups of four. -/
def groupBytes (nprbytes : Int) : Int := (narrow (nprbytes + 3)).tdiv 4 * 3

def base64DecodeLen (bufcoded : Bytes) : Option Int :=
  (scan bufcoded).map fun (count : Nat) => groupBytes (narrow count) + 1

/-- `pr2six[bufin[i]]` -/
def sixAt (bufin : Bytes) (i : Nat) : UInt8 := pr2six (bufin.getD i 0)

/-- The three bytes of a group. -/
def firstByte (bufin : Bytes) : UInt8 := sixAt bufin 0 <<< 2 ||| sixAt bufin 1 >>> 4
def secondByte (bufin : Bytes) : UInt8 := sixAt bufin 1 <<< 4 ||| sixAt bufin 2 >>> 2
def thirdByte (bufin : Bytes) : UInt8 := sixAt bufin 2 <<< 6 ||| sixAt bufin 3

/-- What the loop over groups and the three cases after it store, and what they
leave in `nprbytes`. -/
def decodeChars : Nat → Bytes → Bytes × Nat
  | nprbytes + 5, bufin =>
      let (bufout, left) := decodeChars (nprbytes + 1) (bufin.drop 4)
      (firstByte bufin :: secondByte bufin :: thirdByte bufin :: bufout, left)
  | nprbytes, bufin =>
      ((if nprbytes > 1 then [firstByte bufin] else []) ++
        (if nprbytes > 2 then [secondByte bufin] else []) ++
        (if nprbytes > 3 then [thirdByte bufin] else []), nprbytes)

/-- `Base64decode` behind its first loop. A negative count passes the other loop
and the cases by. -/
def decodeCounted (bufplain bufcoded : Bytes) (nprbytes : Int) : Int × Bytes :=
  let (bufout, left) := decodeChars nprbytes.toNat bufcoded
  (groupBytes nprbytes - (4 - min nprbytes left) % 4, store bufplain 0 (bufout ++ [0]))

def base64Decode (bufplain bufcoded : Bytes) : Option (Int × Bytes) :=
  (scan bufcoded).map fun (count : Nat) => decodeCounted bufplain bufcoded (narrow count)

/-- The table undoes the alphabet. -/
theorem pr2six_symbol (digit : Fin 64) : pr2six (Base64.symbol digit) = UInt8.ofNat digit := by
  revert digit
  decide +kernel

/-- The alphabet undoes the table, where the table has a digit. -/
theorem symbol_pr2six (ch : UInt8) :
    pr2six ch ≤ 63 → ch = Base64.symbol (Fin.ofNat 64 (pr2six ch).toNat) := by
  revert ch
  apply forall_byte
  decide +kernel

/-- The table knows the symbols of the encoder and nothing else. -/
theorem pr2six_le_iff (ch : UInt8) : pr2six ch ≤ 63 ↔ ∃ digit, ch = Base64.symbol digit := by
  constructor
  · intro h
    exact ⟨_, symbol_pr2six ch h⟩
  · rintro ⟨digit, rfl⟩
    rw [pr2six_symbol, UInt8.le_iff_toNat_le, UInt8.toNat_ofNat']
    exact (Nat.mod_le _ _).trans (Nat.le_of_lt_succ digit.isLt)

/-- Bits in front of others are put together by adding them. -/
theorem or_eq_ofNat {high low : UInt8} {m n k : Nat} (hHigh : high.toNat = m * 2 ^ k)
    (hLow : low.toNat = n) (hn : n < 2 ^ k) : high ||| low = UInt8.ofNat (m * 2 ^ k + n) := by
  have hOr : (high ||| low).toNat = m * 2 ^ k + n := by
    rw [UInt8.toNat_or, hHigh, hLow, Nat.mul_comm, Nat.two_pow_add_eq_or_of_lt hn]
  have hFits := (high ||| low).toNat_lt
  apply UInt8.toNat_inj.mp
  rw [UInt8.toNat_ofNat', ← hOr]
  omega

/-- The shifts put six bits in front of two. -/
theorem firstByte_eq (p q : Fin 64) :
    UInt8.ofNat p <<< 2 ||| UInt8.ofNat q >>> 4 = UInt8.ofNat (p * 4 + q / 16) := by
  have hp : (UInt8.ofNat p <<< 2).toNat = p * 2 ^ 2 := by
    simp only [UInt8.toNat_shiftLeft, UInt8.toNat_ofNat', UInt8.reduceToNat, Nat.shiftLeft_eq,
      Nat.reducePow, Nat.reduceMod]
    omega
  have hq : (UInt8.ofNat q >>> 4).toNat = q / 16 := by
    simp only [UInt8.toNat_shiftRight, UInt8.toNat_ofNat', UInt8.reduceToNat,
      Nat.shiftRight_eq_div_pow, Nat.reducePow, Nat.reduceMod]
    omega
  exact or_eq_ofNat hp hq (by omega)

theorem secondByte_eq (q r : Fin 64) :
    UInt8.ofNat q <<< 4 ||| UInt8.ofNat r >>> 2 = UInt8.ofNat (q % 16 * 16 + r / 4) := by
  have hq : (UInt8.ofNat q <<< 4).toNat = q % 16 * 2 ^ 4 := by
    simp only [UInt8.toNat_shiftLeft, UInt8.toNat_ofNat', UInt8.reduceToNat, Nat.shiftLeft_eq,
      Nat.reducePow, Nat.reduceMod]
    omega
  have hr : (UInt8.ofNat r >>> 2).toNat = r / 4 := by
    simp only [UInt8.toNat_shiftRight, UInt8.toNat_ofNat', UInt8.reduceToNat,
      Nat.shiftRight_eq_div_pow, Nat.reducePow, Nat.reduceMod]
    omega
  exact or_eq_ofNat hq hr (by omega)

theorem thirdByte_eq (r s : Fin 64) :
    UInt8.ofNat r <<< 6 ||| UInt8.ofNat s = UInt8.ofNat (r % 4 * 64 + s) := by
  have hr : (UInt8.ofNat r <<< 6).toNat = r % 4 * 2 ^ 6 := by
    simp only [UInt8.toNat_shiftLeft, UInt8.toNat_ofNat', UInt8.reduceToNat, Nat.shiftLeft_eq,
      Nat.reducePow, Nat.reduceMod]
    omega
  have hs : (UInt8.ofNat s).toNat = s := by
    rw [UInt8.toNat_ofNat', Nat.mod_eq_of_lt (by omega)]
  exact or_eq_ofNat hr hs (by omega)

/-- Every array that ends a text splits into symbols and what follows them. -/
theorem scan_eq_some_iff {bufcoded : Bytes} {count : Nat} :
    scan bufcoded = some count ↔ ∃ (digits : List (Fin 64)) (ch : UInt8) (rest : Bytes),
      bufcoded = digits.map Base64.symbol ++ ch :: rest ∧ digits.length = count ∧
        ∀ digit, ch ≠ Base64.symbol digit := by
  induction bufcoded generalizing count with
  | nil => simp [scan]
  | cons first bufin ih =>
      rw [scan]
      by_cases hDigit : pr2six first ≤ 63
      · obtain ⟨digit, rfl⟩ := (pr2six_le_iff first).mp hDigit
        rw [if_pos hDigit, Option.map_eq_some_iff]
        constructor
        · rintro ⟨n, hScan, rfl⟩
          obtain ⟨digits, ch, rest, rfl, rfl, hEnd⟩ := ih.mp hScan
          exact ⟨digit :: digits, ch, rest, rfl, rfl, hEnd⟩
        · rintro ⟨digits, ch, rest, hEq, rfl, hEnd⟩
          cases digits with
          | nil => exact absurd (List.cons.inj hEq).1.symm (hEnd digit)
          | cons other digits =>
              exact ⟨digits.length, ih.mpr ⟨digits, ch, rest, (List.cons.inj hEq).2, rfl, hEnd⟩, rfl⟩
      · rw [if_neg hDigit, Option.some.injEq]
        have hEnd : ∀ digit, first ≠ Base64.symbol digit :=
          fun digit hEq => hDigit ((pr2six_le_iff first).mpr ⟨digit, hEq⟩)
        constructor
        · rintro rfl
          exact ⟨[], first, bufin, rfl, rfl, hEnd⟩
        · rintro ⟨digits, ch, rest, hEq, rfl, -⟩
          cases digits with
          | nil => rfl
          | cons digit digits => exact absurd (List.cons.inj hEq).1 (hEnd digit)

/-- A group of digits, or what is left of one, holds the bytes of the digits. -/
theorem firstByte_symbols (p q : Fin 64) (rest : Bytes) :
    firstByte (Base64.symbol p :: Base64.symbol q :: rest) = UInt8.ofNat (p * 4 + q / 16) := by
  rw [firstByte, sixAt, sixAt, List.getD_cons_zero, List.getD_cons_succ, List.getD_cons_zero,
    pr2six_symbol, pr2six_symbol, firstByte_eq]

theorem secondByte_symbols (p q r : Fin 64) (rest : Bytes) :
    secondByte (Base64.symbol p :: Base64.symbol q :: Base64.symbol r :: rest) =
      UInt8.ofNat (q % 16 * 16 + r / 4) := by
  rw [secondByte, sixAt, sixAt, List.getD_cons_succ, List.getD_cons_zero, List.getD_cons_succ,
    List.getD_cons_succ, List.getD_cons_zero, pr2six_symbol, pr2six_symbol, secondByte_eq]

theorem thirdByte_symbols (p q r s : Fin 64) (rest : Bytes) :
    thirdByte (Base64.symbol p :: Base64.symbol q :: Base64.symbol r :: Base64.symbol s :: rest) =
      UInt8.ofNat (r % 4 * 64 + s) := by
  rw [thirdByte, sixAt, sixAt, List.getD_cons_succ, List.getD_cons_succ, List.getD_cons_zero,
    List.getD_cons_succ, List.getD_cons_succ, List.getD_cons_succ, List.getD_cons_zero,
    pr2six_symbol, pr2six_symbol, thirdByte_eq]

/-- The loop leaves one to four characters of a text that is not empty. -/
theorem decodeChars_eq (digits : List (Fin 64)) (rest : Bytes) :
    decodeChars digits.length (digits.map Base64.symbol ++ rest) =
      (Sextet.toBytes digits, digits.length - (digits.length - 1) / 4 * 4) := by
  fun_induction Sextet.toBytes digits with
  | case1 p q r s digits ih =>
      cases digits with
      | nil =>
          simp only [List.length_cons, List.length_nil, List.map_cons, List.map_nil,
            List.cons_append, List.nil_append, decodeChars, firstByte_symbols, secondByte_symbols,
            thirdByte_symbols]
          rfl
      | cons t digits =>
          simp only [List.length_cons, List.map_cons, List.cons_append, decodeChars,
            firstByte_symbols, secondByte_symbols, thirdByte_symbols, List.drop_succ_cons,
            List.drop_zero] at ih ⊢
          rw [ih]
          refine Prod.ext rfl ?_
          dsimp only
          omega
  | case2 p q r =>
      simp only [List.length_cons, List.length_nil, List.map_cons, List.map_nil,
        List.cons_append, List.nil_append, decodeChars, firstByte_symbols, secondByte_symbols]
      rfl
  | case3 p q =>
      simp only [List.length_cons, List.length_nil, List.map_cons, List.map_nil,
        List.cons_append, List.nil_append, decodeChars, firstByte_symbols]
      rfl
  | case4 p => simp [decodeChars]
  | case5 => simp [decodeChars]

/-- Within the range of an `int` the groups are rounded up. -/
theorem groupBytes_eq {n : Nat} (h : n + 3 < 2 ^ 31) : groupBytes n = ((n + 3) / 4 * 3 : Nat) := by
  have hNarrow : narrow ((n : Int) + 3) = (n + 3 : Nat) := narrow_eq h
  rw [groupBytes, hNarrow, Int.tdiv_eq_ediv_of_nonneg (Int.natCast_nonneg _)]
  omega

/-- What the last group lacks is taken back. -/
theorem groupBytes_sub (n : Nat) :
    (((n + 3) / 4 * 3 : Nat) : Int) - (4 - ((n - (n - 1) / 4 * 4 : Nat) : Int)) % 4 =
      ((3 * n / 4 : Nat) : Int) := by
  have hTail : n % 4 = 0 ∨ n % 4 = 1 ∨ n % 4 = 2 ∨ n % 4 = 3 := by omega
  rcases hTail with hTail | hTail | hTail | hTail <;> omega

/-- On a text of fewer than `2 ^ 31 - 3` symbols, in front of any other
character, the decoder stores the bytes of the digits and a terminator and
returns how many bytes there are. -/
theorem base64Decode_symbols {digits : List (Fin 64)} {ch : UInt8}
    (hEnd : ∀ digit, ch ≠ Base64.symbol digit) (hLength : digits.length + 3 < 2 ^ 31)
    (rest bufplain : Bytes) :
    base64Decode bufplain (digits.map Base64.symbol ++ ch :: rest) =
      some (((Sextet.toBytes digits).length : Int),
        store bufplain 0 (Sextet.toBytes digits ++ [0])) := by
  have hScan : scan (digits.map Base64.symbol ++ ch :: rest) = some digits.length :=
    scan_eq_some_iff.mpr ⟨digits, ch, rest, rfl, rfl, hEnd⟩
  have hNarrow : narrow digits.length = digits.length := narrow_eq (by omega)
  have hLeft : digits.length - (digits.length - 1) / 4 * 4 ≤ digits.length := by omega
  rw [base64Decode, hScan, Option.map_some, hNarrow, decodeCounted, Int.toNat_natCast,
    decodeChars_eq]
  dsimp only
  rw [groupBytes_eq hLength, Int.min_eq_right (Int.ofNat_le.mpr hLeft), groupBytes_sub,
    Sextet.toBytes_length]

/-- `Base64decode_len` is enough, with the terminator. -/
theorem base64DecodeLen_symbols {digits : List (Fin 64)} {ch : UInt8}
    (hEnd : ∀ digit, ch ≠ Base64.symbol digit) (hLength : digits.length + 3 < 2 ^ 31)
    (rest : Bytes) :
    ∃ room, base64DecodeLen (digits.map Base64.symbol ++ ch :: rest) = some room ∧
      ((Sextet.toBytes digits ++ [0]).length : Int) ≤ room ∧
      room ≤ (Sextet.toBytes digits).length + 4 := by
  have hScan : scan (digits.map Base64.symbol ++ ch :: rest) = some digits.length :=
    scan_eq_some_iff.mpr ⟨digits, ch, rest, rfl, rfl, hEnd⟩
  have hNarrow : narrow digits.length = digits.length := narrow_eq (by omega)
  refine ⟨_, by rw [base64DecodeLen, hScan, Option.map_some, hNarrow, groupBytes_eq hLength], ?_, ?_⟩
  · rw [List.length_append, List.length_singleton, Sextet.toBytes_length]
    omega
  · rw [Sextet.toBytes_length]
    omega

/-- Whatever the array, the decoder reads the digits in front of the first
other character, stores their bytes and a terminator, returns how many bytes
there are, and stays inside of what `Base64decode_len` asks for. The number of
digits must be an `int` when it is rounded up. -/
theorem base64Decode_eq (bufplain bufcoded : Bytes) {count : Nat} (hScan : scan bufcoded = some count)
    (hLength : count + 3 < 2 ^ 31) :
    ∃ (digits : List (Fin 64)) (ch : UInt8) (rest : Bytes),
      bufcoded = digits.map Base64.symbol ++ ch :: rest ∧ digits.length = count ∧
      (∀ digit, ch ≠ Base64.symbol digit) ∧
      base64Decode bufplain bufcoded = some (((Sextet.toBytes digits).length : Int),
        store bufplain 0 (Sextet.toBytes digits ++ [0])) ∧
      ∃ room, base64DecodeLen bufcoded = some room ∧
        ((Sextet.toBytes digits ++ [0]).length : Int) ≤ room ∧
        room ≤ (Sextet.toBytes digits).length + 4 := by
  obtain ⟨digits, ch, rest, rfl, rfl, hEnd⟩ := scan_eq_some_iff.mp hScan
  exact ⟨digits, ch, rest, rfl, rfl, hEnd, base64Decode_symbols hEnd hLength rest bufplain,
    base64DecodeLen_symbols hEnd hLength rest⟩

/-- A text of five digits that a blank ends. -/
theorem base64Decode_sample : ∃ (digits : List (Fin 64)) (ch : UInt8) (rest : Bytes),
    ascii "QUJDR Q==" = digits.map Base64.symbol ++ ch :: rest ∧ digits.length = 5 ∧
    (∀ digit, ch ≠ Base64.symbol digit) ∧
    base64Decode [] (ascii "QUJDR Q==") = some (((Sextet.toBytes digits).length : Int),
      store [] 0 (Sextet.toBytes digits ++ [0])) ∧
    ∃ room, base64DecodeLen (ascii "QUJDR Q==") = some room ∧
      ((Sextet.toBytes digits ++ [0]).length : Int) ≤ room ∧
      room ≤ (Sextet.toBytes digits).length + 4 :=
  base64Decode_eq [] (ascii "QUJDR Q==") (by decide +kernel) (by decide)

end Video

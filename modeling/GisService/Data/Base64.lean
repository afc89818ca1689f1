import GisService.Data.Sextet

/-! Base64 of RFC 4648: the digits of `Sextet` in the standard alphabet, filled
up with equals signs to whole groups of four. -/
namespace Base64

open ByteString

abbrev equalsSign : UInt8 := 61

/-- The character of a digit: `A` to `Z`, `a` to `z`, `0` to `9`, `+` and `/`. -/
def symbol (digit : Fin 64) : UInt8 :=
  if digit < 26 then UInt8.ofNat (65 + digit)
  else if digit < 52 then UInt8.ofNat (71 + digit)
  else if digit < 62 then UInt8.ofNat (digit - 4)
  else if digit = 62 then 43 else 47

/-- The digit of a character. -/
def digit? (ch : UInt8) : Option (Fin 64) := (List.finRange 64).find? fun digit => symbol digit == ch

/-- Padding that completes the last group. -/
def padding (bytes : Bytes) : Bytes := List.replicate ((3 - bytes.length % 3) % 3) equalsSign

def encode (bytes : Bytes) : Bytes := (Sextet.ofBytes bytes).map symbol ++ padding bytes

/-- Whole groups of four, with at most two equals signs and only at the end. -/
def decode (text : Bytes) : Option Bytes :=
  let symbols := text.takeWhile (· ≠ equalsSign)
  let fill := text.dropWhile (· ≠ equalsSign)
  if text.length % 4 = 0 ∧ fill.length ≤ 2 ∧ fill = List.replicate fill.length equalsSign then
    (symbols.mapM digit?).map Sextet.toBytes
  else none

theorem digit?_symbol (digit : Fin 64) : digit? (symbol digit) = some digit := by
  revert digit
  decide +kernel

/-- Symbols are printable, and none of them is the equals sign, a quote or a
backslash. -/
theorem symbol_bounds (digit : Fin 64) :
    43 ≤ symbol digit ∧ symbol digit ≠ equalsSign ∧ symbol digit ≠ 92 := by
  revert digit
  decide +kernel

theorem mapM_digit?_map_symbol (digits : List (Fin 64)) :
    (digits.map symbol).mapM digit? = some digits := by
  induction digits with
  | nil => rfl
  | cons digit digits ih => simp [digit?_symbol, ih]

/-- Four characters for three bytes, or what is left of them. -/
theorem length_encode (bytes : Bytes) : (encode bytes).length = (bytes.length + 2) / 3 * 4 := by
  rw [encode, padding, List.length_append, List.length_map, Sextet.ofBytes_length,
    List.length_replicate]
  omega

/-- Every character of an encoded text is a symbol or the equals sign. -/
theorem mem_encode {bytes : Bytes} {ch : UInt8} (h : ch ∈ encode bytes) : 43 ≤ ch ∧ ch ≠ 92 := by
  rcases List.mem_append.mp h with hSymbol | hFill
  · obtain ⟨digit, -, rfl⟩ := List.mem_map.mp hSymbol
    exact ⟨(symbol_bounds digit).1, (symbol_bounds digit).2.2⟩
  · obtain rfl := List.eq_of_mem_replicate hFill
    decide

/-- Every encoded text is accepted, and decoded to the same bytes. -/
theorem decode_encode (bytes : Bytes) : decode (encode bytes) = some bytes := by
  have hSymbol : ∀ ch ∈ (Sextet.ofBytes bytes).map symbol, decide (ch ≠ equalsSign) = true := by
    intro ch hMem
    obtain ⟨digit, -, rfl⟩ := List.mem_map.mp hMem
    simpa using (symbol_bounds digit).2.1
  have hFill : ∀ n, (List.replicate n equalsSign).takeWhile (· ≠ equalsSign) = [] := by
    intro n
    cases n <;> simp [List.replicate_succ]
  have hTake : (encode bytes).takeWhile (· ≠ equalsSign) = (Sextet.ofBytes bytes).map symbol := by
    rw [encode, List.takeWhile_append_of_pos hSymbol, padding, hFill, List.append_nil]
  have hDrop : (encode bytes).dropWhile (· ≠ equalsSign) = padding bytes := by
    have hWhole := List.takeWhile_append_dropWhile (p := (· ≠ equalsSign)) (l := encode bytes)
    rw [hTake] at hWhole
    exact List.append_cancel_left hWhole
  have hLength : (padding bytes).length ≤ 2 := by
    rw [padding, List.length_replicate]
    omega
  have hGroups : (encode bytes).length % 4 = 0 := by
    rw [length_encode]
    omega
  have hEquals : padding bytes = List.replicate (padding bytes).length equalsSign := by
    rw [padding, List.length_replicate]
  simp only [decode, hTake, hDrop]
  rw [if_pos ⟨hGroups, hLength, hEquals⟩, mapM_digit?_map_symbol]
  simp

end Base64

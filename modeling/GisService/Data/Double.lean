import GisService.Data.Decimal

/-! The `double` of IEEE 754 by the fields of its word: its text as the
conversion `%f` writes it, and the conversions from and to integers. -/

structure Double where
  negative : Bool
  exponent : Fin 2048
  fraction : Fin (2 ^ 52)
  deriving DecidableEq

namespace Double

open ByteString

/-- The quotient to the nearest integer, and to the even one if there are two. -/
def roundHalfEven (a b : Nat) : Nat :=
  if 2 * (a % b) < b ∨ 2 * (a % b) = b ∧ a / b % 2 = 0 then a / b else a / b + 1

/-- The fraction, with the leading bit of a normal number. -/
def significand (d : Double) : Nat :=
  if d.exponent.val = 0 then d.fraction else 2 ^ 52 + d.fraction

/-- The magnitude of a finite number is `significand * 2 ^ scale / 2 ^ 1075`. -/
def scale (d : Double) : Nat := max d.exponent 1

/-- The magnitude of a finite number to six decimal places. -/
def millionths (d : Double) : Nat := roundHalfEven (d.significand * 2 ^ d.scale * 10 ^ 6) (2 ^ 1075)

def sixDigits (n : Nat) : Bytes :=
  List.replicate (6 - (Decimal.print n).length) 48 ++ Decimal.print n

/-- The text that `%f` makes of the magnitude. -/
def printMagnitude (d : Double) : Bytes :=
  if d.exponent.val = 2047 then if d.fraction.val = 0 then ascii "inf" else ascii "nan"
  else Decimal.print (d.millionths / 10 ^ 6) ++ 46 :: sixDigits (d.millionths % 10 ^ 6)

/-- `std::to_string` -/
def print (d : Double) : Bytes := if d.negative then 45 :: d.printMagnitude else d.printMagnitude

example : print ⟨false, 1030, 0xD533333333333⟩ = ascii "234.600000" := by decide +kernel

/-- Rounding adds no more than one. -/
theorem roundHalfEven_le (a b : Nat) : roundHalfEven a b ≤ a / b + 1 := by
  unfold roundHalfEven
  split <;> omega

theorem significand_lt (d : Double) : d.significand < 2 ^ 53 := by
  have hFraction := d.fraction.isLt
  unfold significand
  split <;> omega

theorem scale_le {d : Double} (h : d.exponent.val ≠ 2047) : d.scale ≤ 971 + 1075 := by
  have hExponent := d.exponent.isLt
  unfold scale
  omega

theorem scaled_div_le {m k a b c : Nat} (hm : m ≤ 2 ^ a) (hk : k ≤ b + c) (unit : Nat) :
    m * 2 ^ k * unit / 2 ^ c ≤ 2 ^ (a + b) * unit := by
  have hScale : 2 ^ k ≤ 2 ^ b * 2 ^ c := by
    rw [← pow_add]
    exact Nat.pow_le_pow_right Nat.two_pos hk
  apply Nat.div_le_of_le_mul
  calc m * 2 ^ k * unit
      ≤ 2 ^ a * (2 ^ b * 2 ^ c) * unit := Nat.mul_le_mul_right _ (Nat.mul_le_mul hm hScale)
    _ = 2 ^ c * (2 ^ (a + b) * unit) := by
        rw [pow_add]
        ac_rfl

/-- The integer part of a finite number is at most `2 ^ 1024`. -/
theorem millionths_le {d : Double} (h : d.exponent.val ≠ 2047) :
    d.millionths / 10 ^ 6 ≤ 2 ^ (53 + 971) := by
  have hExact := scaled_div_le (Nat.le_of_lt d.significand_lt) (scale_le h) (10 ^ 6)
  have hRounded := (roundHalfEven_le _ _).trans (Nat.succ_le_succ hExact)
  rw [millionths]
  generalize 2 ^ (53 + 971) = bound at hRounded ⊢
  omega

theorem length_sixDigits {n : Nat} (h : n < 10 ^ 6) : (sixDigits n).length = 6 := by
  have hPrint := Decimal.length_print_le (by omega : 0 < 6) h
  rw [sixDigits, List.length_append, List.length_replicate]
  omega

/-- The largest number has 309 digits in front of the point. -/
theorem length_printMagnitude_le (d : Double) : d.printMagnitude.length ≤ 316 := by
  unfold printMagnitude
  split
  · split <;> decide
  · next h =>
    have hWhole : (Decimal.print (d.millionths / 10 ^ 6)).length ≤ 309 :=
      Decimal.length_print_le (by omega) ((millionths_le h).trans_lt (by decide +kernel))
    have hDecimals : (sixDigits (d.millionths % 10 ^ 6)).length = 6 :=
      length_sixDigits (Nat.mod_lt _ (by decide))
    rw [List.length_append, List.length_cons, hDecimals]
    omega

/-- A sign, at most 309 digits, the point and six more digits. -/
theorem length_print_le (d : Double) : d.print.length ≤ 317 := by
  have hMagnitude := length_printMagnitude_le d
  unfold print
  split
  · rw [List.length_cons]
    omega
  · omega

/-- A sign, a point, a digit or a small letter. -/
def IsNumberChar (ch : UInt8) : Prop := 45 ≤ ch ∧ ch ≤ 57 ∨ 97 ≤ ch ∧ ch ≤ 122

theorem isNumberChar_of_isDigit {ch : UInt8} (h : Decimal.isDigit ch = true) : IsNumberChar ch := by
  obtain ⟨hLow, hHigh⟩ := (Decimal.isDigit_iff ch).mp h
  left
  simp only [UInt8.le_iff_toNat_le]
  exact ⟨(by decide : 45 ≤ 48).trans hLow, hHigh⟩

theorem isNumberChar_of_mem_print {n : Nat} {ch : UInt8} (h : ch ∈ Decimal.print n) :
    IsNumberChar ch :=
  isNumberChar_of_isDigit (Decimal.isDigit_of_mem_print h)

theorem isNumberChar_of_mem_ascii {s : Bytes}
    (h : s.all (fun ch => decide (97 ≤ ch ∧ ch ≤ 122)) = true) : ∀ ch ∈ s, IsNumberChar ch := by
  intro ch hMem
  exact .inr (by simpa using List.all_eq_true.mp h ch hMem)

theorem mem_printMagnitude {d : Double} {ch : UInt8} (h : ch ∈ d.printMagnitude) :
    IsNumberChar ch := by
  unfold printMagnitude at h
  split at h
  · split at h
    · exact isNumberChar_of_mem_ascii (s := ascii "inf") rfl ch h
    · exact isNumberChar_of_mem_ascii (s := ascii "nan") rfl ch h
  · rcases List.mem_append.mp h with hWhole | hDecimals
    · exact isNumberChar_of_mem_print hWhole
    · rcases List.mem_cons.mp hDecimals with rfl | hDigits
      · exact .inl (by decide)
      · rcases List.mem_append.mp hDigits with hZero | hDigit
        · obtain rfl := List.eq_of_mem_replicate hZero
          exact .inl (by decide)
        · exact isNumberChar_of_mem_print hDigit

/-- A printed number needs no escapes in JSON. -/
theorem mem_print {d : Double} {ch : UInt8} (h : ch ∈ d.print) : IsNumberChar ch := by
  unfold print at h
  split at h
  · rcases List.mem_cons.mp h with rfl | hMagnitude
    · exact .inl (by decide)
    · exact mem_printMagnitude hMagnitude
  · exact mem_printMagnitude h

/-- The nearest number with 53 leading bits. -/
def ofNat (n : Nat) : Double :=
  let shift := n.log2 - 52
  let leading := roundHalfEven n (2 ^ shift)
  if leading = 0 then ⟨false, 0, 0⟩
  else
    { negative := false
      exponent := Fin.ofNat 2048 (1023 + shift + leading.log2)
      fraction := Fin.ofNat (2 ^ 52) (leading * 2 ^ 53 / 2 ^ (leading.log2 + 1)) }

/-- The conversion of a 64-bit integer. -/
def ofInt (n : Int) : Double := { ofNat n.natAbs with negative := n < 0 }

/-- The integer part of the magnitude of a finite number. -/
def magnitude (d : Double) : Nat := d.significand * 2 ^ d.scale / 2 ^ 1075

/-- The conversion to an integer, which drops the fraction. -/
def toInt (d : Double) : Int := if d.negative then -(d.magnitude : Int) else d.magnitude

example : (ofInt (-1623760245123456)).toInt = -1623760245123456 := by decide +kernel

theorem roundHalfEven_one (n : Nat) : roundHalfEven n 1 = n := by
  simp [roundHalfEven, Nat.mod_one]

/-- The leading bit of the significand is the leading bit of the number. -/
theorem ofNat_eq {n : Nat} (hZero : n ≠ 0) (h : n < 2 ^ 53) :
    (ofNat n).significand = n * 2 ^ (52 - n.log2) ∧ (ofNat n).scale = 1023 + n.log2 := by
  have hLog : n.log2 < 53 := (Nat.log2_lt hZero).mpr h
  have hShift : n.log2 - 52 = 0 := by omega
  have hPower : 2 ^ 53 = 2 ^ (52 - n.log2) * 2 ^ (n.log2 + 1) := by
    rw [← pow_add]
    congr 1
    omega
  have hQuotient : n * 2 ^ 53 / 2 ^ (n.log2 + 1) = n * 2 ^ (52 - n.log2) := by
    rw [hPower, ← Nat.mul_assoc]
    exact Nat.mul_div_cancel _ (Nat.two_pow_pos _)
  have hLow : 2 ^ 52 ≤ n * 2 ^ (52 - n.log2) := by
    calc 2 ^ 52 = 2 ^ n.log2 * 2 ^ (52 - n.log2) := by rw [← pow_add]; congr 1; omega
      _ ≤ n * 2 ^ (52 - n.log2) := Nat.mul_le_mul_right _ (Nat.log2_self_le hZero)
  have hHigh : n * 2 ^ (52 - n.log2) < 2 ^ 53 := by
    calc n * 2 ^ (52 - n.log2) < 2 ^ (n.log2 + 1) * 2 ^ (52 - n.log2) :=
          Nat.mul_lt_mul_of_pos_right Nat.lt_log2_self (Nat.two_pow_pos _)
      _ = 2 ^ 53 := by rw [hPower, Nat.mul_comm]
  have hExponent : (1023 + n.log2) % 2048 = 1023 + n.log2 := Nat.mod_eq_of_lt (by omega)
  simp only [ofNat, hShift, Nat.pow_zero, roundHalfEven_one, if_neg hZero, hQuotient, significand,
    scale, Fin.val_ofNat, Nat.add_zero, hExponent]
  refine ⟨?_, by omega⟩
  rw [if_neg (by omega)]
  omega

/-- A number of at most 53 bits keeps them all. -/
theorem magnitude_ofNat {n : Nat} (h : n < 2 ^ 53) : (ofNat n).magnitude = n := by
  by_cases hZero : n = 0
  · subst hZero
    decide +kernel
  · obtain ⟨hSignificand, hScale⟩ := ofNat_eq hZero h
    have hLog : n.log2 < 53 := (Nat.log2_lt hZero).mpr h
    have hPower : 2 ^ (52 - n.log2) * 2 ^ (1023 + n.log2) = 2 ^ 1075 := by
      rw [← pow_add]
      congr 1
      omega
    rw [magnitude, hSignificand, hScale, Nat.mul_assoc, ← hPower]
    exact Nat.mul_div_cancel _ (Nat.mul_pos (Nat.two_pow_pos _) (Nat.two_pow_pos _))

/-- Integers below `2 ^ 53` are kept. -/
theorem toInt_ofInt {n : Int} (hLow : -2 ^ 53 < n) (hHigh : n < 2 ^ 53) : (ofInt n).toInt = n := by
  have hMagnitude : (ofInt n).magnitude = n.natAbs := magnitude_ofNat (by omega)
  rw [toInt, hMagnitude]
  simp only [ofInt, decide_eq_true_eq]
  split <;> omega

end Double

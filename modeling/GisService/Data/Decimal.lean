import GisService.Data.ByteString
import Mathlib.Data.Nat.Digits.Lemmas

/-! Decimal texts of integers: printing without leading zeros, as `%d`-style
conversions do, and the value a reader assigns to a run of digits. -/
namespace Decimal

open ByteString

def isDigit (b : UInt8) : Bool := 48 ≤ b && b ≤ 57

/-- The digit character of a number below ten. -/
def digit (d : Nat) : UInt8 := UInt8.ofNat (48 + d)

def print (n : Nat) : Bytes :=
  if n = 0 then [48] else (Nat.digits 10 n).reverse.map digit

/-- Sign and magnitude of an integer, as `PRId64` writes it. -/
def printInt (i : Int) : Bytes :=
  if i < 0 then 45 :: print i.natAbs else print i.natAbs

/-- The number denoted by a run of digit characters. -/
def value (digits : Bytes) : Nat :=
  digits.foldl (fun n b => 10 * n + (b.toNat - 48)) 0

theorem digit_toNat {d : Nat} (h : d < 10) : (digit d).toNat = 48 + d := by
  rw [digit, UInt8.toNat_ofNat']
  omega

theorem isDigit_iff (b : UInt8) : isDigit b = true ↔ 48 ≤ b.toNat ∧ b.toNat ≤ 57 := by
  simp [isDigit, UInt8.le_iff_toNat_le]

theorem isDigit_digit {d : Nat} (h : d < 10) : isDigit (digit d) = true := by
  rw [isDigit_iff, digit_toNat h]
  omega

theorem digits_lt (n d : Nat) (h : d ∈ (Nat.digits 10 n).reverse) : d < 10 :=
  Nat.digits_lt_base (by omega) (List.mem_reverse.mp h)

theorem isDigit_of_mem_print {n : Nat} {b : UInt8} (h : b ∈ print n) : isDigit b = true := by
  unfold print at h
  split at h
  · obtain rfl := List.mem_singleton.mp h
    rfl
  · obtain ⟨d, hd, rfl⟩ := List.mem_map.mp h
    exact isDigit_digit (digits_lt n d hd)

theorem print_ne_nil (n : Nat) : print n ≠ [] := by
  unfold print
  split
  · simp
  · next h => simpa [Nat.digits_ne_nil_iff_ne_zero] using h

/-- The value of a digit run is its base-ten expansion. -/
theorem value_map_digit (ds : List Nat) (h : ∀ d ∈ ds, d < 10) :
    value (ds.map digit) = Nat.ofDigits 10 ds.reverse := by
  have hStep : value (ds.map digit) = ds.foldl (fun n d => 10 * n + d) 0 := by
    rw [value, List.foldl_map]
    apply List.foldl_ext
    intro n d hd
    rw [digit_toNat (h d hd)]
    omega
  rw [hStep, Nat.ofDigits_eq_foldr, List.foldr_reverse]
  apply List.foldl_ext
  intro n d _
  simp [Nat.add_comm]

/-- What is printed has its value. -/
@[simp] theorem value_print (n : Nat) : value (print n) = n := by
  unfold print
  split
  · next h => simp [h, value]
  · rw [value_map_digit _ (digits_lt n), List.reverse_reverse, Nat.ofDigits_digits]

/-- Digits behind others shift them. -/
theorem value_append (front back : Bytes) :
    value (front ++ back) = value front * 10 ^ back.length + value back := by
  induction back using List.reverseRecOn with
  | nil => simp [value]
  | append_singleton back b ih =>
      have hSnoc (s : Bytes) : value (s ++ [b]) = 10 * value s + (b.toNat - 48) := by
        simp [value]
      rw [← List.append_assoc, hSnoc, hSnoc, ih, List.length_append, List.length_singleton,
        pow_succ]
      ring

/-- A run of digits denotes a number with at most as many digits. -/
theorem value_lt {digits : Bytes} (h : ∀ b ∈ digits, isDigit b = true) :
    value digits < 10 ^ digits.length := by
  induction digits with
  | nil => simp [value]
  | cons b digits ih =>
      have hDigit := (isDigit_iff b).mp (h b List.mem_cons_self)
      have hRest := ih fun c hc => h c (List.mem_cons_of_mem _ hc)
      have hFirst : value [b] ≤ 9 := by
        simp only [value, List.foldl_cons, List.foldl_nil]
        omega
      have hValue : value (b :: digits) = value [b] * 10 ^ digits.length + value digits :=
        value_append [b] digits
      rw [hValue, List.length_cons, pow_succ]
      calc value [b] * 10 ^ digits.length + value digits
          < 9 * 10 ^ digits.length + 10 ^ digits.length :=
            Nat.add_lt_add_of_le_of_lt (Nat.mul_le_mul_right _ hFirst) hRest
        _ = 10 ^ digits.length * 10 := by ring

/-- Only zero is printed with a leading zero. -/
theorem print_head_ne_zero {n : Nat} (h : n ≠ 0) : (print n).head? ≠ some 48 := by
  rw [print, if_neg h]
  intro hHead
  rw [List.head?_map, List.head?_reverse, Option.map_eq_some_iff] at hHead
  obtain ⟨d, hLast, hd⟩ := hHead
  have hMem : d ∈ (Nat.digits 10 n).reverse :=
    List.mem_reverse.mpr (List.mem_of_getLast? hLast)
  have hZero : d = 0 := by
    have := congrArg UInt8.toNat hd
    rw [digit_toNat (digits_lt n d hMem)] at this
    simpa using this
  rw [List.getLast?_eq_some_getLast (Nat.digits_ne_nil_iff_ne_zero.mpr h), hZero] at hLast
  exact Nat.getLast_digit_ne_zero 10 h (Option.some.inj hLast)

/-- A number below `10 ^ k` has at most `k` digits. -/
theorem length_print_le {n k : Nat} (hk : 0 < k) (h : n < 10 ^ k) : (print n).length ≤ k := by
  unfold print
  split
  · exact hk
  · rw [List.length_map, List.length_reverse]
    exact (Nat.digits_length_le_iff (by omega) n).mpr h

theorem printInt_ne_nil (i : Int) : printInt i ≠ [] := by
  unfold printInt
  split
  · simp
  · exact print_ne_nil _

end Decimal

import GisService.Data.ByteString
import Mathlib.Data.Fin.Basic
import Mathlib.Tactic.Ring

/-! Regrouping of bytes into six-bit digits, the arithmetic shared by every
base64 dialect. An alphabet and a padding rule are left to the caller. -/
namespace Sextet

open ByteString

/-- Three bytes become four digits, most significant bits first. One or two
bytes at the end become two or three digits, filled up with zero bits. -/
def ofBytes : Bytes → List (Fin 64)
  | a :: b :: c :: rest =>
      ⟨a.toNat / 4, by have := a.toNat_lt; omega⟩ ::
      ⟨a.toNat % 4 * 16 + b.toNat / 16, by have := b.toNat_lt; omega⟩ ::
      ⟨b.toNat % 16 * 4 + c.toNat / 64, by have := c.toNat_lt; omega⟩ ::
      ⟨c.toNat % 64, by omega⟩ :: ofBytes rest
  | [a, b] =>
      [⟨a.toNat / 4, by have := a.toNat_lt; omega⟩,
       ⟨a.toNat % 4 * 16 + b.toNat / 16, by have := b.toNat_lt; omega⟩,
       ⟨b.toNat % 16 * 4, by omega⟩]
  | [a] =>
      [⟨a.toNat / 4, by have := a.toNat_lt; omega⟩, ⟨a.toNat % 4 * 16, by omega⟩]
  | [] => []

/-- Four digits become three bytes. Three or two digits at the end give two
or one byte, and a single left-over digit gives none. -/
def toBytes : List (Fin 64) → Bytes
  | p :: q :: r :: s :: rest =>
      UInt8.ofNat (p * 4 + q / 16) :: UInt8.ofNat (q % 16 * 16 + r / 4) ::
      UInt8.ofNat (r % 4 * 64 + s) :: toBytes rest
  | [p, q, r] => [UInt8.ofNat (p * 4 + q / 16), UInt8.ofNat (q % 16 * 16 + r / 4)]
  | [p, q] => [UInt8.ofNat (p * 4 + q / 16)]
  | [_] => []
  | [] => []

@[simp] theorem toBytes_ofBytes (bytes : Bytes) : toBytes (ofBytes bytes) = bytes := by
  have hByte (n : Nat) (b : UInt8) (h : n = b.toNat) : UInt8.ofNat n = b := by
    rw [h, UInt8.ofNat_toNat]
  fun_induction ofBytes bytes with
  | case1 a b c rest ih =>
      have ha := a.toNat_lt
      have hb := b.toNat_lt
      have hc := c.toNat_lt
      simp only [toBytes, ih]
      rw [hByte _ a (by omega), hByte _ b (by omega), hByte _ c (by omega)]
  | case2 a b =>
      have ha := a.toNat_lt
      have hb := b.toNat_lt
      simp only [toBytes]
      rw [hByte _ a (by omega), hByte _ b (by omega)]
  | case3 a =>
      have ha := a.toNat_lt
      simp only [toBytes]
      rw [hByte _ a (by omega)]
  | case4 => rfl

/-- A third more digits than bytes, rounded up. -/
theorem ofBytes_length (bytes : Bytes) :
    (ofBytes bytes).length = (4 * bytes.length + 2) / 3 := by
  fun_induction ofBytes bytes with
  | case1 a b c rest ih =>
      simp only [List.length_cons, ih]
      omega
  | case2 a b => simp
  | case3 a => simp
  | case4 => simp

theorem toBytes_length (digits : List (Fin 64)) :
    (toBytes digits).length = 3 * digits.length / 4 := by
  fun_induction toBytes digits with
  | case1 p q r s rest ih =>
      simp only [List.length_cons, ih]
      omega
  | case2 p q r => simp
  | case3 p q => simp
  | case4 p => simp
  | case5 => simp

/-- Regrouping never leaves a single digit over. -/
theorem ofBytes_length_mod (bytes : Bytes) : (ofBytes bytes).length % 4 ≠ 1 := by
  rw [ofBytes_length]
  omega

/-- No shorter well-formed digit string carries as many bytes. -/
theorem length_of_toBytes_length {digits : List (Fin 64)} {bytes : Bytes}
    (hMod : digits.length % 4 ≠ 1) (h : (toBytes digits).length = bytes.length) :
    digits.length = (ofBytes bytes).length := by
  rw [toBytes_length] at h
  rw [ofBytes_length]
  have hTail : digits.length % 4 = 0 ∨ digits.length % 4 = 2 ∨ digits.length % 4 = 3 := by omega
  rcases hTail with hTail | hTail | hTail <;> omega

/-- Whole groups regroup independently of what follows them. -/
theorem toBytes_append (front back : List (Fin 64)) (h : front.length % 4 = 0) :
    toBytes (front ++ back) = toBytes front ++ toBytes back := by
  fun_induction toBytes front with
  | case1 p q r s rest ih =>
      have hRest : rest.length % 4 = 0 := by
        simp only [List.length_cons] at h
        omega
      simp [toBytes, ih hRest]
  | case2 p q r => simp at h
  | case3 p q => simp at h
  | case4 p => simp at h
  | case5 => simp

end Sextet

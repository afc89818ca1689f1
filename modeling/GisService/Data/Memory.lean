import GisService.Data.ByteString
import Mathlib.Algebra.Group.Int.Defs
import Mathlib.Algebra.Group.Nat.Defs

/-! Arrays of a C program that are reused without being cleared, and the
32-bit `int`. An array is the list of its bytes. It is taken to be long enough:
a store behind its end makes the list longer. -/
namespace Memory

open ByteString

/-- `memcpy(array + offset, bytes, bytes.length)` -/
def store (array : Bytes) (offset : Nat) (bytes : Bytes) : Bytes :=
  array.take offset ++ bytes ++ array.drop (offset + bytes.length)

/-- The conversion of a wider integer to `int`. -/
@[irreducible] def narrow (n : Int) : Int := Int.bmod n (2 ^ 32)

/-- The bytes of an `int` in memory, least significant byte first. -/
def intBytes (n : Int) : Bytes :=
  let word := (n % 2 ^ 32).toNat
  [UInt8.ofNat word, UInt8.ofNat (word / 256), UInt8.ofNat (word / 65536),
    UInt8.ofNat (word / 16777216)]

/-- The four bytes at the front as an unsigned number. -/
def word? : Bytes → Option Nat
  | a :: b :: c :: d :: _ =>
      some (a.toNat + b.toNat * 256 + c.toNat * 65536 + d.toNat * 16777216)
  | _ => none

/-- Within the range of an `int` nothing is cut off. -/
theorem narrow_eq {n : Nat} (h : n < 2 ^ 31) : narrow n = n := by
  have hLow : -((2 ^ 32 : Nat) : Int) ≤ (n : Int) * 2 := by omega
  have hHigh : (n : Int) * 2 < (2 ^ 32 : Nat) := by omega
  rw [narrow]
  exact Int.bmod_eq_of_le_mul_two hLow hHigh

/-- Only the bits above the 31st are lost. -/
theorem narrow_le (n : Nat) : narrow n ≤ n := by
  rw [narrow, Int.bmod_def]
  split <;> omega

@[simp] theorem length_intBytes (n : Int) : (intBytes n).length = 4 := rfl

/-- An `int` survives being stored, modulo `2 ^ 32`. -/
theorem word?_intBytes (n : Int) (rest : Bytes) :
    word? (intBytes n ++ rest) = some (n % 2 ^ 32).toNat := by
  have hWord : (n % 2 ^ 32).toNat < 2 ^ 32 := by omega
  simp only [intBytes, List.cons_append, List.nil_append, word?, Option.some.injEq,
    UInt8.toNat_ofNat']
  omega

theorem store_front (array bytes : Bytes) :
    store array 0 bytes = bytes ++ array.drop bytes.length := by
  simp [store]

/-- A store right behind what an array begins with. -/
theorem store_behind (front array bytes : Bytes) :
    store (front ++ array) front.length bytes = front ++ (bytes ++ array.drop bytes.length) := by
  rw [store, List.take_left, List.append_assoc, List.drop_append]
  simp

end Memory

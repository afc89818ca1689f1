import GisService.Data.Base64
import GisService.Data.Memory

/-! `Base64encode` of `base64.c`, with its shifts and masks on signed
characters. What it stores is the standard encoding and a terminator. -/
namespace Video

open ByteString Memory

/-- A `char` of the input, signed and promoted to `int`. -/
def char (b : UInt8) : Int32 := b.toInt8.toInt32

/-- `basis_64[index]` -/
def basis64 (index : Int32) : UInt8 :=
  (ascii "ABCDEFGHIJKLMNOPQRSTUVWXYZabcdefghijklmnopqrstuvwxyz0123456789+/").getD
    index.toNatClampNeg 0

/-- What the loop and the two cases after it store, up to the terminator. -/
def encodeChars : Bytes → Bytes
  | a :: b :: c :: string =>
      basis64 ((char a >>> 2) &&& 0x3F) ::
      basis64 (((char a &&& 0x3) <<< 4) ||| ((char b &&& 0xF0) >>> 4)) ::
      basis64 (((char b &&& 0xF) <<< 2) ||| ((char c &&& 0xC0) >>> 6)) ::
      basis64 (char c &&& 0x3F) :: encodeChars string
  | [a, b] =>
      [basis64 ((char a >>> 2) &&& 0x3F),
        basis64 (((char a &&& 0x3) <<< 4) ||| ((char b &&& 0xF0) >>> 4)),
        basis64 ((char b &&& 0xF) <<< 2), 61]
  | [a] => [basis64 ((char a >>> 2) &&& 0x3F), basis64 ((char a &&& 0x3) <<< 4), 61, 61]
  | [] => []

/-- The return value `p - encoded` counts the terminator. -/
def base64Encode (encoded string : Bytes) (len : Int) : Int × Bytes :=
  let text := encodeChars (string.take len.toNat) ++ [0]
  (narrow text.length, store encoded 0 text)

section Digits

/-- The table is the alphabet. -/
theorem basis64_ofNat (digit : Fin 64) : basis64 (Int32.ofNat digit) = Base64.symbol digit := by
  revert digit
  decide +kernel

/-- What the masks and shifts pick from a byte. The sign bits that the promotion and
the shift bring in are masked out. -/
theorem char_bits (b : UInt8) :
    (char b >>> 2) &&& 0x3F = Int32.ofNat (b.toNat / 4) ∧
    (char b &&& 0x3) <<< 4 = Int32.ofNat (b.toNat % 4 * 16) ∧
    (char b &&& 0xF0) >>> 4 = Int32.ofNat (b.toNat / 16) ∧
    (char b &&& 0xF) <<< 2 = Int32.ofNat (b.toNat % 16 * 4) ∧
    (char b &&& 0xC0) >>> 6 = Int32.ofNat (b.toNat / 64) ∧
    char b &&& 0x3F = Int32.ofNat (b.toNat % 64) := by
  revert b
  apply forall_byte
  decide +kernel

theorem char_shift_two (a : UInt8) : (char a >>> 2) &&& 0x3F = Int32.ofNat (a.toNat / 4) :=
  (char_bits a).1

/-- The last two bits of the first byte, at the front of a digit. -/
theorem char_low_two (a : UInt8) : (char a &&& 0x3) <<< 4 = Int32.ofNat (a.toNat % 4 * 16) :=
  (char_bits a).2.1

theorem char_high_four (b : UInt8) : (char b &&& 0xF0) >>> 4 = Int32.ofNat (b.toNat / 16) :=
  (char_bits b).2.2.1

theorem char_low_four (b : UInt8) : (char b &&& 0xF) <<< 2 = Int32.ofNat (b.toNat % 16 * 4) :=
  (char_bits b).2.2.2.1

theorem char_high_two (c : UInt8) : (char c &&& 0xC0) >>> 6 = Int32.ofNat (c.toNat / 64) :=
  (char_bits c).2.2.2.2.1

theorem char_low_six (c : UInt8) : char c &&& 0x3F = Int32.ofNat (c.toNat % 64) :=
  (char_bits c).2.2.2.2.2

/-- Two bits of one byte and four of the next. -/
theorem or_two_four (high : Fin 4) (low : Fin 16) :
    Int32.ofNat (high * 16) ||| Int32.ofNat low = Int32.ofNat (high * 16 + low) := by
  revert high low
  decide +kernel

/-- Four bits of one byte and two of the next. -/
theorem or_four_two (high : Fin 16) (low : Fin 4) :
    Int32.ofNat (high * 4) ||| Int32.ofNat low = Int32.ofNat (high * 4 + low) := by
  revert high low
  decide +kernel

/-- An index computed by shifts and masks selects the symbol of a digit. -/
theorem basis64_eq {index : Int32} {n : Nat} (h : index = Int32.ofNat n) (hn : n < 64) :
    basis64 index = Base64.symbol ⟨n, hn⟩ := by
  rw [h]
  exact basis64_ofNat ⟨n, hn⟩

/-- The second digit, from the end of the first byte and the front of the second. -/
theorem index_two_four (a b : UInt8) : ((char a &&& 0x3) <<< 4) ||| ((char b &&& 0xF0) >>> 4) =
    Int32.ofNat (a.toNat % 4 * 16 + b.toNat / 16) := by
  have hb := b.toNat_lt
  rw [char_low_two, char_high_four]
  exact or_two_four ⟨a.toNat % 4, by omega⟩ ⟨b.toNat / 16, by omega⟩

/-- The third digit, from the end of the second byte and the front of the third. -/
theorem index_four_two (b c : UInt8) : ((char b &&& 0xF) <<< 2) ||| ((char c &&& 0xC0) >>> 6) =
    Int32.ofNat (b.toNat % 16 * 4 + c.toNat / 64) := by
  have hc := c.toNat_lt
  rw [char_low_four, char_high_two]
  exact or_four_two ⟨b.toNat % 16, by omega⟩ ⟨c.toNat / 64, by omega⟩

end Digits

/-- The characters stored are those of the standard encoding. -/
theorem encodeChars_eq (string : Bytes) : encodeChars string = Base64.encode string := by
  fun_induction encodeChars string with
  | case1 a b c string ih =>
      have hFill : Base64.padding (a :: b :: c :: string) = Base64.padding string := by
        simp [Base64.padding, Nat.add_assoc]
      rw [ih, Base64.encode, Base64.encode, hFill]
      simp only [Sextet.ofBytes, List.map_cons, List.cons_append]
      rw [basis64_eq (char_shift_two a), basis64_eq (index_two_four a b),
        basis64_eq (index_four_two b c), basis64_eq (char_low_six c)]
  | case2 a b =>
      rw [basis64_eq (char_shift_two a), basis64_eq (index_two_four a b),
        basis64_eq (char_low_four b)]
      rfl
  | case3 a =>
      rw [basis64_eq (char_shift_two a), basis64_eq (char_low_two a)]
      rfl
  | case4 => rfl

end Video

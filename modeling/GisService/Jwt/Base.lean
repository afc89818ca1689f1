import GisService.Data.Cxx
import GisService.Data.Sextet
import Mathlib.Data.Nat.Bitwise

/-! The base64 family of `jwt-cpp/base.h`. `encode` pads with the alphabet's
fill text, `trim` cuts the text at the first fill, and `pad` restores what
`decode` expects. -/
namespace Jwt

open ByteString Cxx

structure Alphabet where
  data : Bytes
  data_size : data.length = 64
  fill : Bytes

/-- `alphabet::base64url`. Its fill is the URL-escaped equals sign. -/
def base64url : Alphabet where
  data := ascii "ABCDEFGHIJKLMNOPQRSTUVWXYZabcdefghijklmnopqrstuvwxyz0123456789-_"
  data_size := by decide
  fill := ascii "%3d"

/-- `alphabet[digit]` -/
def Alphabet.symbol (A : Alphabet) (digit : Fin 64) : UInt8 :=
  A.data.get (digit.cast A.data_size.symm)

/-- `(triple >> shift) & 0x3F`, an index that is always inside the alphabet. -/
def sextet (triple shift : Nat) : Fin 64 :=
  ⟨(triple >>> shift) &&& 0x3F, Nat.lt_succ_of_le Nat.and_le_right⟩

/-- `(octet_a << 0x10) + (octet_b << 0x08) + octet_c` -/
def octets (a b c : UInt8) : Nat := (a.toNat <<< 0x10) + (b.toNat <<< 0x08) + c.toNat

def encode (A : Alphabet) : Bytes → Bytes
  | a :: b :: c :: bin =>
      let triple := octets a b c
      A.symbol (sextet triple (3 * 6)) :: A.symbol (sextet triple (2 * 6)) ::
      A.symbol (sextet triple (1 * 6)) :: A.symbol (sextet triple (0 * 6)) :: encode A bin
  | [a, b] =>
      let triple := octets a b 0
      [A.symbol (sextet triple (3 * 6)), A.symbol (sextet triple (2 * 6)),
       A.symbol (sextet triple (1 * 6))] ++ A.fill
  | [a] =>
      let triple := octets a 0 0
      [A.symbol (sextet triple (3 * 6)), A.symbol (sextet triple (2 * 6))] ++ A.fill ++ A.fill
  | [] => []

/-- The lambda `get_sextet`: position of a symbol in the alphabet. -/
def getSextet (A : Alphabet) (symbol : UInt8) : Except Exception (Fin 64) :=
  match A.data.finIdxOf? symbol with
  | some i => .ok (i.cast A.data_size)
  | none => .error .runtimeError

/-- Count and remove the fills at the end. `room` is how many more are
tolerated: a third one is an error. A text that is nothing but one fill is
left alone, because the loop asks for a longer text. -/
def stripFill (fill : Bytes) (room : Nat) (base : Bytes) : Except Exception (Bytes × Nat) :=
  if fill.length < base.length ∧ base.drop (base.length - fill.length) = fill then
    match room with
    | 0 => .error .runtimeError
    | room + 1 => do
        let (text, fillCnt) ← stripFill fill room (base.take (base.length - fill.length))
        return (text, fillCnt + 1)
  else .ok (base, 0)

/-- `static_cast<char>((triple >> shift) & 0xFFU)` -/
def octet (triple shift : Nat) : UInt8 := UInt8.ofNat ((triple >>> shift) &&& 0xFF)

/-- The loop over complete groups of four symbols. -/
def decodeFast (A : Alphabet) : Bytes → Except Exception Bytes
  | a :: b :: c :: d :: base => do
      let sextetA ← getSextet A a
      let sextetB ← getSextet A b
      let sextetC ← getSextet A c
      let sextetD ← getSextet A d
      let triple := (sextetA.val <<< (3 * 6)) + (sextetB.val <<< (2 * 6)) +
        (sextetC.val <<< (1 * 6)) + (sextetD.val <<< (0 * 6))
      let res ← decodeFast A base
      return octet triple (2 * 8) :: octet triple (1 * 8) :: octet triple (0 * 8) :: res
  | _ => .ok []

/-- The switch over `fill_cnt` after the complete groups. The length check in
front of it leaves exactly `4 - fill_cnt` symbols for a padded text. -/
def decodeTail (A : Alphabet) (fillCnt : Nat) (tail : Bytes) : Except Exception Bytes :=
  match fillCnt, tail with
  | 1, [a, b, c] => do
      let sextetA ← getSextet A a
      let sextetB ← getSextet A b
      let sextetC ← getSextet A c
      let triple := ((sextetA.val <<< (3 * 6)) + (sextetB.val <<< (2 * 6))) |||
        (sextetC.val <<< (1 * 6))
      return [octet triple (2 * 8), octet triple (1 * 8)]
  | 2, [a, b] => do
      let sextetA ← getSextet A a
      let sextetB ← getSextet A b
      let triple := (sextetA.val <<< (3 * 6)) + (sextetB.val <<< (2 * 6))
      return [octet triple (2 * 8)]
  | _, _ => .ok []

/-- What `decode` does once the fills are counted and out of the way. -/
def decodeStripped (A : Alphabet) (text : Bytes) (fillCnt : Nat) : Except Exception Bytes :=
  if (text.length + fillCnt) % 4 ≠ 0 then
    .error .runtimeError
  else do
    let fastSize := text.length - text.length % 4
    let res ← decodeFast A (text.take fastSize)
    let rest ← decodeTail A fillCnt (text.drop fastSize)
    return res ++ rest

def decode (A : Alphabet) (base : Bytes) : Except Exception Bytes := do
  let (text, fillCnt) ← stripFill A.fill 2 base
  decodeStripped A text fillCnt

def pad (A : Alphabet) (base : Bytes) : Bytes :=
  match base.length % 4 with
  | 1 => base ++ (A.fill ++ A.fill ++ A.fill)
  | 2 => base ++ (A.fill ++ A.fill)
  | 3 => base ++ A.fill
  | _ => base

def trim (A : Alphabet) (base : Bytes) : Bytes :=
  match find A.fill base with
  | some pos => base.take pos
  | none => base

end Jwt

import GisService.Data.Decimal
import GisService.Data.PercentCode
import GisService.Data.Path

/-! The texts inside of a URL: which characters they may have, how they are
normalised, and how they are encoded. -/
namespace Url

open ByteString

/-- `parse_error` and `build_error` with their reasons, and the exception of
`query` with its text. -/
inductive Error where
  | parse (reason : Bytes)
  | build (reason : Bytes)
  | outOfRange (what : Bytes)
  deriving DecidableEq

/-- The first half of `tbl`. The other half is zero. -/
def tbl : List UInt8 := [
  0, 0, 0, 0, 0, 0, 0, 0, 0, 0, 0, 0, 0, 0, 0, 0, 0, 0, 0, 0, 0, 0, 0, 0, 0, 0, 0, 0, 0, 0, 0, 0,
  0x00, 0x01, 0x00, 0x00, 0x01, 0x20, 0x01, 0x01, 0x01, 0x01, 0x01, 0x01, 0x01, 0x01, 0x01, 0x08,
  0x01, 0x01, 0x01, 0x01, 0x01, 0x01, 0x01, 0x01, 0x01, 0x01, 0x04, 0x01, 0x00, 0x01, 0x00, 0x10,
  0x02, 0x01, 0x01, 0x01, 0x01, 0x01, 0x01, 0x01, 0x01, 0x01, 0x01, 0x01, 0x01, 0x01, 0x01, 0x01,
  0x01, 0x01, 0x01, 0x01, 0x01, 0x01, 0x01, 0x01, 0x01, 0x01, 0x01, 0x00, 0x00, 0x00, 0x00, 0x01,
  0x00, 0x01, 0x01, 0x01, 0x01, 0x01, 0x01, 0x01, 0x01, 0x01, 0x01, 0x01, 0x01, 0x01, 0x01, 0x01,
  0x01, 0x01, 0x01, 0x01, 0x01, 0x01, 0x01, 0x01, 0x01, 0x01, 0x01, 0x00, 0x00, 0x00, 0x01, 0x00]

def isChar (mask c : UInt8) : Bool := (tbl.getD c.toNat 0) &&& mask != 0

def isChars (mask : UInt8) (text : Bytes) : Bool := text.all (isChar mask)

def isAlpha (c : UInt8) : Bool := (65 ≤ c && c ≤ 90) || (97 ≤ c && c ≤ 122)

def isNum (c : UInt8) : Bool := 48 ≤ c && c ≤ 57

def isAlnum (c : UInt8) : Bool := isAlpha c || isNum c

def isHexdigit (c : UInt8) : Bool := isNum c || (65 ≤ c && c ≤ 70) || (97 ≤ c && c ≤ 102)

def toLower (text : Bytes) : Bytes := text.map fun c => if 65 ≤ c ∧ c ≤ 90 then c ||| 0x20 else c

/-- The text in front of the first of the characters, and the rest. -/
def findFirstOf (stops text : Bytes) : Bytes × Bytes := text.span (· ∉ stops)

def isScheme : Bytes → Bool
  | [] => false
  | c :: rest => isAlpha c && rest.all fun c => isAlnum c || c == 43 || c == 45 || c == 46

/-- The digits that `is_uint` takes. Nothing follows a leading zero. -/
def uintDigits : Bytes → Bytes
  | [] => []
  | c :: rest => if c = 48 then [c] else c :: rest.takeWhile isNum

/-- `is_uint` at the end of a text. The value wraps at 32 bits. -/
def isPort (text : Bytes) : Bool :=
  match text with
  | [] => false
  | c :: _ =>
      isNum c &&
        (uintDigits text).foldl (fun val d => (val * 10 + (d.toNat - 48)) % 2 ^ 32) 0 ≤ 65535 &&
        uintDigits text == text

def isIPv4 (text : Bytes) : Bool :=
  7 ≤ text.length && text.length ≤ 254 && text.all fun c => c == 46 || isNum c

def isIPv6 (text : Bytes) : Bool :=
  2 ≤ text.length && text.length ≤ 254 && text.all fun c => c == 58 || c == 46 || isHexdigit c

def isRegName (text : Bytes) : Bool := isChars 0x01 text

/-- What the loop does with an element that a separator ends. -/
def pushElem (elems : List Bytes) (elem : Bytes) : List Bytes :=
  if elem = [] ∨ elem = Path.dot then elems
  else if elem = Path.dotdot then elems.dropLast
  else elems ++ [elem]

/-- What is done with the last element. -/
def lastElem (elems : List Bytes) (elem : Bytes) : List Bytes :=
  if elem = Path.dot then elems ++ [[]]
  else if elem = Path.dotdot then elems.dropLast
  else elems ++ [elem]

def elements (s : Bytes) : List Bytes :=
  lastElem ((Path.segments s).dropLast.foldl pushElem []) ((Path.segments s).getLast?.getD [])

def normalizePath (s : Bytes) : Bytes :=
  if s = [] then s
  else (if s.head? = some 47 then [47] else []) ++ [47].intercalate (elements s)

def decodeWith (read : UInt8 → UInt8) (text : Bytes) : Except Error Bytes :=
  match PercentCode.decode read text with
  | some o => .ok o
  | none => .error (.parse (ascii "Invalid percent encoding"))

def decode (text : Bytes) : Except Error Bytes := decodeWith id text

def readPlus (c : UInt8) : UInt8 := if c = 43 then 32 else c

def decodePlus (text : Bytes) : Except Error Bytes := decodeWith readPlus text

def writeChar (mask c : UInt8) : Option UInt8 := if isChar mask c then some c else none

def encode (s : Bytes) (mask : UInt8) : Bytes := PercentCode.encode (writeChar mask) s

/-- A blank becomes a plus, and the separators are always escaped. -/
def writeQuery (escaped : Bytes) (mask c : UInt8) : Option UInt8 :=
  if c = 32 then some 43 else if c ∈ escaped then none else writeChar mask c

def encodeQueryKey (s : Bytes) (mask : UInt8) : Bytes :=
  PercentCode.encode (writeQuery (ascii "+=&;") mask) s

def encodeQueryVal (s : Bytes) (mask : UInt8) : Bytes :=
  PercentCode.encode (writeQuery (ascii "+&;") mask) s

/-- A character that is written as it is belongs to the class. -/
theorem writeChar_eq_some {mask c b : UInt8} (h : writeChar mask c = some b) :
    c = b ∧ isChar mask b = true := by
  unfold writeChar at h
  split at h
  · next hc =>
      obtain rfl := Option.some.inj h
      exact ⟨rfl, hc⟩
  · cases h

example : normalizePath (ascii "/a/./b/../../..//c/.") = ascii "/c/" := by decide +kernel

end Url

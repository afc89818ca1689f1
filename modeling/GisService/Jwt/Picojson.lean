import GisService.Data.Cxx
import GisService.Data.Decimal

/-! The picojson reader and writer, as jwt-cpp uses them. The reader follows
`_parse` with its default context; a position in the input is the remaining
bytes. The writer covers the values a token builder stores. -/
namespace Picojson

open ByteString Cxx

/-- `picojson::value`. A double keeps the literal it was read from. -/
inductive Value where
  | null
  | boolean (b : Bool)
  | number (literal : Bytes)
  | int64 (i : Int)
  | string (s : Bytes)
  | array (items : List Value)
  | object (members : List (Bytes × Value))

abbrev quote : UInt8 := 34
abbrev backslash : UInt8 := 92

/-- `std::map::operator[]` followed by an assignment. Keys stay sorted. -/
def setMember {α : Type} (key : Bytes) (v : α) : List (Bytes × α) → List (Bytes × α)
  | [] => [(key, v)]
  | (k, w) :: rest =>
      if key = k then (key, v) :: rest
      else if key < k then (key, v) :: (k, w) :: rest
      else (k, w) :: setMember key v rest

/-- A claim set by the token builder: a string or a whole number of seconds. -/
inductive Claim where
  | string (s : Bytes)
  | int64 (i : Int)
  deriving DecidableEq

def Claim.toValue : Claim → Value
  | .string s => .string s
  | .int64 i => .int64 i

/-- One digit of `%04x`. -/
def hexDigit (n : Nat) : UInt8 :=
  if n < 10 then UInt8.ofNat (48 + n) else UInt8.ofNat (87 + n)

/-- `serialize_str_char::operator()` -/
def serializeStrChar (c : UInt8) : Bytes :=
  if c = quote then [backslash, quote]
  else if c = backslash then [backslash, backslash]
  else if c = 47 then [backslash, 47]
  else if c = 8 then [backslash, 98]
  else if c = 12 then [backslash, 102]
  else if c = 10 then [backslash, 110]
  else if c = 13 then [backslash, 114]
  else if c = 9 then [backslash, 116]
  else if c < 32 ∨ c = 127 then
    [backslash, 117, 48, 48, hexDigit (c.toNat / 16), hexDigit (c.toNat % 16)]
  else [c]

def serializeStr (s : Bytes) : Bytes := quote :: (s.flatMap serializeStrChar ++ [quote])

def Claim.serialize : Claim → Bytes
  | .string s => serializeStr s
  | .int64 i => Decimal.printInt i

/-- The members of an object, separated by commas. -/
def serializeMembers : List (Bytes × Claim) → Bytes
  | [] => []
  | [(key, v)] => serializeStr key ++ 58 :: v.serialize
  | (key, v) :: rest => serializeStr key ++ 58 :: (v.serialize ++ 44 :: serializeMembers rest)

/-- `value::_serialize` of an object, without indentation. -/
def serialize (members : List (Bytes × Claim)) : Bytes :=
  123 :: (serializeMembers members ++ [125])

/-- How a parsing function ends: with a value and the remaining input, with
`false`, or with an exception. -/
inductive Parsed (α : Type) where
  | done (result : α) (rest : Bytes)
  | failed
  | thrown (e : Exception)

def Parsed.bind {α β : Type} (p : Parsed α) (f : α → Bytes → Parsed β) : Parsed β :=
  match p with
  | .done result rest => f result rest
  | .failed => .failed
  | .thrown e => .thrown e

def isSpace (ch : UInt8) : Bool := ch == 32 || ch == 9 || ch == 10 || ch == 13

def skipWs (input : Bytes) : Bytes := input.dropWhile isSpace

/-- `input::expect`: the rest behind the expected character, if it is next. -/
def expect (expected : UInt8) (input : Bytes) : Option Bytes :=
  match skipWs input with
  | ch :: rest => if ch = expected then some rest else none
  | [] => none

/-- `input::match` -/
def matchText (pattern input : Bytes) : Option Bytes :=
  if pattern <+: input then some (input.drop pattern.length) else none

def hexValue (hex : UInt8) : Option Nat :=
  if 48 ≤ hex ∧ hex ≤ 57 then some (hex.toNat - 48)
  else if 65 ≤ hex ∧ hex ≤ 70 then some (hex.toNat - 55)
  else if 97 ≤ hex ∧ hex ≤ 102 then some (hex.toNat - 87)
  else none

/-- `_parse_quadhex` on the four characters it reads. -/
def parseQuadhex (a b c d : UInt8) : Option Nat := do
  let a ← hexValue a
  let b ← hexValue b
  let c ← hexValue c
  let d ← hexValue d
  return ((a * 16 + b) * 16 + c) * 16 + d

/-- The UTF-8 bytes that `_parse_codepoint` appends. -/
def codepointBytes (uniCh : Nat) : Bytes :=
  if uniCh < 0x80 then [UInt8.ofNat uniCh]
  else if uniCh < 0x800 then
    [UInt8.ofNat (0xc0 ||| (uniCh >>> 6)), UInt8.ofNat (0x80 ||| (uniCh &&& 0x3f))]
  else if uniCh < 0x10000 then
    [UInt8.ofNat (0xe0 ||| (uniCh >>> 12)), UInt8.ofNat (0x80 ||| ((uniCh >>> 6) &&& 0x3f)),
     UInt8.ofNat (0x80 ||| (uniCh &&& 0x3f))]
  else
    [UInt8.ofNat (0xf0 ||| (uniCh >>> 18)), UInt8.ofNat (0x80 ||| ((uniCh >>> 12) &&& 0x3f)),
     UInt8.ofNat (0x80 ||| ((uniCh >>> 6) &&& 0x3f)), UInt8.ofNat (0x80 ||| (uniCh &&& 0x3f))]

/-- The two-character escapes of `_parse_string`. -/
def simpleEscape (ch : UInt8) : Option UInt8 :=
  if ch = quote then some quote
  else if ch = backslash then some backslash
  else if ch = 47 then some 47
  else if ch = 98 then some 8
  else if ch = 102 then some 12
  else if ch = 110 then some 10
  else if ch = 114 then some 13
  else if ch = 116 then some 9
  else none

/-- `_parse_string` with `_parse_codepoint` inlined: the text up to the
closing quote, and what follows the quote. -/
def parseString : Bytes → Option (Bytes × Bytes)
  | [] => none
  | ch :: input =>
      if ch < 32 then none
      else if ch = quote then some ([], input)
      else if ch = backslash then
        match input with
        | [] => none
        | esc :: input =>
            match simpleEscape esc with
            | some c => (parseString input).map fun (out, rest) => (c :: out, rest)
            | none =>
                if esc ≠ 117 then none
                else match input with
                | a :: b :: c :: d :: input =>
                    match parseQuadhex a b c d with
                    | none => none
                    | some uniCh =>
                        if 0xd800 ≤ uniCh ∧ uniCh ≤ 0xdfff then
                          -- The first half of a surrogate pair: the second must follow.
                          if 0xdc00 ≤ uniCh then none
                          else match input with
                          | s :: u :: e :: f :: g :: h :: input =>
                              if s ≠ backslash ∨ u ≠ 117 then none
                              else match parseQuadhex e f g h with
                              | none => none
                              | some second =>
                                  if 0xdc00 ≤ second ∧ second ≤ 0xdfff then
                                    (parseString input).map fun (out, rest) =>
                                      (codepointBytes ((((uniCh - 0xd800) <<< 10) |||
                                        ((second - 0xdc00) &&& 0x3ff)) + 0x10000) ++ out, rest)
                                  else none
                          | _ => none
                        else (parseString input).map fun (out, rest) =>
                          (codepointBytes uniCh ++ out, rest)
                | _ => none
      else (parseString input).map fun (out, rest) => (ch :: out, rest)

/-- The characters that `_parse_number` collects. -/
def isNumberChar (ch : UInt8) : Bool :=
  Decimal.isDigit ch || ch == 43 || ch == 45 || ch == 101 || ch == 69 || ch == 46

/-- The optional sign that `strtoimax` and `strtod` accept: whether the number
is negative, and the text behind the sign. -/
def splitSign : Bytes → Bool × Bytes
  | [] => (false, [])
  | ch :: text =>
      if ch = 45 then (true, text) else if ch = 43 then (false, text) else (false, ch :: text)

/-- A signed run of digits, as a number. -/
def signedDigits (text : Bytes) : Option Int :=
  let (negative, digits) := splitSign text
  if digits ≠ [] ∧ digits.all Decimal.isDigit then
    some (if negative then -(Decimal.value digits) else Decimal.value digits)
  else none

/-- `strtoimax` that consumes the whole text and fits 64 bits. -/
def strtoimax (numStr : Bytes) : Option Int :=
  (signedDigits numStr).filter fun i => -2 ^ 63 ≤ i ∧ i < 2 ^ 63

/-- A decimal floating literal, split into its digits and its exponent of ten:
`strtod` consumes the whole text exactly when it has this form. -/
def floatLiteral (numStr : Bytes) : Option (Nat × Int) :=
  let unsigned := (splitSign numStr).2
  let whole := unsigned.takeWhile Decimal.isDigit
  let afterWhole := unsigned.dropWhile Decimal.isDigit
  let (fraction, afterFraction) := match afterWhole with
    | 46 :: text => (text.takeWhile Decimal.isDigit, text.dropWhile Decimal.isDigit)
    | text => ([], text)
  let exponent : Option Int := match afterFraction with
    | [] => some 0
    | e :: text => if e = 101 ∨ e = 69 then signedDigits text else none
  if whole = [] ∧ fraction = [] then none
  else exponent.map fun e => (Decimal.value (whole ++ fraction), e - fraction.length)

/-- Rounding to the nearest double gives infinity. -/
def overflowsDouble (mantissa : Nat) (exponent : Int) : Bool :=
  if 0 ≤ exponent then 2 ^ 1024 - 2 ^ 970 ≤ mantissa * 10 ^ exponent.toNat
  else (2 ^ 1024 - 2 ^ 970) * 10 ^ (-exponent).toNat ≤ mantissa

/-- The number branch of `_parse`. A double that overflows makes the `value`
constructor throw. -/
def parseNumber (input : Bytes) : Parsed Value :=
  let numStr := input.takeWhile isNumberChar
  let rest := input.dropWhile isNumberChar
  match strtoimax numStr with
  | some i => .done (.int64 i) rest
  | none =>
      match floatLiteral numStr with
      | none => .failed
      | some (mantissa, exponent) =>
          if overflowsDouble mantissa exponent then .thrown .overflowError
          else .done (.number numStr) rest

def literal (pattern : Bytes) (v : Value) (input : Bytes) : Parsed Value :=
  match matchText pattern input with
  | some rest => .done v rest
  | none => .failed

mutual

/-- `_parse`. Only arrays count against the depth limit: an object passes its
own limit on to its members. Every call below one that reads a character has
one unit of fuel less. -/
def parseValue : Nat → Nat → Bytes → Parsed Value
  | 0, _, _ => .failed
  | fuel + 1, depths, input =>
      match skipWs input with
      | [] => .failed
      | ch :: rest =>
          if ch = 110 then literal (ascii "ull") .null rest
          else if ch = 102 then literal (ascii "alse") (.boolean false) rest
          else if ch = 116 then literal (ascii "rue") (.boolean true) rest
          else if ch = quote then
            match parseString rest with
            | some (s, rest) => .done (.string s) rest
            | none => .failed
          else if ch = 91 then
            if depths = 0 then .failed
            else match expect 93 rest with
            | some rest => .done (.array []) rest
            | none => parseArrayItems fuel (depths - 1) rest []
          else if ch = 123 then
            if depths = 0 then .failed
            else match expect 125 rest with
            | some rest => .done (.object []) rest
            | none => parseObjectItems fuel depths rest []
          else if Decimal.isDigit ch ∨ ch = 45 then parseNumber (ch :: rest)
          else .failed

/-- The loop of `_parse_array`. -/
def parseArrayItems : Nat → Nat → Bytes → List Value → Parsed Value
  | 0, _, _, _ => .failed
  | fuel + 1, depths, input, items =>
      (parseValue fuel depths input).bind fun v input =>
        match expect 44 input with
        | some input => parseArrayItems fuel depths input (items ++ [v])
        | none =>
            match expect 93 input with
            | some input => .done (.array (items ++ [v])) input
            | none => .failed

/-- The loop of `_parse_object`. A repeated key keeps its last value. -/
def parseObjectItems : Nat → Nat → Bytes → List (Bytes × Value) → Parsed Value
  | 0, _, _, _ => .failed
  | fuel + 1, depths, input, members =>
      match (expect quote input).bind parseString with
      | none => .failed
      | some (key, input) =>
          match expect 58 input with
          | none => .failed
          | some input =>
              (parseValue fuel depths input).bind fun v input =>
                let members := setMember key v members
                match expect 44 input with
                | some input => parseObjectItems fuel depths input members
                | none =>
                    match expect 125 input with
                    | some input => .done (.object members) input
                    | none => .failed

end

/-- `DEFAULT_MAX_DEPTHS` -/
def defaultMaxDepths : Nat := 100

/-- `picojson::parse(value&, const std::string&)`, with the error text reduced
to its presence. Input behind the first value is ignored. Two units of fuel
for each byte are enough: every other call reads one. -/
def parse (str : Bytes) : Except Exception (Option Value) :=
  match parseValue (2 * str.length + 2) defaultMaxDepths str with
  | .done v _ => .ok (some v)
  | .failed => .ok none
  | .thrown e => .error e

end Picojson

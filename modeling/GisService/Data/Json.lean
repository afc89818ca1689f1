import GisService.Data.Decimal

/-! JSON texts as RFC 8259 defines them, over bytes. Bytes from 128 on are
taken over unchanged, whether or not they form UTF-8. -/

/-- A JSON value. A number keeps its literal, and an object its members in the
order of the text. -/
inductive Json where
  | null
  | bool (b : Bool)
  | number (literal : List UInt8)
  | string (s : List UInt8)
  | array (items : List Json)
  | object (members : List (List UInt8 × Json))

namespace Json

open ByteString

abbrev quote : UInt8 := 34
abbrev backslash : UInt8 := 92

/-- The value of a member. Of several members with one name the last counts. -/
def member? (name : Bytes) (members : List (Bytes × Json)) : Option Json :=
  members.reverse.lookup name

def isSpace (ch : UInt8) : Bool := ch == 32 || ch == 9 || ch == 10 || ch == 13

def skipSpace (input : Bytes) : Bytes := input.dropWhile isSpace

/-- What follows a character that has to come next, after any white space. -/
def expect (ch : UInt8) (input : Bytes) : Option Bytes :=
  match skipSpace input with
  | next :: rest => if next = ch then some rest else none
  | [] => none

/-- What follows a literal. -/
def expectText (pattern input : Bytes) : Option Bytes :=
  if pattern <+: input then some (input.drop pattern.length) else none

/-- One or more digits. -/
def readDigits (input : Bytes) : Option (Bytes × Bytes) :=
  let digits := input.takeWhile Decimal.isDigit
  if digits = [] then none else some (digits, input.dropWhile Decimal.isDigit)

/-- The integer part of a number, without superfluous zeros. -/
def readInteger : Bytes → Option (Bytes × Bytes)
  | [] => none
  | ch :: rest => if ch = 48 then some ([48], rest) else readDigits (ch :: rest)

def readFraction : Bytes → Option (Bytes × Bytes)
  | [] => some ([], [])
  | ch :: rest =>
      if ch = 46 then (readDigits rest).map fun (digits, rest) => (46 :: digits, rest)
      else some ([], ch :: rest)

def readExponent : Bytes → Option (Bytes × Bytes)
  | [] => some ([], [])
  | ch :: rest =>
      if ch = 101 ∨ ch = 69 then
        match rest with
        | [] => none
        | sign :: more =>
            if sign = 43 ∨ sign = 45 then
              (readDigits more).map fun (digits, rest) => (ch :: sign :: digits, rest)
            else (readDigits rest).map fun (digits, rest) => (ch :: digits, rest)
      else some ([], ch :: rest)

def readUnsigned (input : Bytes) : Option (Bytes × Bytes) := do
  let (whole, input) ← readInteger input
  let (fraction, input) ← readFraction input
  let (exponent, input) ← readExponent input
  return (whole ++ fraction ++ exponent, input)

/-- A number's literal. -/
def readNumber : Bytes → Option (Bytes × Bytes)
  | [] => none
  | ch :: rest =>
      if ch = 45 then (readUnsigned rest).map fun (literal, rest) => (45 :: literal, rest)
      else readUnsigned (ch :: rest)

def hexValue (hex : UInt8) : Option Nat :=
  if 48 ≤ hex ∧ hex ≤ 57 then some (hex.toNat - 48)
  else if 65 ≤ hex ∧ hex ≤ 70 then some (hex.toNat - 55)
  else if 97 ≤ hex ∧ hex ≤ 102 then some (hex.toNat - 87)
  else none

/-- Four hexadecimal digits. -/
def readHex : Bytes → Option (Nat × Bytes)
  | a :: b :: c :: d :: rest => do
      let a ← hexValue a
      let b ← hexValue b
      let c ← hexValue c
      let d ← hexValue d
      return (((a * 16 + b) * 16 + c) * 16 + d, rest)
  | _ => none

/-- The code point behind `\u`. The first half of a surrogate pair must be
followed by the second. -/
def readCodePoint (input : Bytes) : Option (Nat × Bytes) := do
  let (unit, input) ← readHex input
  if 0xd800 ≤ unit ∧ unit < 0xdc00 then
    let input ← expectText [backslash, 117] input
    let (second, input) ← readHex input
    if 0xdc00 ≤ second ∧ second < 0xe000 then
      return (0x10000 + (unit - 0xd800) * 0x400 + (second - 0xdc00), input)
    else none
  else if 0xdc00 ≤ unit ∧ unit < 0xe000 then none
  else return (unit, input)

def simpleEscape (ch : UInt8) : Option UInt8 :=
  [(quote, quote), (backslash, backslash), (47, 47), (98, 8), (102, 12), (110, 10), (114, 13),
    (116, 9)].lookup ch

/-- What a backslash and the characters behind it stand for. -/
def readEscape : Bytes → Option (Bytes × Bytes)
  | [] => none
  | ch :: rest =>
      if ch = 117 then
        (readCodePoint rest).map fun (n, rest) => (String.utf8EncodeChar (Char.ofNat n), rest)
      else (simpleEscape ch).map fun c => ([c], rest)

/-- The characters of a string up to its closing quote. -/
def readChars : Nat → Bytes → Option (Bytes × Bytes)
  | 0, _ => none
  | _ + 1, [] => none
  | fuel + 1, ch :: rest =>
      if ch = quote then some ([], rest)
      else if ch < 32 then none
      else if ch = backslash then do
        let (front, rest) ← readEscape rest
        let (back, rest) ← readChars fuel rest
        return (front ++ back, rest)
      else do
        let (back, rest) ← readChars fuel rest
        return (ch :: back, rest)

/-- A string behind its opening quote. Every character takes a byte. -/
def readString (input : Bytes) : Option (Bytes × Bytes) := readChars (input.length + 1) input

mutual

/-- A value, white space in front of it included. -/
def readValue : Nat → Bytes → Option (Json × Bytes)
  | 0, _ => none
  | fuel + 1, input =>
      match skipSpace input with
      | [] => none
      | ch :: rest =>
          if ch = quote then (readString rest).map fun (s, rest) => (.string s, rest)
          else if ch = 123 then
            match expect 125 rest with
            | some rest => some (.object [], rest)
            | none => (readMembers fuel rest).map fun (members, rest) => (.object members, rest)
          else if ch = 91 then
            match expect 93 rest with
            | some rest => some (.array [], rest)
            | none => (readItems fuel rest).map fun (items, rest) => (.array items, rest)
          else if ch = 110 then (expectText (ascii "ull") rest).map fun rest => (.null, rest)
          else if ch = 116 then (expectText (ascii "rue") rest).map fun rest => (.bool true, rest)
          else if ch = 102 then (expectText (ascii "alse") rest).map fun rest => (.bool false, rest)
          else (readNumber (ch :: rest)).map fun (literal, rest) => (.number literal, rest)

/-- One or more items, and the closing bracket. -/
def readItems : Nat → Bytes → Option (List Json × Bytes)
  | 0, _ => none
  | fuel + 1, input => do
      let (v, input) ← readValue fuel input
      match expect 44 input with
      | some input => (readItems fuel input).map fun (items, rest) => (v :: items, rest)
      | none => (expect 93 input).map fun rest => ([v], rest)

/-- One or more members, and the closing brace. -/
def readMembers : Nat → Bytes → Option (List (Bytes × Json) × Bytes)
  | 0, _ => none
  | fuel + 1, input => do
      let input ← expect quote input
      let (name, input) ← readString input
      let input ← expect 58 input
      let (v, input) ← readValue fuel input
      match expect 44 input with
      | some input => (readMembers fuel input).map fun (members, rest) => ((name, v) :: members, rest)
      | none => (expect 125 input).map fun rest => ([(name, v)], rest)

end

/-- A whole text is one value, with white space around it. A nested value
costs two calls and at least one byte. -/
def parse (text : Bytes) : Option Json :=
  match readValue (2 * text.length + 2) text with
  | some (v, rest) => if skipSpace rest = [] then some v else none
  | none => none

/-- A character of a string literal, without insignificant escapes. -/
def writeChar (c : UInt8) : Bytes :=
  if c = quote then [backslash, quote]
  else if c = backslash then [backslash, backslash]
  else if c < 32 then
    ascii "\\u00" ++ [Decimal.digit (c.toNat / 16),
      if c.toNat % 16 < 10 then Decimal.digit (c.toNat % 16) else UInt8.ofNat (87 + c.toNat % 16)]
  else [c]

def writeString (s : Bytes) : Bytes := quote :: (s.flatMap writeChar ++ [quote])

mutual

def write : Json → Bytes
  | .null => ascii "null"
  | .bool b => if b then ascii "true" else ascii "false"
  | .number literal => literal
  | .string s => writeString s
  | .array items => 91 :: (writeItems items ++ [93])
  | .object members => 123 :: (writeMembers members ++ [125])

def writeItems : List Json → Bytes
  | [] => []
  | [v] => v.write
  | v :: w :: items => v.write ++ 44 :: writeItems (w :: items)

def writeMembers : List (Bytes × Json) → Bytes
  | [] => []
  | [(name, v)] => writeString name ++ 58 :: v.write
  | (name, v) :: m :: members => writeString name ++ 58 :: (v.write ++ 44 :: writeMembers (m :: members))

end

end Json

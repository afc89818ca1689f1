import GisService.Url.Text

/-! `Url`: a text is cut into its parts, the parts are decoded and normalised,
and from the result a text is built again. -/
namespace Url

open ByteString

structure KeyVal where
  key : Bytes
  val : Bytes
  deriving DecidableEq

end Url

open ByteString in
/-- The members that `parse_url` sets. -/
structure Url where
  scheme : Bytes := []
  user : Bytes := []
  host : Bytes := []
  ipV : Int := -1
  port : Bytes := []
  path : Bytes := []
  query : List Url.KeyVal := []
  fragment : Bytes := []
  deriving DecidableEq

namespace Url

open ByteString

/-- What stands between the two slashes and the path. -/
structure Authority where
  user : Option Bytes
  host : Bytes
  ipV : Int
  port : Option Bytes

/-- The parts that the pointers of `parse_url` delimit. -/
structure Parts where
  scheme : Option Bytes
  authority : Option Authority
  path : Bytes
  query : Option Bytes
  fragment : Option Bytes

def invalid (what url : Bytes) : Error := .parse (what ++ ascii " in '" ++ url ++ ascii "' is invalid")

def invalidPart (what part url : Bytes) : Error :=
  invalid (what ++ ascii " '" ++ part ++ ascii "'") url

def checkChars (mask : UInt8) (what url part : Bytes) : Except Error Unit :=
  if isChars mask part then .ok () else .error (invalidPart what part url)

/-- The scheme, and the rest. A text without any of the four characters is a
path, like everything else without a scheme and an authority. -/
def scanScheme (url : Bytes) : Except Error (Option Bytes × Bytes) :=
  match findFirstOf (ascii ":/?#") url with
  | (scheme, 58 :: rest) =>
      if isScheme scheme then .ok (some scheme, rest) else .error (invalid (ascii "Scheme") url)
  | _ => .ok (none, url)

def scanUser (url authority : Bytes) : Except Error (Option Bytes × Bytes) :=
  match findFirstOf [64] authority with
  | (user, _ :: rest) =>
      if isChars 0x05 user then .ok (some user, rest) else .error (invalid (ascii "User info") url)
  | _ => .ok (none, authority)

/-- The version takes one digit. After a second one the dot is missing. -/
def scanLiteral (url text : Bytes) : Except Error (Bytes × Int × Bytes) :=
  match findFirstOf [93] text with
  | (118 :: version :: 46 :: host, _ :: rest) =>
      match PercentCode.hexValue version, isChars 0x05 host with
      | some ipV, true => .ok (host, ipV, rest)
      | _, _ => .error (invalid (ascii "Host address") url)
  | (host, _ :: rest) =>
      if isIPv6 host then .ok (host, 6, rest) else .error (invalid (ascii "Host address") url)
  | _ => .error (.parse (ascii "Missing ] in '" ++ url ++ ascii "'"))

def scanHost (url text : Bytes) : Except Error (Bytes × Int × Bytes) :=
  match text with
  | 91 :: literal => scanLiteral url literal
  | _ =>
      let cut := findFirstOf [58] text
      if isIPv4 cut.1 then .ok (cut.1, 4, cut.2)
      else if isRegName cut.1 then .ok (cut.1, 0, cut.2)
      else .error (invalid (ascii "Host address") url)

/-- Anything else behind an address in brackets is passed over. -/
def scanPort (url text : Bytes) : Except Error (Option Bytes) :=
  match text with
  | 58 :: port =>
      if isPort port then .ok (some port) else .error (invalidPart (ascii "Port") port url)
  | _ => .ok none

def scanAuthority (url text : Bytes) : Except Error Authority := do
  let (user, text) ← scanUser url text
  let (host, ipV, text) ← scanHost url text
  let port ← scanPort url text
  return { user, host, ipV, port }

/-- The authority, and the rest. -/
def scanHierarchy (url text : Bytes) : Except Error (Option Authority × Bytes) :=
  match text with
  | 47 :: 47 :: text => do
      let cut := findFirstOf (ascii "/?#") text
      let authority ← scanAuthority url cut.1
      return (some authority, cut.2)
  | _ => .ok (none, text)

/-- The query, up to the number sign, and the rest. -/
def scanQuery (text : Bytes) : Option Bytes × Bytes :=
  match text with
  | 63 :: text => ((findFirstOf [35] text).1, (findFirstOf [35] text).2)
  | _ => (none, text)

def scanFragment (url text : Bytes) : Except Error (Option Bytes) :=
  match text with
  | 35 :: fragment => do
      checkChars 0x3F (ascii "Fragment") url fragment
      return some fragment
  | _ => .ok none

def scan (url : Bytes) : Except Error Parts := do
  let (scheme, text) ← scanScheme url
  let (authority, text) ← scanHierarchy url text
  let cut := findFirstOf (ascii "?#") text
  checkChars 0x2F (ascii "Path") url cut.1
  let fragment ← scanFragment url (scanQuery cut.2).2
  return { scheme, authority, path := cut.1, query := (scanQuery cut.2).1, fragment }

def readVal (url text : Bytes) : Except Error (Bytes × Option Bytes) := do
  let cut := findFirstOf (ascii ";&") text
  checkChars 0x3F (ascii "Query value") url cut.1
  let val ← decodePlus cut.1
  return (val, cut.2.tail?)

/-- One turn of the loop over the query, and the text from which the next one
starts. -/
def readEntry (url text : Bytes) : Except Error (KeyVal × Option Bytes) := do
  let cut := findFirstOf (ascii "=;&") text
  checkChars 0x3F (ascii "Query key") url cut.1
  let key ← decodePlus cut.1
  match cut.2 with
  | [] => return ({ key, val := [] }, none)
  | c :: rest =>
      if c = 61 then do
        let (val, more) ← readVal url rest
        return ({ key, val }, more)
      else return ({ key, val := [] }, some rest)

/-- The search leaves no more than there was. -/
theorem length_findFirstOf (stops text : Bytes) :
    (findFirstOf stops text).2.length ≤ text.length := by
  rw [findFirstOf, List.span_eq_takeWhile_dropWhile]
  exact (List.dropWhile_suffix _).length_le

/-- A computation that succeeds has succeeded step by step. -/
theorem bind_eq_ok {α β : Type} {call : Except Error α} {next : α → Except Error β} {final : β} :
    (call >>= next) = .ok final ↔ ∃ result, call = .ok result ∧ next result = .ok final := by
  cases call with
  | error e => simp [bind, Except.bind]
  | ok result => simp [bind, Except.bind]

theorem length_readVal {url text val rest : Bytes} (h : readVal url text = .ok (val, some rest)) :
    rest.length < text.length := by
  have hCut := length_findFirstOf (ascii ";&") text
  obtain ⟨-, -, hVal⟩ := bind_eq_ok.mp h
  obtain ⟨val', -, hPair⟩ := bind_eq_ok.mp hVal
  obtain ⟨-, hTail⟩ := Prod.mk.inj (Except.ok.inj hPair)
  cases hMore : (findFirstOf (ascii ";&") text).2 with
  | nil => simp [hMore] at hTail
  | cons c more =>
      rw [hMore, List.tail?_cons, Option.some.injEq] at hTail
      rw [hMore, hTail, List.length_cons] at hCut
      exact hCut

/-- Each entry takes at least its separator, so that the loop over the query
ends. -/
theorem length_readEntry {url text rest : Bytes} {entry : KeyVal}
    (h : readEntry url text = .ok (entry, some rest)) : rest.length < text.length := by
  have hCut := length_findFirstOf (ascii "=;&") text
  obtain ⟨-, -, hKey⟩ := bind_eq_ok.mp h
  obtain ⟨key, -, hMatch⟩ := bind_eq_ok.mp hKey
  cases hMore : (findFirstOf (ascii "=;&") text).2 with
  | nil => simp [hMore, pure, Except.pure] at hMatch
  | cons c more =>
      rw [hMore, List.length_cons] at hCut
      simp only [hMore] at hMatch
      split at hMatch
      · obtain ⟨⟨val, next⟩, hVal, hPair⟩ := bind_eq_ok.mp hMatch
        obtain ⟨-, rfl⟩ := Prod.mk.inj (Except.ok.inj hPair)
        have hLength := length_readVal hVal
        omega
      · obtain ⟨-, hRest⟩ := Prod.mk.inj (Except.ok.inj hMatch)
        obtain rfl := Option.some.inj hRest
        omega

/-- The loop over a query that is not empty. A separator at its end leads to one
more entry, of an empty key. -/
def queryEntries (url text : Bytes) : Except Error (List KeyVal) :=
  match _ : readEntry url text with
  | .error e => .error e
  | .ok (entry, none) => .ok [entry]
  | .ok (entry, some rest) => do
      let entries ← queryEntries url rest
      return entry :: entries
termination_by text.length
decreasing_by exact length_readEntry ‹_›

def parseQuery (url text : Bytes) : Except Error (List KeyVal) :=
  if text = [] then .ok [] else queryEntries url text

def decodeQuery (url : Bytes) : Option Bytes → Except Error (List KeyVal)
  | some text => parseQuery url text
  | none => .ok []

def decodePart : Option Bytes → Except Error Bytes
  | some text => decode text
  | none => .ok []

section
variable (normalizeIPv6 : Bytes → Except Error Bytes)

/-- `normalize_IPv6` is a parameter. -/
def decodeHost (host : Bytes) (ipV : Int) : Except Error Bytes := do
  let host ← decode host
  if ipV = 0 then return toLower host
  else if ipV = 6 then normalizeIPv6 host
  else return host

def decodeAuthority : Option Authority → Except Error (Bytes × Bytes × Int × Bytes)
  | some authority => do
      let user ← decodePart authority.user
      let host ← decodeHost normalizeIPv6 authority.host authority.ipV
      return (user, host, authority.ipV, authority.port.getD [])
  | none => .ok ([], [], -1, [])

def assemble (url : Bytes) (parts : Parts) : Except Error Url := do
  let (user, host, ipV, port) ← decodeAuthority normalizeIPv6 parts.authority
  let path ← decode parts.path
  let query ← decodeQuery url parts.query
  let fragment ← decodePart parts.fragment
  return {
    scheme := toLower (parts.scheme.getD [])
    user, host, ipV, port
    path := normalizePath path
    query, fragment }

def parseUrl (url : Bytes) : Except Error Url :=
  if url = [] then .ok {}
  else if 8000 < url.length then .error (.parse (ascii "URI is longer than 8000 characters"))
  else do
    let parts ← scan url
    assemble normalizeIPv6 url parts

end

def lowerHexDigit (n : Nat) : UInt8 := UInt8.ofNat (if n < 10 then 48 + n else 87 + n)

/-- A number as `std::hex` writes it. -/
def hexText (n : Nat) : Bytes :=
  if n = 0 then [48] else (Nat.digits 16 n).reverse.map lowerHexDigit

def hostText (u : Url) : Bytes :=
  if u.ipV = 0 ∨ u.ipV = 4 then u.host
  else if u.ipV = 6 then ascii "[" ++ u.host ++ ascii "]"
  else ascii "[v" ++ hexText (u.ipV % 2 ^ 32).toNat ++ ascii "." ++ u.host ++ ascii "]"

def DefaultPort (u : Url) : Prop :=
  u.scheme = ascii "http" ∧ u.port = ascii "80" ∨ u.scheme = ascii "https" ∧ u.port = ascii "443"

instance (u : Url) : Decidable u.DefaultPort := inferInstanceAs (Decidable (_ ∨ _))

def portText (u : Url) : Bytes :=
  if u.port = [] ∨ u.DefaultPort then [] else ascii ":" ++ u.port

def buildAuthority (u : Url) : Except Error Bytes :=
  if u.host ≠ [] then
    .ok (ascii "//" ++ (if u.user ≠ [] then encode u.user 0x05 ++ ascii "@" else []) ++
      u.hostText ++ u.portText)
  else if u.user ≠ [] then .error (.build (ascii "User info defined, but host is empty"))
  else if u.port ≠ [] then .error (.build (ascii "Port defined, but host is empty"))
  else if (findFirstOf (ascii ":/") u.path).2.head? = some 58 then
    .error (.build (ascii "The first segment of the relative path can't contain ':'"))
  else .ok []

def buildPath (u : Url) : Except Error Bytes :=
  if u.path = [] then .ok []
  else if u.path.head? ≠ some 47 ∧ u.host ≠ [] then
    .error (.build (ascii "Path must start with '/' when host is not empty"))
  else .ok (encode u.path 0x0F)

def entryText (kv : KeyVal) : Bytes :=
  encodeQueryKey kv.key 0x1F ++
    if kv.val ≠ [] then ascii "=" ++ encodeQueryVal kv.val 0x1F else []

def buildEntry (reason : Bytes) (kv : KeyVal) : Except Error Bytes :=
  if kv.key = [] then .error (.build reason) else .ok (entryText kv)

/-- The entries from the second one on. -/
def buildEntries : List KeyVal → Except Error Bytes
  | [] => .ok []
  | kv :: rest => do
      let entry ← buildEntry (ascii "A query entry has no key") kv
      let more ← buildEntries rest
      return ascii "&" ++ entry ++ more

def buildQuery : List KeyVal → Except Error Bytes
  | [] => .ok []
  | kv :: rest => do
      let entry ← buildEntry (ascii "First query entry has no key") kv
      let more ← buildEntries rest
      return ascii "?" ++ entry ++ more

def fragmentText (u : Url) : Bytes :=
  if u.fragment = [] then [] else ascii "#" ++ encode u.fragment 0x1F

def buildUrl (u : Url) : Except Error Bytes := do
  let authority ← buildAuthority u
  let path ← buildPath u
  let query ← buildQuery u.query
  return (if u.scheme ≠ [] then u.scheme ++ ascii ":" else []) ++ authority ++ path ++ query ++
    u.fragmentText

/-- `Url(url).str()` -/
def str (normalizeIPv6 : Bytes → Except Error Bytes) (url : Bytes) : Except Error Bytes := do
  buildUrl (← parseUrl normalizeIPv6 url)

end Url

import GisService.Url.IPv6
import GisService.Url.NormalForm

/-! `Url` as an object: it parses its text when a member is used, and builds the
text from the members when it is asked for. -/
namespace Url

open ByteString

/-- The members with `m_url`, `m_parse` and `m_built`. -/
structure Object where
  members : Url := {}
  url : Bytes := []
  parse : Bool := true
  built : Bool := true

/-- `Url(url_str)` -/
def Object.ofText (url : Bytes) : Object := { url, parse := false, built := false }

/-- `assign`, of another object -/
def Object.assign (o url : Object) : Object where
  members := if url.parse then url.members else o.members
  url := if !url.parse || url.built then url.url else o.url
  parse := url.parse
  built := url.built

/-- A method that may throw, with the object as it is left either way. -/
abbrev Method (α : Type) := ExceptT Error (StateM Object) α

def require (valid : Bool) (what text : Bytes) : Except Error Unit :=
  if valid then .ok () else .error (.parse (what ++ ascii " '" ++ text ++ ascii "'"))

def checkScheme (s : Bytes) : Except Error Unit := require (isScheme s) (ascii "Invalid scheme") s

def checkUserInfo (s : Bytes) : Except Error Unit :=
  require (s.length ≤ 256) (ascii "User info is longer than 256 characters") s

def checkHost (h : Bytes) : Except Error Unit :=
  require (h.length ≤ 253) (ascii "Host is longer than 253 characters") h

def checkPort (p : Bytes) : Except Error Unit := require (isPort p) (ascii "Invalid port") p

def checkPath (p : Bytes) : Except Error Unit :=
  require (p.length ≤ 8000) (ascii "Path is longer than 8000 characters") p

def checkFragment (f : Bytes) : Except Error Unit :=
  require (f.length ≤ 256) (ascii "Fragment is longer than 256 characters") f

/-- A conversion to `std::int8_t` -/
@[irreducible] def int8 (n : UInt8) : Int := Int.bmod n.toNat 256

theorem int8_range (n : UInt8) : -128 ≤ int8 n ∧ int8 n < 128 := by
  unfold int8
  exact ⟨Int.le_bmod (by decide), Int.bmod_lt (by decide)⟩

/-- A version below 128 stays what it is in an `int8_t`. -/
theorem int8_of_lt {n : UInt8} (h : (n.toNat : Int) < 128) : int8 n = n.toNat := by
  unfold int8
  exact Int.bmod_eq_of_le (by omega) (by omega)

/-- The port of a scheme is left out. -/
def dropDefaultPort (u : Url) : Url := if u.DefaultPort then { u with port := [] } else u

section
variable (normalizeIPv6 : Bytes → Except Error Bytes)

/-- The host and the version that `host` sets. An empty host gets the version -1,
as an unsigned number. -/
def newHost (h : Bytes) (ipV : UInt8) : Except Error (Bytes × UInt8) :=
  if h = [] then .ok ([], 255)
  else if isIPv4 h then do
    require (isValidIPv4 h) (ascii "Invalid IPv4 address") h
    return (h, 4)
  else if ipV ≠ 0 ∧ ipV ≠ 4 ∧ ipV ≠ 6 then do
    require (isIPv6 h) (ascii "Invalid IPvFuture address") h
    return (h, ipV)
  -- A name of hexadecimal digits and dots is taken for an address, too.
  else if isIPv6 h then do
    require (isValidIPv6 h) (ascii "Invalid IPv6 address") h
    return (← normalizeIPv6 h, 6)
  else do
    require (isRegName h) (ascii "Invalid host") h
    return (toLower h, 0)

/-- `parse_url` -/
def Object.parseMembers : Method Unit := do
  let o ← get
  if o.url = [] then set ({} : Object)
  else
    let members ← MonadExcept.ofExcept (parseUrl normalizeIPv6 o.url)
    set { o with members, parse := true, built := false }

def Object.lazyParse : Method Unit := do
  if (← get).parse = false then parseMembers normalizeIPv6

/-- `build_url` -/
def Object.buildMembers : Method Unit := do
  lazyParse normalizeIPv6
  let text ← MonadExcept.ofExcept (buildUrl (← get).members)
  modify fun o => { o with url := text, built := false }

def Object.getStr : Method Bytes := do
  if (← get).built = false then buildMembers normalizeIPv6
  return (← get).url

/-- A member is written, and the text forgotten, only where the value is new. -/
def Object.setMember {α : Type} [DecidableEq α] (read : Url → α) (write : α → Url → Url) (value : α) :
    Method Unit :=
  modify fun o =>
    if read o.members ≠ value then
      { o with members := write value o.members, built := false }
    else o

def Object.setScheme (s : Bytes) : Method Unit := do
  MonadExcept.ofExcept (checkScheme s)
  lazyParse normalizeIPv6
  modify fun o =>
    if toLower s ≠ o.members.scheme then
      { o with
        members := dropDefaultPort { o.members with scheme := toLower s }
        built := false }
    else o

def Object.setUserInfo (s : Bytes) : Method Unit := do
  MonadExcept.ofExcept (checkUserInfo s)
  lazyParse normalizeIPv6
  setMember Url.user (fun user u => { u with user }) s

def Object.setHost (h : Bytes) (ipV : UInt8) : Method Unit := do
  MonadExcept.ofExcept (checkHost h)
  lazyParse normalizeIPv6
  let new ← MonadExcept.ofExcept (newHost normalizeIPv6 h ipV)
  -- The version is compared as it is and then stored in eight bits with a sign.
  modify fun o =>
    if o.members.host ≠ new.1 ∨ o.members.ipV ≠ (new.2.toNat : Int) then
      { o with
        members := { o.members with host := new.1, ipV := int8 new.2 }
        built := false }
    else o

def Object.setPort (p : Bytes) : Method Unit := do
  MonadExcept.ofExcept (checkPort p)
  lazyParse normalizeIPv6
  let u := (← get).members
  setMember Url.port (fun port u => { u with port }) (dropDefaultPort { u with port := p }).port

def Object.setPath (p : Bytes) : Method Unit := do
  MonadExcept.ofExcept (checkPath p)
  lazyParse normalizeIPv6
  setMember Url.path (fun path u => { u with path }) (normalizePath p)

def Object.setFragment (f : Bytes) : Method Unit := do
  MonadExcept.ofExcept (checkFragment f)
  lazyParse normalizeIPv6
  setMember Url.fragment (fun fragment u => { u with fragment }) f

def Object.setQuery (q : List KeyVal) : Method Unit := do
  lazyParse normalizeIPv6
  setMember Url.query (fun query u => { u with query }) q

/-- `set_query()`, with what is done to the reference at once. -/
def Object.editQuery (edit : List KeyVal → List KeyVal) : Method Unit := do
  lazyParse normalizeIPv6
  modify fun o =>
    { o with members := { o.members with query := edit o.members.query }, built := false }

/-- `set_query(i)`, with what is done to the reference at once. -/
def Object.editQueryAt (i : Nat) (edit : KeyVal → KeyVal) : Method Unit := do
  lazyParse normalizeIPv6
  let kv ← MonadExcept.ofExcept ((← get).members.queryAt i)
  modify fun o =>
    { o with
      members := { o.members with query := o.members.query.set i (edit kv) }
      built := false }

def Object.addQuery (kv : KeyVal) : Method Unit := editQuery normalizeIPv6 (· ++ [kv])

end

/-- What a method returns. -/
inductive Value where
  | unit
  | text (text : Bytes)
  | version (ipV : Int)
  | query (query : List KeyVal)
  | keyVal (kv : KeyVal)
  deriving DecidableEq

/-- The methods with their arguments. -/
inductive Call where
  | scheme
  | userInfo
  | host
  | ipVersion
  | port
  | path
  | query
  | queryAt (i : Nat)
  | fragment
  | str
  | setStr (url : Bytes)
  | setScheme (s : Bytes)
  | setUserInfo (s : Bytes)
  | setHost (h : Bytes) (ipV : UInt8)
  | setPort (p : Bytes)
  | setPath (p : Bytes)
  | setQuery (q : List KeyVal)
  | addQuery (kv : KeyVal)
  | editQuery (edit : List KeyVal → List KeyVal)
  | editQueryAt (i : Nat) (edit : KeyVal → KeyVal)
  | setFragment (f : Bytes)
  | clear

section
variable (normalizeIPv6 : Bytes → Except Error Bytes)

/-- A method that reads a member. -/
def Object.getMember (read : Url → Except Error Value) : Method Value := do
  lazyParse normalizeIPv6
  MonadExcept.ofExcept (read (← get).members)

def Call.method : Call → Method Value
  | .scheme => Object.getMember normalizeIPv6 fun u => .ok (.text u.scheme)
  | .userInfo => Object.getMember normalizeIPv6 fun u => .ok (.text u.user)
  | .host => Object.getMember normalizeIPv6 fun u => .ok (.text u.host)
  | .ipVersion => Object.getMember normalizeIPv6 fun u => .ok (.version u.ipV)
  | .port => Object.getMember normalizeIPv6 fun u => .ok (.text u.port)
  | .path => Object.getMember normalizeIPv6 fun u => .ok (.text u.path)
  | .query => Object.getMember normalizeIPv6 fun u => .ok (.query u.query)
  | .queryAt i => Object.getMember normalizeIPv6 fun u => return .keyVal (← u.queryAt i)
  | .fragment => Object.getMember normalizeIPv6 fun u => .ok (.text u.fragment)
  | .str => return .text (← Object.getStr normalizeIPv6)
  | .setStr url => do
      modify fun o => { o with url, parse := false, built := false }
      return .unit
  | .setScheme s => do Object.setScheme normalizeIPv6 s; return .unit
  | .setUserInfo s => do Object.setUserInfo normalizeIPv6 s; return .unit
  | .setHost h ipV => do Object.setHost normalizeIPv6 h ipV; return .unit
  | .setPort p => do Object.setPort normalizeIPv6 p; return .unit
  | .setPath p => do Object.setPath normalizeIPv6 p; return .unit
  | .setQuery q => do Object.setQuery normalizeIPv6 q; return .unit
  | .addQuery kv => do Object.addQuery normalizeIPv6 kv; return .unit
  | .editQuery edit => do Object.editQuery normalizeIPv6 edit; return .unit
  | .editQueryAt i edit => do Object.editQueryAt normalizeIPv6 i edit; return .unit
  | .setFragment f => do Object.setFragment normalizeIPv6 f; return .unit
  | .clear => do set ({} : Object); return .unit

/-- What an object stands for: its members, or the error of its text. -/
abbrev Meaning := Except Error Url

/-- A call that uses the members. -/
def onMembers (check : Except Error Unit) (change : Url → Except Error (Value × Url))
    (meaning : Meaning) : Except Error Value × Meaning :=
  match check, meaning with
  | .error e, meaning => (.error e, meaning)
  | .ok (), .error e => (.error e, .error e)
  | .ok (), .ok u =>
      match change u with
      | .error e => (.error e, .ok u)
      | .ok (value, u') => (.ok value, .ok u')

def reading (read : Url → Except Error Value) : Meaning → Except Error Value × Meaning :=
  onMembers (.ok ()) fun u => return (← read u, u)

def writing (check : Except Error Unit) (write : Url → Except Error Url) :
    Meaning → Except Error Value × Meaning :=
  onMembers check fun u => return (.unit, ← write u)

/-- What the methods are for, with every text parsed at once. -/
def Call.eager : Call → Meaning → Except Error Value × Meaning
  | .scheme => reading fun u => .ok (.text u.scheme)
  | .userInfo => reading fun u => .ok (.text u.user)
  | .host => reading fun u => .ok (.text u.host)
  | .ipVersion => reading fun u => .ok (.version u.ipV)
  | .port => reading fun u => .ok (.text u.port)
  | .path => reading fun u => .ok (.text u.path)
  | .query => reading fun u => .ok (.query u.query)
  | .queryAt i => reading fun u => return .keyVal (← u.queryAt i)
  | .fragment => reading fun u => .ok (.text u.fragment)
  | .str => reading fun u => return .text (← buildUrl u)
  | .setStr url => fun _ => (.ok .unit, parseUrl normalizeIPv6 url)
  | .setScheme s => writing (checkScheme s) fun u =>
      .ok (if toLower s = u.scheme then u else dropDefaultPort { u with scheme := toLower s })
  | .setUserInfo s => writing (checkUserInfo s) fun u => .ok { u with user := s }
  | .setHost h ipV => writing (checkHost h) fun u => do
      let new ← newHost normalizeIPv6 h ipV
      return { u with host := new.1, ipV := int8 new.2 }
  | .setPort p => writing (checkPort p) fun u => .ok (dropDefaultPort { u with port := p })
  | .setPath p => writing (checkPath p) fun u => .ok { u with path := normalizePath p }
  | .setQuery q => writing (.ok ()) fun u => .ok { u with query := q }
  | .addQuery kv => writing (.ok ()) fun u => .ok { u with query := u.query ++ [kv] }
  | .editQuery edit => writing (.ok ()) fun u => .ok { u with query := edit u.query }
  | .editQueryAt i edit => writing (.ok ()) fun u => do
      let kv ← u.queryAt i
      return { u with query := u.query.set i (edit kv) }
  | .setFragment f => writing (checkFragment f) fun u => .ok { u with fragment := f }
  | .clear => fun _ => (.ok .unit, .ok {})

def Object.meaning (o : Object) : Meaning :=
  if o.parse then .ok o.members else parseUrl normalizeIPv6 o.url

end

/-- The flags say what they are meant to say, and the version fits its type. -/
structure Object.Valid (o : Object) : Prop where
  built : o.built = true → o.parse = true ∧ buildUrl o.members = .ok o.url
  version : o.parse = true → -128 ≤ o.members.ipV ∧ o.members.ipV < 128

section
variable {α β : Type}

/-- A method in front of another one ends both if it throws, and what it has written
to the object stays. -/
theorem run_bind (m : Method α) (f : α → Method β) (o : Object) :
    (m >>= f) o = match m o with
      | (.ok a, o') => f a o'
      | (.error e, o') => (.error e, o') := by
  show ExceptT.bindCont f (m o).1 (m o).2 = _
  rcases m o with ⟨e | a, o'⟩ <;> rfl

theorem run_ofExcept (r : Except Error α) (o : Object) :
    (MonadExcept.ofExcept r : Method α) o = (r, o) := by
  cases r <;> rfl

theorem run_pure (a : α) (o : Object) : (pure a : Method α) o = (.ok a, o) := rfl

theorem run_get (o : Object) : (get : Method Object) o = (.ok o, o) := rfl

theorem run_set (o o' : Object) : (set o' : Method PUnit) o = (.ok ⟨⟩, o') := rfl

theorem run_modify (f : Object → Object) (o : Object) :
    (modify f : Method PUnit) o = (.ok ⟨⟩, f o) := rfl

end

/-- The answer to a call and what the object stands for afterwards. -/
structure Agrees (normalizeIPv6 : Bytes → Except Error Bytes)
    (after : Except Error Value × Object) (spec : Except Error Value × Meaning) : Prop where
  answer : after.1 = spec.1
  valid : after.2.Valid
  meaning : after.2.meaning normalizeIPv6 = spec.2

section
variable {normalizeIPv6 : Bytes → Except Error Bytes} {o : Object} {u : Url}

/-- A hexadecimal digit is a version that fits into an `int8_t`. -/
theorem hexValue_lt {c : UInt8} {n : Nat} (h : PercentCode.hexValue c = some n) : n < 16 := by
  have hAll : ∀ c, (PercentCode.hexValue c).all (· < 16) = true := by
    apply forall_byte
    decide +kernel
  simpa [h] using hAll c

/-- The version of a literal is one digit. -/
theorem scanLiteral_version {url text host rest : Bytes} {ipV : Int}
    (h : scanLiteral url text = .ok (host, ipV, rest)) : 0 ≤ ipV ∧ ipV < 16 := by
  unfold scanLiteral at h
  split at h
  · split at h
    · next version hVersion _ =>
        have hLt := hexValue_lt hVersion
        obtain ⟨-, hPair⟩ := Prod.mk.inj (Except.ok.inj h)
        obtain ⟨rfl, -⟩ := Prod.mk.inj hPair
        omega
    · cases h
  · split at h
    · obtain ⟨-, hPair⟩ := Prod.mk.inj (Except.ok.inj h)
      obtain ⟨rfl, -⟩ := Prod.mk.inj hPair
      omega
    · cases h
  · cases h

/-- The version of a host is one digit, with 0 for a name. -/
theorem scanHost_version {url text host rest : Bytes} {ipV : Int}
    (h : scanHost url text = .ok (host, ipV, rest)) : 0 ≤ ipV ∧ ipV < 16 := by
  unfold scanHost at h
  split at h
  · exact scanLiteral_version h
  · dsimp only at h
    split at h
    · cases h
      decide
    · split at h
      · cases h
        decide
      · cases h

theorem scanHierarchy_version {url text rest : Bytes} {part : Option Authority}
    (h : scanHierarchy url text = .ok (part, rest)) :
    ∀ a ∈ part, 0 ≤ a.ipV ∧ a.ipV < 16 := by
  unfold scanHierarchy at h
  split at h
  · dsimp only at h
    obtain ⟨a, hScan, hPair⟩ := bind_eq_ok.mp h
    obtain ⟨rfl, -⟩ := Prod.mk.inj (Except.ok.inj hPair)
    obtain ⟨⟨user, afterUser⟩, -, hScan⟩ := bind_eq_ok.mp hScan
    obtain ⟨⟨host, ipV, afterHost⟩, hHost, hScan⟩ := bind_eq_ok.mp hScan
    obtain ⟨port, -, hScan⟩ := bind_eq_ok.mp hScan
    obtain rfl := Except.ok.inj hScan
    rintro a ⟨⟩
    exact scanHost_version hHost
  · obtain ⟨rfl, -⟩ := Prod.mk.inj (Except.ok.inj h)
    nofun

/-- A version that was parsed fits eight bits with a sign. -/
theorem parseUrl_version {url : Bytes} (h : parseUrl normalizeIPv6 url = .ok u) :
    -128 ≤ u.ipV ∧ u.ipV < 128 := by
  unfold parseUrl at h
  split at h
  · cases h
    decide
  · split at h
    · cases h
    · obtain ⟨parts, hScan, h⟩ := bind_eq_ok.mp h
      obtain ⟨⟨scheme, afterScheme⟩, -, hScan⟩ := bind_eq_ok.mp hScan
      obtain ⟨⟨authority, after⟩, hAuthority, hScan⟩ := bind_eq_ok.mp hScan
      obtain ⟨-, -, hScan⟩ := bind_eq_ok.mp hScan
      obtain ⟨fragment, -, hScan⟩ := bind_eq_ok.mp hScan
      obtain rfl := Except.ok.inj hScan
      obtain ⟨⟨user, host, ipV, port⟩, hDecode, h⟩ := bind_eq_ok.mp h
      obtain ⟨path, -, h⟩ := bind_eq_ok.mp h
      obtain ⟨query, -, h⟩ := bind_eq_ok.mp h
      obtain ⟨fragment, -, h⟩ := bind_eq_ok.mp h
      cases h
      cases authority with
      | none =>
          cases hDecode
          show -128 ≤ (-1 : Int) ∧ (-1 : Int) < 128
          decide
      | some a =>
          have hVersion := scanHierarchy_version hAuthority a rfl
          obtain ⟨user, -, hDecode⟩ := bind_eq_ok.mp hDecode
          obtain ⟨host, -, hDecode⟩ := bind_eq_ok.mp hDecode
          cases hDecode
          dsimp only
          omega

/-- The version of an object fits into an `int8_t`, whether it was parsed or set. -/
theorem Object.Valid.meaning_version (hValid : o.Valid) (h : o.meaning normalizeIPv6 = .ok u) :
    -128 ≤ u.ipV ∧ u.ipV < 128 := by
  unfold meaning at h
  split at h
  · next hParse =>
      obtain rfl := Except.ok.inj h
      exact hValid.version hParse
  · exact parseUrl_version h

/-- A parsed object stands for its members. -/
theorem Object.meaning_of_parse (h : o.parse = true) : o.meaning normalizeIPv6 = .ok o.members :=
  if_pos h

/-- One that is not parsed yet stands for what its text would be parsed to. -/
theorem Object.meaning_of_not_parse (h : o.parse = false) :
    o.meaning normalizeIPv6 = parseUrl normalizeIPv6 o.url := by
  rw [meaning, h]
  rfl

/-- A second parse does nothing. -/
theorem Object.lazyParse_of_parse (h : o.parse = true) :
    lazyParse normalizeIPv6 o = (.ok (), o) := by
  rw [lazyParse, run_bind, run_get]
  simp [h, run_pure]

/-- What an object stands for is what its text is parsed to when it is used. -/
theorem Object.lazyParse_error {e : Error} (h : o.meaning normalizeIPv6 = .error e) :
    lazyParse normalizeIPv6 o = (.error e, o) := by
  cases hParse : o.parse with
  | true => simp [meaning, hParse] at h
  | false =>
      rw [meaning_of_not_parse hParse] at h
      have hUrl : o.url ≠ [] := by
        intro hNil
        simp [hNil, parseUrl] at h
      rw [lazyParse, run_bind, run_get]
      simp only [hParse, if_true, parseMembers]
      rw [run_bind, run_get]
      simp only [if_neg hUrl]
      rw [run_bind, run_ofExcept, h]

/-- Parsing brings the members to what the object stands for. -/
theorem Object.lazyParse_ok (hValid : o.Valid) (h : o.meaning normalizeIPv6 = .ok u) :
    ∃ o', lazyParse normalizeIPv6 o = (.ok (), o') ∧ o'.Valid ∧ o'.parse = true ∧
      o'.members = u := by
  have hVersion := hValid.meaning_version h
  cases hParse : o.parse with
  | true =>
      rw [meaning_of_parse hParse] at h
      exact ⟨o, lazyParse_of_parse hParse, hValid, hParse, Except.ok.inj h⟩
  | false =>
      rw [meaning_of_not_parse hParse] at h
      rw [lazyParse, run_bind, run_get]
      simp only [hParse, if_true, parseMembers]
      rw [run_bind, run_get]
      by_cases hUrl : o.url = []
      · rw [hUrl, parseUrl, if_pos rfl] at h
        obtain rfl := Except.ok.inj h
        simp only [hUrl, if_true, run_set]
        exact ⟨_, rfl, ⟨fun _ => ⟨rfl, rfl⟩, fun _ => hVersion⟩, rfl, rfl⟩
      · simp only [if_neg hUrl]
        rw [run_bind, run_ofExcept, h]
        exact ⟨_, rfl, ⟨fun hBuilt => absurd hBuilt Bool.false_ne_true, fun _ => hVersion⟩, rfl,
          rfl⟩

/-- What a call of a parsed object does: it throws and changes nothing, or the
object has the new members. -/
def Does (result : Except Error (Value × Url)) (o : Object) (after : Except Error Value × Object) :
    Prop :=
  match result with
  | .error e => after = (.error e, o)
  | .ok (value, u) =>
      after.1 = .ok value ∧ after.2.Valid ∧ after.2.parse = true ∧ after.2.members = u

/-- A method that checks its argument, lets the object be parsed and goes on with
the members. -/
theorem agrees_onMembers {method body : Method Value} {check : Except Error Unit}
    {change : Url → Except Error (Value × Url)} (hValid : o.Valid)
    (hMethod : method o = (do
      MonadExcept.ofExcept check
      Object.lazyParse normalizeIPv6
      body : Method Value) o)
    (hBody : ∀ o, o.Valid → o.parse = true → Does (change o.members) o (body o)) :
    Agrees normalizeIPv6 (method o)
      (onMembers check change (o.meaning normalizeIPv6)) := by
  rw [hMethod, run_bind, run_ofExcept]
  cases check with
  | error e => exact ⟨rfl, hValid, rfl⟩
  | ok _ =>
      dsimp only
      rw [run_bind]
      cases hMeaning : o.meaning normalizeIPv6 with
      | error e =>
          rw [Object.lazyParse_error hMeaning]
          exact ⟨rfl, hValid, hMeaning⟩
      | ok u =>
          obtain ⟨o', hRun, hValid', hParse, rfl⟩ := Object.lazyParse_ok hValid hMeaning
          rw [hRun]
          have hDoes := hBody o' hValid' hParse
          dsimp only [onMembers]
          cases hChange : change o'.members with
          | error e =>
              rw [hChange] at hDoes
              have hAfter : body o' = (.error e, o') := hDoes
              rw [hAfter]
              exact ⟨rfl, hValid', Object.meaning_of_parse hParse⟩
          | ok result =>
              rw [hChange] at hDoes
              obtain ⟨hAnswer, hValid'', hParse', hMembers⟩ := hDoes
              exact ⟨hAnswer, hValid'', (Object.meaning_of_parse hParse').trans (hMembers ▸ rfl)⟩

/-- A getter parses first, so that it reads what the object stands for. -/
theorem agrees_getMember {read : Url → Except Error Value} (hValid : o.Valid) :
    Agrees normalizeIPv6 (Object.getMember normalizeIPv6 read o)
      (reading read (o.meaning normalizeIPv6)) := by
  refine agrees_onMembers hValid rfl ?_
  intro o hValid hParse
  rw [run_bind, run_get]
  dsimp only
  rw [run_ofExcept]
  cases hRead : read o.members with
  | error e => exact rfl
  | ok value => exact ⟨rfl, hValid, hParse, rfl⟩

/-- What a setter does to a parsed object. -/
def Sets (result : Except Error Url) (o : Object) (after : Except Error Unit × Object) : Prop :=
  match result with
  | .error e => after = (.error e, o)
  | .ok u => after.1 = .ok () ∧ after.2.Valid ∧ after.2.parse = true ∧ after.2.members = u

/-- A setter checks its argument, lets the object be parsed and goes on with the
members. -/
theorem agrees_writing {setter body : Method Unit} {check : Except Error Unit}
    {write : Url → Except Error Url} (hValid : o.Valid)
    (hSetter : setter = do
      MonadExcept.ofExcept check
      Object.lazyParse normalizeIPv6
      body)
    (hBody : ∀ o, o.Valid → o.parse = true → Sets (write o.members) o (body o)) :
    Agrees normalizeIPv6 ((do setter; return .unit : Method Value) o)
      (writing check write (o.meaning normalizeIPv6)) := by
  have hMethod : (do setter; return .unit : Method Value) o = (do
      MonadExcept.ofExcept check
      Object.lazyParse normalizeIPv6
      (do body; return .unit) : Method Value) o := by
    rw [hSetter]
    simp only [bind_assoc]
  refine agrees_onMembers hValid hMethod ?_
  intro o hValid hParse
  have hSets := hBody o hValid hParse
  rw [run_bind]
  cases hWrite : write o.members with
  | error e =>
      rw [hWrite] at hSets
      have hAfter : body o = (.error e, o) := hSets
      rw [hAfter]
      exact rfl
  | ok u =>
      rw [hWrite] at hSets
      obtain ⟨hAnswer, hState⟩ := hSets
      rcases hAfter : body o with ⟨answer, o'⟩
      rw [hAfter] at hAnswer hState
      dsimp only at hAnswer
      rw [hAnswer]
      exact ⟨rfl, hState⟩

/-- A member is the same after a write of its own value, so that the text need not
be forgotten. -/
theorem sets_setMember {α : Type} [DecidableEq α] {read : Url → α} {write : α → Url → Url}
    (hWrite : ∀ u, write (read u) u = u) (hVersion : ∀ value u, (write value u).ipV = u.ipV)
    (value : α) (hValid : o.Valid) (hParse : o.parse = true) :
    Sets (.ok (write value o.members)) o (Object.setMember read write value o) := by
  rw [Object.setMember, run_modify]
  by_cases hSame : read o.members = value
  · rw [if_neg (not_not.mpr hSame), ← hSame, hWrite]
    exact ⟨rfl, hValid, hParse, rfl⟩
  · rw [if_pos hSame]
    refine ⟨rfl, ⟨nofun, fun h => ?_⟩, hParse, rfl⟩
    show -128 ≤ (write value o.members).ipV ∧ (write value o.members).ipV < 128
    rw [hVersion]
    exact hValid.version h

/-- Dropping the default port touches the port alone. -/
theorem dropDefaultPort_eq (u : Url) :
    dropDefaultPort u = { u with port := (dropDefaultPort u).port } := by
  unfold dropDefaultPort
  split <;> rfl

/-- A new scheme may drop the port, in both worlds alike. -/
theorem agrees_setScheme (s : Bytes) (hValid : o.Valid) :
    Agrees normalizeIPv6 ((Call.setScheme s).method normalizeIPv6 o)
      ((Call.setScheme s).eager normalizeIPv6 (o.meaning normalizeIPv6)) := by
  refine agrees_writing hValid rfl ?_
  intro o hValid hParse
  rw [run_modify]
  by_cases hSame : toLower s = o.members.scheme
  · rw [if_neg (not_not.mpr hSame), if_pos hSame]
    exact ⟨rfl, hValid, hParse, rfl⟩
  · rw [if_pos hSame, if_neg hSame]
    refine ⟨rfl, ⟨nofun, fun h => ?_⟩, hParse, rfl⟩
    have hVersion := hValid.version h
    dsimp only
    rw [dropDefaultPort_eq]
    exact hVersion

/-- A version that equals the stored one is below 128, so that it makes no difference
that it is compared before it is cut to eight bits with a sign. -/
theorem agrees_setHost (h : Bytes) (ipV : UInt8) (hValid : o.Valid) :
    Agrees normalizeIPv6 ((Call.setHost h ipV).method normalizeIPv6 o)
      ((Call.setHost h ipV).eager normalizeIPv6 (o.meaning normalizeIPv6)) := by
  refine agrees_writing hValid rfl ?_
  intro o hValid hParse
  rw [run_bind, run_ofExcept]
  cases hNew : newHost normalizeIPv6 h ipV with
  | error e => exact rfl
  | ok new =>
      dsimp only
      rw [run_modify]
      by_cases hSame : o.members.host = new.1 ∧ o.members.ipV = (new.2.toNat : Int)
      · have hSmall := int8_of_lt (hSame.2 ▸ (hValid.version hParse).2)
        rw [if_neg (not_or.mpr ⟨not_not.mpr hSame.1, not_not.mpr hSame.2⟩)]
        refine ⟨rfl, hValid, hParse, ?_⟩
        rw [hSmall, ← hSame.1, ← hSame.2]
      · rw [if_pos (not_and_or.mp hSame)]
        exact ⟨rfl, ⟨nofun, fun _ => int8_range new.2⟩, hParse, rfl⟩

/-- The default port of the scheme is dropped at once, in both worlds alike. -/
theorem agrees_setPort (p : Bytes) (hValid : o.Valid) :
    Agrees normalizeIPv6 ((Call.setPort p).method normalizeIPv6 o)
      ((Call.setPort p).eager normalizeIPv6 (o.meaning normalizeIPv6)) := by
  refine agrees_writing hValid rfl ?_
  intro o hValid hParse
  rw [run_bind, run_get]
  dsimp only
  rw [dropDefaultPort_eq]
  exact sets_setMember (by intro u; rfl) (by intros; rfl) _ hValid hParse

/-- Every edit of the query forgets the text. -/
theorem sets_editQuery (edit : List KeyVal → List KeyVal) (hValid : o.Valid)
    (hParse : o.parse = true) :
    Sets (.ok { o.members with query := edit o.members.query }) o
      ((modify fun o =>
        { o with members := { o.members with query := edit o.members.query }, built := false } :
          Method Unit) o) :=
  ⟨rfl, ⟨nofun, hValid.version⟩, hParse, rfl⟩

/-- An object whose text is built has been parsed, so that its text may be given away
as it is. -/
theorem agrees_getStr (hValid : o.Valid) :
    Agrees normalizeIPv6
      ((do return .text (← Object.getStr normalizeIPv6) : Method Value) o)
      (reading (fun u => return .text (← buildUrl u)) (o.meaning normalizeIPv6)) := by
  cases hBuilt : o.built with
  | true =>
      obtain ⟨hParse, hText⟩ := hValid.built hBuilt
      have hRun : Object.getStr normalizeIPv6 o = (.ok o.url, o) := by
        rw [Object.getStr, run_bind, run_get]
        simp [hBuilt, run_bind, run_get, run_pure]
      rw [run_bind, hRun, Object.meaning_of_parse hParse]
      dsimp only [reading, onMembers]
      rw [hText]
      exact ⟨rfl, hValid, Object.meaning_of_parse hParse⟩
  | false =>
      have hRun : Object.getStr normalizeIPv6 o =
          (do Object.buildMembers normalizeIPv6; return (← get).url : Method Bytes) o := by
        rw [Object.getStr, run_bind, run_get]
        simp [hBuilt]
      refine @agrees_onMembers normalizeIPv6 o _
        (do
          let text ← MonadExcept.ofExcept (buildUrl (← get).members)
          modify fun o => { o with url := text, built := false }
          return .text (← get).url) (.ok ()) _ hValid ?_ ?_
      · rw [run_bind, hRun, ← run_bind]
        simp only [Object.buildMembers, bind_assoc]
        rfl
      · intro o hValid hParse
        rw [run_bind, run_get]
        dsimp only
        rw [run_bind, run_ofExcept]
        cases hText : buildUrl o.members with
        | error e => exact rfl
        | ok text => exact ⟨rfl, ⟨nofun, hValid.version⟩, hParse, rfl⟩

/-- A call does what the abstract object does. -/
theorem Call.agrees (call : Call) (hValid : o.Valid) :
    Agrees normalizeIPv6 (call.method normalizeIPv6 o)
      (call.eager normalizeIPv6 (o.meaning normalizeIPv6)) := by
  cases call with
  | scheme | userInfo | host | ipVersion | port | path | query | queryAt | fragment =>
      simp only [method, eager]
      exact agrees_getMember hValid
  | str =>
      simp only [method, eager]
      exact agrees_getStr hValid
  | setStr url => exact ⟨rfl, ⟨nofun, nofun⟩, rfl⟩
  | setScheme s => exact agrees_setScheme s hValid
  | setUserInfo s =>
      exact agrees_writing hValid rfl fun o hValid hParse =>
        sets_setMember (by intro u; rfl) (by intros; rfl) _ hValid hParse
  | setHost h ipV => exact agrees_setHost h ipV hValid
  | setPort p => exact agrees_setPort p hValid
  | setPath p =>
      exact agrees_writing hValid rfl fun o hValid hParse =>
        sets_setMember (by intro u; rfl) (by intros; rfl) _ hValid hParse
  | setQuery q =>
      exact agrees_writing hValid rfl fun o hValid hParse =>
        sets_setMember (by intro u; rfl) (by intros; rfl) _ hValid hParse
  | addQuery kv => exact agrees_writing hValid rfl fun o => sets_editQuery (· ++ [kv])
  | editQuery edit => exact agrees_writing hValid rfl fun o => sets_editQuery edit
  | editQueryAt i edit =>
      refine agrees_writing hValid rfl ?_
      intro o hValid hParse
      rw [run_bind, run_get]
      dsimp only
      rw [run_bind, run_ofExcept]
      cases hAt : o.members.queryAt i with
      | error e => exact rfl
      | ok kv => exact ⟨rfl, ⟨nofun, hValid.version⟩, hParse, rfl⟩
  | setFragment f =>
      exact agrees_writing hValid rfl fun o hValid hParse =>
        sets_setMember (by intro u; rfl) (by intros; rfl) _ hValid hParse
  | clear =>
      refine ⟨rfl, ⟨fun _ => ⟨rfl, rfl⟩, fun _ => ?_⟩, rfl⟩
      show -128 ≤ (-1 : Int) ∧ (-1 : Int) < 128
      decide

/-- A setter that throws has changed nothing, whether the check failed or the text
of the object. -/
theorem onMembers_error {check : Except Error Unit} {change : Url → Except Error (Value × Url)}
    {meaning : Meaning} {e : Error} (h : (onMembers check change meaning).1 = .error e) :
    (onMembers check change meaning).2 = meaning := by
  cases check with
  | error e => rfl
  | ok _ =>
      cases meaning with
      | error e => rfl
      | ok u =>
          dsimp only [onMembers] at h ⊢
          cases hChange : change u with
          | error e => rfl
          | ok result =>
              rw [hChange] at h
              cases h

/-- A call that throws leaves what the object stands for as it was. -/
theorem Call.eager_error (call : Call) {meaning : Meaning} {e : Error}
    (h : (call.eager normalizeIPv6 meaning).1 = .error e) :
    (call.eager normalizeIPv6 meaning).2 = meaning := by
  cases call with
  | setStr url => cases h
  | clear => cases h
  | _ =>
      simp only [eager] at h ⊢
      exact onMembers_error h

end

end Url

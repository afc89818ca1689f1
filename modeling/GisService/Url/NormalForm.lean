import GisService.Url.RoundTrip

/-! What `parse_url` sets is well formed, so that `str` brings a URL into a form
in which it stays, and the query that `GetParamKey` reads from such a text. -/
namespace Url

open ByteString

variable {normalizeIPv6 : Bytes → Except Error Bytes} {url text rest : Bytes}

def lower (c : UInt8) : UInt8 := if 65 ≤ c ∧ c ≤ 90 then c ||| 0x20 else c

theorem toLower_eq (text : Bytes) : toLower text = text.map lower := rfl

/-- Lower case is final, and no character leaves its kind by it. -/
theorem lower_kinds (c : UInt8) :
    lower (lower c) = lower c ∧
    (isAlpha c = true → isAlpha (lower c) = true) ∧
    ((isAlnum c || c == 43 || c == 45 || c == 46) = true →
      (isAlnum (lower c) || lower c == 43 || lower c == 45 || lower c == 46) = true) ∧
    (isChar 0x01 c = true → isChar 0x01 (lower c) = true) ∧
    (lower c == 46 || isNum (lower c)) = (c == 46 || isNum c) := by
  revert c
  apply forall_byte
  decide +kernel

theorem lower_lower (c : UInt8) : lower (lower c) = lower c := (lower_kinds c).1

/-- Lower case is lower already. -/
theorem toLower_toLower (text : Bytes) : toLower (toLower text) = toLower text := by
  rw [toLower_eq, toLower_eq, List.map_map]
  exact List.map_congr_left fun c _ => lower_lower c

/-- A kind of characters that lower case does not leave. -/
theorem all_toLower {kind : UInt8 → Bool} (hKind : ∀ c, kind c = true → kind (lower c) = true)
    (h : text.all kind = true) : (toLower text).all kind = true := by
  rw [toLower_eq, List.all_map, List.all_eq_true]
  exact fun c hc => hKind c (List.all_eq_true.mp h c hc)

theorem isAlpha_lower (c : UInt8) : isAlpha c = true → isAlpha (lower c) = true :=
  (lower_kinds c).2.1

/-- The letters of a scheme stay letters, and its other characters stay. -/
theorem isSchemeChar_lower (c : UInt8) : (isAlnum c || c == 43 || c == 45 || c == 46) = true →
    (isAlnum (lower c) || lower c == 43 || lower c == 45 || lower c == 46) = true :=
  (lower_kinds c).2.2.1

theorem isChar_lower (c : UInt8) : isChar 0x01 c = true → isChar 0x01 (lower c) = true :=
  (lower_kinds c).2.2.2.1

/-- Digits and dots have no case. -/
theorem isIPv4Char_lower (c : UInt8) :
    (lower c == 46 || isNum (lower c)) = (c == 46 || isNum c) :=
  (lower_kinds c).2.2.2.2

/-- A scheme in lower case is one. -/
theorem isScheme_toLower (h : isScheme text = true) : isScheme (toLower text) = true := by
  cases text with
  | nil => cases h
  | cons c rest =>
      obtain ⟨hAlpha, hRest⟩ := Bool.and_eq_true_iff.mp h
      exact Bool.and_eq_true_iff.mpr
        ⟨isAlpha_lower c hAlpha, all_toLower isSchemeChar_lower hRest⟩

/-- A name does not turn into an address of version 4 by its case. -/
theorem isIPv4_toLower (text : Bytes) : isIPv4 (toLower text) = isIPv4 text := by
  have hKind : (fun c => c == 46 || isNum c) ∘ lower = fun c => c == 46 || isNum c :=
    funext isIPv4Char_lower
  rw [isIPv4, isIPv4, toLower_eq, List.length_map, List.all_map, hKind]

/-- What is found in front of a colon is a scheme. -/
theorem scanScheme_eq_ok {part : Option Bytes} (h : scanScheme url = .ok (part, rest)) :
    (∀ scheme ∈ part, isScheme scheme = true) ∧ rest ⊆ url := by
  unfold scanScheme at h
  split at h
  · next scheme after hCut =>
      split at h
      · next hScheme =>
          obtain ⟨rfl, rfl⟩ := Prod.mk.inj (Except.ok.inj h)
          refine ⟨fun s hs => Option.some.inj hs ▸ hScheme, fun c hc => ?_⟩
          have hUrl := (findFirstOf_spec (ascii ":/?#") url).1
          rw [hCut] at hUrl
          rw [← hUrl]
          simp [hc]
      · cases h
  · obtain ⟨rfl, rfl⟩ := Prod.mk.inj (Except.ok.inj h)
    exact ⟨nofun, fun c hc => hc⟩

theorem findFirstOf_subset (stops text : Bytes) :
    (findFirstOf stops text).1 ⊆ text ∧ (findFirstOf stops text).2 ⊆ text := by
  have hText := (findFirstOf_spec stops text).1
  constructor
  · intro c hc
    rw [← hText]
    exact List.mem_append_left _ hc
  · intro c hc
    rw [← hText]
    exact List.mem_append_right _ hc

/-- A user has been checked for its characters. -/
theorem scanUser_eq_ok {part : Option Bytes} (h : scanUser url text = .ok (part, rest)) :
    (∀ user ∈ part, isChars 0x05 user = true) ∧ rest ⊆ text := by
  unfold scanUser at h
  split at h
  · next user c after hCut =>
      split at h
      · next hUser =>
          obtain ⟨rfl, rfl⟩ := Prod.mk.inj (Except.ok.inj h)
          have hRest := (findFirstOf_subset [64] text).2
          rw [hCut] at hRest
          exact ⟨fun s hs => Option.some.inj hs ▸ hUser,
            fun b hb => hRest (List.mem_cons_of_mem _ hb)⟩
      · cases h
  · obtain ⟨rfl, rfl⟩ := Prod.mk.inj (Except.ok.inj h)
    exact ⟨nofun, fun c hc => hc⟩

/-- Without a bracket the host is a name or an address of version 4. -/
theorem scanHost_eq_ok {host : Bytes} {ipV : Int} (hBracket : (91 : UInt8) ∉ text)
    (h : scanHost url text = .ok (host, ipV, rest)) :
    ipV = 4 ∧ isIPv4 host = true ∨ ipV = 0 ∧ isRegName host = true ∧ isIPv4 host = false := by
  unfold scanHost at h
  split at h
  · exact absurd List.mem_cons_self hBracket
  · dsimp only at h
    split at h
    · next hAddress =>
        obtain ⟨rfl, hRest⟩ := Prod.mk.inj (Except.ok.inj h)
        exact .inl ⟨(Prod.mk.inj hRest).1.symm, hAddress⟩
    · next hOther =>
        split at h
        · next hName =>
            obtain ⟨rfl, hRest⟩ := Prod.mk.inj (Except.ok.inj h)
            exact .inr ⟨(Prod.mk.inj hRest).1.symm, hName, by simpa using hOther⟩
        · cases h

/-- A port has been checked for its digits. -/
theorem scanPort_eq_ok {part : Option Bytes} (h : scanPort url text = .ok part) :
    ∀ port ∈ part, isPort port = true := by
  unfold scanPort at h
  split at h
  · split at h
    · next hPort =>
        obtain rfl := Except.ok.inj h
        exact fun p hp => Option.some.inj hp ▸ hPort
    · cases h
  · obtain rfl := Except.ok.inj h
    nofun

/-- An authority that the program finds in a text without a bracket. -/
structure Authority.Plain (a : Authority) : Prop where
  user : ∀ user ∈ a.user, isChars 0x05 user = true
  host : a.ipV = 4 ∧ isIPv4 a.host = true ∨
    a.ipV = 0 ∧ isRegName a.host = true ∧ isIPv4 a.host = false
  port : ∀ port ∈ a.port, isPort port = true

/-- Without a bracket in the text the host is a name or an address of version 4. -/
theorem scanHierarchy_eq_ok {part : Option Authority} (hBracket : (91 : UInt8) ∉ text)
    (h : scanHierarchy url text = .ok (part, rest)) : ∀ a ∈ part, a.Plain := by
  unfold scanHierarchy at h
  split at h
  · next after =>
      dsimp only at h
      obtain ⟨a, hScan, hPair⟩ := bind_eq_ok.mp h
      obtain ⟨rfl, -⟩ := Prod.mk.inj (Except.ok.inj hPair)
      obtain ⟨⟨user, afterUser⟩, hUser, hScan⟩ := bind_eq_ok.mp hScan
      obtain ⟨⟨host, ipV, afterHost⟩, hHost, hScan⟩ := bind_eq_ok.mp hScan
      obtain ⟨port, hPort, hScan⟩ := bind_eq_ok.mp hScan
      obtain rfl := Except.ok.inj hScan
      obtain ⟨hUserChars, hAfter⟩ := scanUser_eq_ok hUser
      have hNone : (91 : UInt8) ∉ afterUser := fun hMem =>
        hBracket (List.mem_cons_of_mem _ (List.mem_cons_of_mem _
          ((findFirstOf_subset _ _).1 (hAfter hMem))))
      rintro a ⟨⟩
      exact ⟨hUserChars, scanHost_eq_ok hNone hHost, scanPort_eq_ok hPort⟩
  · obtain ⟨rfl, -⟩ := Prod.mk.inj (Except.ok.inj h)
    nofun

/-- The parts of a text without brackets are plain. -/
theorem scan_eq_ok {parts : Parts} (hBracket : (91 : UInt8) ∉ url) (h : scan url = .ok parts) :
    (∀ scheme ∈ parts.scheme, isScheme scheme = true) ∧ ∀ a ∈ parts.authority, a.Plain := by
  obtain ⟨⟨scheme, afterScheme⟩, hScheme, h⟩ := bind_eq_ok.mp h
  obtain ⟨⟨authority, afterAuthority⟩, hAuthority, h⟩ := bind_eq_ok.mp h
  obtain ⟨-, -, h⟩ := bind_eq_ok.mp h
  obtain ⟨fragment, -, h⟩ := bind_eq_ok.mp h
  obtain rfl := Except.ok.inj h
  obtain ⟨hIs, hRest⟩ := scanScheme_eq_ok hScheme
  exact ⟨hIs, scanHierarchy_eq_ok (fun hMem => hBracket (hRest hMem)) hAuthority⟩

/-- Such a host is in its form once it is unescaped and in lower case. -/
theorem decodeHost_eq_ok {ipV : Int} {host : Bytes}
    (hPlain : ipV = 4 ∧ isIPv4 text = true ∨
      ipV = 0 ∧ isRegName text = true ∧ isIPv4 text = false)
    (h : decodeHost normalizeIPv6 text ipV = .ok host) : HostForm normalizeIPv6 ipV host := by
  rcases hPlain with ⟨rfl, hAddress⟩ | ⟨rfl, hName, hOther⟩
  · rw [decodeHost, decode_plain (isIPv4_all hAddress) (by decide)] at h
    cases h
    exact .ipv4 hAddress
  · rw [decodeHost, decode_plain hName (by decide)] at h
    cases h
    exact .regName (all_toLower isChar_lower hName) (by rw [isIPv4_toLower, hOther])
      (toLower_toLower text)

/-- Decoding and normalising leave an authority in a form that stays. -/
theorem decodeAuthority_eq_ok {part : Option Authority} (hPlain : ∀ a ∈ part, a.Plain)
    {user host port : Bytes} {ipV : Int}
    (h : decodeAuthority normalizeIPv6 part = .ok (user, host, ipV, port)) :
    isChars 0x05 user = true ∧ (host ≠ [] → HostForm normalizeIPv6 ipV host) ∧
      (port = [] ∨ isPort port = true) := by
  cases part with
  | none =>
      cases h
      exact ⟨rfl, fun hHost => absurd rfl hHost, .inl rfl⟩
  | some a =>
      obtain ⟨hUserPlain, hHostPlain, hPortPlain⟩ := hPlain a rfl
      obtain ⟨user, hUser, h⟩ := bind_eq_ok.mp h
      obtain ⟨host, hHost, h⟩ := bind_eq_ok.mp h
      cases h
      refine ⟨?_, fun _ => decodeHost_eq_ok hHostPlain hHost, ?_⟩
      · cases hPart : a.user with
        | none =>
            rw [hPart] at hUser
            cases hUser
            rfl
        | some text =>
            have hText := hUserPlain text hPart
            rw [hPart, decodePart, decode_plain hText (by decide)] at hUser
            cases hUser
            exact hText
      · cases hPart : a.port with
        | none => exact .inl rfl
        | some text => exact .inr (hPortPlain text hPart)

/-- What a text without brackets is parsed to reads back. -/
theorem wellFormed_of_parse {u : Url} (hBracket : (91 : UInt8) ∉ url)
    (h : parseUrl normalizeIPv6 url = .ok u) : u.WellFormed normalizeIPv6 := by
  unfold parseUrl at h
  split at h
  · cases h
    exact ⟨.inl rfl, rfl, fun hHost => absurd rfl hHost, .inl rfl, rfl⟩
  · split at h
    · cases h
    · obtain ⟨parts, hScan, h⟩ := bind_eq_ok.mp h
      obtain ⟨hScheme, hPlain⟩ := scan_eq_ok hBracket hScan
      obtain ⟨⟨user, host, ipV, port⟩, hAuthority, h⟩ := bind_eq_ok.mp h
      obtain ⟨path, -, h⟩ := bind_eq_ok.mp h
      obtain ⟨query, -, h⟩ := bind_eq_ok.mp h
      obtain ⟨fragment, -, h⟩ := bind_eq_ok.mp h
      cases h
      obtain ⟨hUser, hHost, hPort⟩ := decodeAuthority_eq_ok hPlain hAuthority
      refine ⟨?_, hUser, hHost, hPort, normalizePath_normalizePath path⟩
      cases hPart : parts.scheme with
      | none => exact .inl rfl
      | some scheme => exact .inr ⟨isScheme_toLower (hScheme scheme hPart), toLower_toLower scheme⟩

/-- The port that is canonical is written like the one it comes from. -/
theorem portText_canonical (u : Url) : u.canonical.portText = u.portText := by
  rcases portText_cases u with ⟨hText, hPort⟩ | ⟨hText, hPort, hNonempty⟩
  · rw [hText]
    exact if_pos (.inl hPort)
  · have hOther : ¬ u.canonical.DefaultPort := by
      intro hDefault
      rw [DefaultPort, hPort] at hDefault
      exact hNonempty (hPort.symm.trans (if_pos hDefault))
    rw [hText, portText, if_neg (not_or.mpr ⟨hPort ▸ hNonempty, hOther⟩), hPort]
    rfl

/-- The same text is built from the canonical members. -/
theorem buildAuthority_canonical {u : Url} (h : buildAuthority u = .ok text) :
    buildAuthority u.canonical = .ok text := by
  rcases buildAuthority_eq_ok h with ⟨hHost, rfl⟩ | ⟨hHost, hUser, hPort, rfl, hColon⟩
  · have hIpV : u.canonical.ipV = u.ipV := if_neg hHost
    have hHostText : u.canonical.hostText = u.hostText := by
      rw [hostText, hIpV]
      rfl
    have hSame : u.canonical.host ≠ [] := hHost
    rw [buildAuthority, if_pos hSame, hHostText, portText_canonical]
    rfl
  · have hNoHost : ¬ u.canonical.host ≠ [] := not_not.mpr hHost
    have hNoUser : ¬ u.canonical.user ≠ [] := not_not.mpr hUser
    have hNoPort : ¬ u.canonical.port ≠ [] := by simp [canonical, hPort]
    rw [buildAuthority, if_neg hNoHost, if_neg hNoUser, if_neg hNoPort]
    exact if_neg hColon

/-- Canonical members have the same text. -/
theorem buildUrl_canonical {u : Url} (h : buildUrl u = .ok text) :
    buildUrl u.canonical = .ok text := by
  obtain ⟨authority, hAuthority, h⟩ := bind_eq_ok.mp h
  exact bind_eq_ok.mpr ⟨authority, buildAuthority_canonical hAuthority, h⟩

/-- `str` brings a URL without an address in brackets into a form in which it
stays, and in which it says the same. With its escapes it must not exceed the
8000 characters that `parse_url` takes. -/
theorem str_normal (normalizeIPv6 : Bytes → Except Error Bytes) {url text : Bytes}
    (hBracket : (91 : UInt8) ∉ url) (h : str normalizeIPv6 url = .ok text)
    (hLength : text.length ≤ 8000) :
    str normalizeIPv6 text = .ok text ∧
    ∃ u, parseUrl normalizeIPv6 url = .ok u ∧ parseUrl normalizeIPv6 text = .ok u.canonical := by
  obtain ⟨u, hParse, hBuild⟩ := bind_eq_ok.mp h
  have hAgain := (parseUrl_of_length hLength).trans
    (assemble_scan_build (wellFormed_of_parse hBracket hParse) hBuild)
  exact ⟨bind_eq_ok.mpr ⟨u.canonical, hAgain, buildUrl_canonical hBuild⟩, u, hParse, hAgain⟩

/-- It is what `str` makes of `HTTP://H:80/a/../b#%66`. -/
theorem str_normal_sample : str .ok (ascii "http://h/b#f") = .ok (ascii "http://h/b#f") := by
  have hStr : str .ok (ascii "HTTP://H:80/a/../b#%66") = .ok (ascii "http://h/b#f") := by
    decide +kernel
  exact (str_normal .ok (by decide +kernel) hStr (by decide +kernel)).1

/-- `query` with an index -/
def queryAt (u : Url) (i : Nat) : Except Error KeyVal :=
  match u.query[i]? with
  | some kv => .ok kv
  | none => .error (.outOfRange (ascii "Invalid Url query index (" ++ Decimal.print i ++ ascii ")"))

end Url

namespace Api

open ByteString Url

/-- `GetParamKey`, with the key instead of the reference. -/
def getParamKey (normalizeIPv6 : Bytes → Except Error Bytes) (path : Bytes) (idx : Nat) :
    Except Error Bytes := do
  let url ← parseUrl normalizeIPv6 path
  let kv ← url.queryAt idx
  return kv.key

/-- From a text that was built and that `parse_url` takes, each key of the query is
found under its index, whatever its bytes are, and no other index has one. -/
theorem getParamKey_build (normalizeIPv6 : Bytes → Except Error Bytes) {u : Url} {path : Bytes}
    (h : u.WellFormed normalizeIPv6) (hBuild : buildUrl u = .ok path) (hLength : path.length ≤ 8000) :
    (∀ idx kv, u.query[idx]? = some kv → getParamKey normalizeIPv6 path idx = .ok kv.key) ∧
    ∀ idx, u.query.length ≤ idx → getParamKey normalizeIPv6 path idx = .error (.outOfRange
      (ascii "Invalid Url query index (" ++ Decimal.print idx ++ ascii ")")) := by
  have hParse := (parseUrl_of_length hLength).trans (assemble_scan_build h hBuild)
  have hQuery : u.canonical.query = u.query := rfl
  constructor
  · intro idx kv hKey
    rw [getParamKey, hParse]
    show (u.canonical.queryAt idx >>= _) = _
    rw [queryAt, hQuery, hKey]
    rfl
  · intro idx hIdx
    rw [getParamKey, hParse]
    show (u.canonical.queryAt idx >>= _) = _
    rw [queryAt, hQuery, List.getElem?_eq_none hIdx]
    rfl

/-- The only key of a query that needs escapes. -/
theorem getParamKey_sample : getParamKey .ok sampleText 0 = .ok (ascii "k&") :=
  (getParamKey_build .ok wellFormed_sampleUrl build_sampleUrl (by decide +kernel)).1 0 _ rfl

end Api

import GisService.Url.NormalPath
import GisService.Url.Parse

/-! What is built from a URL is parsed to the same URL again. -/
namespace Url

open ByteString

variable {normalizeIPv6 : Bytes → Except Error Bytes} {mask mask' : UInt8} {text rest : Bytes}

/-- A text without stops is found as a whole in front of the first stop. -/
theorem findFirstOf_append {stops : Bytes} (hText : ∀ c ∈ text, c ∉ stops)
    (hRest : ∀ c ∈ rest.head?, c ∈ stops) : findFirstOf stops (text ++ rest) = (text, rest) := by
  have hTake : ∀ c ∈ text, decide (c ∉ stops) = true := fun c hc => decide_eq_true (hText c hc)
  rw [findFirstOf, List.span_eq_takeWhile_dropWhile, List.takeWhile_append_of_pos hTake,
    List.dropWhile_append_of_pos hTake]
  cases rest with
  | nil => simp
  | cons c rest =>
      have hStop : c ∈ stops := hRest c rfl
      simp [hStop]

theorem isChar_mono (hMask : mask &&& mask' = mask) {c : UInt8} (h : isChar mask c = true) :
    isChar mask' c = true := by
  rw [isChar, bne_iff_ne] at h ⊢
  intro hZero
  apply h
  rw [← hMask, UInt8.and_comm mask, ← UInt8.and_assoc, hZero, UInt8.zero_and]

/-- Characters of another kind do not stop the text. -/
theorem not_mem_of_all {kind : UInt8 → Bool} {stops : Bytes} (h : text.all kind = true)
    (hStops : stops.any kind = false) : ∀ c ∈ text, c ∉ stops :=
  fun c hc hStop => List.any_eq_false.mp hStops c hStop (List.all_eq_true.mp h c hc)

/-- What `encode` writes are the characters that it keeps, percent signs and
hexadecimal digits. -/
theorem isChars_encode (hMask : mask &&& mask' = mask) (hPercent : isChar mask' 37 = true)
    (hDigit : ∀ n < 16, isChar mask' (PercentCode.hexDigit n) = true) (s : Bytes) :
    isChars mask' (encode s mask) = true := by
  rw [isChars, List.all_eq_true]
  refine PercentCode.forall_mem_encode ?_ hPercent hDigit
  exact fun c _ b hWrite => isChar_mono hMask (writeChar_eq_some hWrite).2

/-- No byte is lost on the way through `encode`, as long as the percent sign is one
that it escapes. -/
theorem decode_encode (hPercent : isChar mask 37 = false) (s : Bytes) :
    decode (encode s mask) = .ok s := by
  have hReadable : PercentCode.Readable (writeChar mask) id := by
    intro c b hWrite
    obtain ⟨rfl, hc⟩ := writeChar_eq_some hWrite
    refine ⟨fun hEq => ?_, rfl⟩
    rw [hEq, hPercent] at hc
    cases hc
  rw [decode, decodeWith, encode, PercentCode.decode_encode hReadable]

theorem decode_plain {kind : UInt8 → Bool} (h : text.all kind = true)
    (hPercent : kind 37 = false) : decode text = .ok text := by
  have hMem : (37 : UInt8) ∉ text := by
    intro hc
    have hIs := List.all_eq_true.mp h 37 hc
    rw [hPercent] at hIs
    cases hIs
  rw [decode, decodeWith, PercentCode.decode_plain hMem, List.map_id]

/-- Where nothing has to be escaped, `encode` changes nothing. -/
theorem encode_plain (h : isChars mask text = true) : encode text mask = text :=
  PercentCode.encode_plain fun c hc => if_pos (List.all_eq_true.mp h c hc)

variable {escaped : Bytes}

/-- What the encodings of a query write: no character that is escaped, no other
than those of the mask. -/
theorem forall_mem_encodeQuery {P : UInt8 → Prop} (hPlus : P 43)
    (hWrite : ∀ c, c ∉ escaped → isChar 0x1F c = true → P c) (hPercent : P 37)
    (hDigit : ∀ n < 16, P (PercentCode.hexDigit n)) (s : Bytes) :
    ∀ b ∈ PercentCode.encode (writeQuery escaped 0x1F) s, P b := by
  refine PercentCode.forall_mem_encode (fun c _ b h => ?_) hPercent hDigit
  unfold writeQuery at h
  split at h
  · obtain rfl := Option.some.inj h
    exact hPlus
  · split at h
    · cases h
    · next hEscaped =>
        obtain ⟨rfl, hc⟩ := writeChar_eq_some h
        exact hWrite c hEscaped hc

/-- The three ways to write a byte of a query give characters that a query may
have. -/
theorem isChars_encodeQuery (s : Bytes) :
    isChars 0x3F (PercentCode.encode (writeQuery escaped 0x1F) s) = true := by
  rw [isChars, List.all_eq_true]
  exact forall_mem_encodeQuery (by decide) (fun c _ hc => isChar_mono (by decide) hc) (by decide)
    (by decide) s

/-- Blanks are written as pluses, and pluses are escaped. -/
theorem decodePlus_encodeQuery (hPlus : (43 : UInt8) ∈ escaped) (s : Bytes) :
    decodePlus (PercentCode.encode (writeQuery escaped 0x1F) s) = .ok s := by
  have hReadable : PercentCode.Readable (writeQuery escaped 0x1F) readPlus := by
    intro c b h
    unfold writeQuery at h
    split at h
    · next hBlank =>
        obtain rfl := Option.some.inj h
        exact ⟨by decide, hBlank ▸ rfl⟩
    · split at h
      · cases h
      · next hEscaped =>
          obtain ⟨rfl, hc⟩ := writeChar_eq_some h
          refine ⟨?_, ?_⟩
          · rintro rfl
            exact absurd hc (by decide)
          · rw [readPlus, if_neg]
            rintro rfl
            exact hEscaped hPlus
  rw [decodePlus, decodeWith, PercentCode.decode_encode hReadable]

/-- Characters that are escaped do not stop the text. -/
theorem not_mem_encodeQuery {stops : Bytes} (hStops : stops.all (· ∈ escaped) = true)
    (hPlus : (43 : UInt8) ∉ stops) (hPercent : (37 : UInt8) ∉ stops)
    (hDigit : ∀ n < 16, PercentCode.hexDigit n ∉ stops) (s : Bytes) :
    ∀ b ∈ PercentCode.encode (writeQuery escaped 0x1F) s, b ∉ stops :=
  forall_mem_encodeQuery hPlus
    (fun c hc _ hStop => hc (of_decide_eq_true (List.all_eq_true.mp hStops c hStop)))
    hPercent hDigit s

theorem checkChars_ok {what url part : Bytes} (h : isChars mask part = true) :
    checkChars mask what url part = .ok () := if_pos h

/-- The value is read up to the next separator. -/
theorem readVal_encode (url val : Bytes) (hRest : ∀ c ∈ rest.head?, c ∈ ascii ";&") :
    readVal url (encodeQueryVal val 0x1F ++ rest) = .ok (val, rest.tail?) := by
  have hStops : ∀ b ∈ encodeQueryVal val 0x1F, b ∉ ascii ";&" :=
    not_mem_encodeQuery (by decide) (by decide) (by decide) (by decide) val
  rw [readVal, findFirstOf_append hStops hRest]
  dsimp only
  rw [encodeQueryVal, checkChars_ok (isChars_encodeQuery val), decodePlus_encodeQuery (by decide)]
  rfl

/-- The text of one entry is read back, up to the separator or to the end. -/
theorem readEntry_entryText (url : Bytes) (kv : KeyVal) (hRest : ∀ c ∈ rest.head?, c = 38) :
    readEntry url (entryText kv ++ rest) = .ok (kv, rest.tail?) := by
  obtain ⟨key, val⟩ := kv
  have hStops : ∀ b ∈ encodeQueryKey key 0x1F, b ∉ ascii "=;&" :=
    not_mem_encodeQuery (by decide) (by decide) (by decide) (by decide) key
  have hKey : decodePlus (encodeQueryKey key 0x1F) = .ok key :=
    decodePlus_encodeQuery (by decide) key
  have hChars (what : Bytes) : checkChars 0x3F what url (encodeQueryKey key 0x1F) = .ok () :=
    checkChars_ok (isChars_encodeQuery key)
  by_cases hVal : val = []
  · have hStop : ∀ c ∈ rest.head?, c ∈ ascii "=;&" := fun c hc => hRest c hc ▸ by decide
    rw [entryText, hVal, if_neg (by simp), List.append_nil, readEntry,
      findFirstOf_append hStops hStop]
    dsimp only
    rw [hChars, hKey]
    cases rest with
    | nil => rfl
    | cons c rest =>
        obtain rfl := hRest c rfl
        rfl
  · have hStop : ∀ c ∈ rest.head?, c ∈ ascii ";&" := fun c hc => hRest c hc ▸ by decide
    have hText : entryText ⟨key, val⟩ ++ rest =
        encodeQueryKey key 0x1F ++ 61 :: (encodeQueryVal val 0x1F ++ rest) := by
      rw [entryText, if_pos hVal, List.append_assoc, List.append_assoc]
      rfl
    have hEqual : ∀ c ∈ (61 :: (encodeQueryVal val 0x1F ++ rest)).head?, c ∈ ascii "=;&" := by
      rintro c ⟨⟩
      decide
    rw [hText, readEntry, findFirstOf_append hStops hEqual]
    dsimp only
    rw [hChars, hKey]
    simp only [if_true, readVal_encode url val hStop]
    rfl

/-- An entry that is written at all has the one text. -/
theorem buildEntry_eq_ok {reason : Bytes} {kv : KeyVal} (h : buildEntry reason kv = .ok text) :
    text = entryText kv := by
  unfold buildEntry at h
  split at h
  · cases h
  · exact (Except.ok.inj h).symm

/-- The entries behind the first one, as they are built. -/
theorem buildEntries_cons {kv : KeyVal} {entries : List KeyVal}
    (h : buildEntries (kv :: entries) = .ok text) :
    ∃ more, buildEntries entries = .ok more ∧ text = 38 :: (entryText kv ++ more) := by
  obtain ⟨entry, hEntry, hMore⟩ := bind_eq_ok.mp h
  obtain ⟨more, hEntries, hText⟩ := bind_eq_ok.mp hMore
  obtain rfl := buildEntry_eq_ok hEntry
  exact ⟨more, hEntries, (Except.ok.inj hText).symm⟩

/-- All entries are read back, the first of them on its own and then the others. -/
theorem queryEntries_build (url : Bytes) {kv : KeyVal} {entries : List KeyVal} {more : Bytes}
    (h : buildEntries entries = .ok more) :
    queryEntries url (entryText kv ++ more) = .ok (kv :: entries) := by
  induction entries generalizing kv more with
  | nil =>
      obtain rfl := Except.ok.inj h
      have hRead : readEntry url (entryText kv ++ []) = .ok (kv, none) :=
        readEntry_entryText url kv nofun
      rw [queryEntries, hRead]
  | cons next entries ih =>
      obtain ⟨more, hMore, rfl⟩ := buildEntries_cons h
      rw [queryEntries, readEntry_entryText url kv (by simp)]
      simp only [List.tail?_cons, ih hMore]
      rfl

theorem isChars_append {front back : Bytes} (hFront : isChars mask front = true)
    (hBack : isChars mask back = true) : isChars mask (front ++ back) = true := by
  rw [isChars, List.all_append, Bool.and_eq_true]
  exact ⟨hFront, hBack⟩

theorem isChars_entryText (kv : KeyVal) : isChars 0x3F (entryText kv) = true := by
  refine isChars_append (isChars_encodeQuery kv.key) ?_
  split
  · exact isChars_append rfl (isChars_encodeQuery kv.val)
  · rfl

theorem isChars_buildEntries {entries : List KeyVal} (h : buildEntries entries = .ok text) :
    isChars 0x3F text = true := by
  induction entries generalizing text with
  | nil =>
      obtain rfl := Except.ok.inj h
      rfl
  | cons kv entries ih =>
      obtain ⟨more, hMore, rfl⟩ := buildEntries_cons h
      have hText := isChars_append (isChars_entryText kv) (ih hMore)
      show isChars 0x3F ([38] ++ (entryText kv ++ more)) = true
      exact isChars_append rfl hText

/-- An entry with a key leaves a trace, so that the loop does not stop in front of
it. -/
theorem entryText_ne_nil {kv : KeyVal} (h : kv.key ≠ []) : entryText kv ≠ [] := by
  intro hNil
  exact PercentCode.encode_ne_nil h (List.append_eq_nil_iff.mp hNil).1

/-- The query of the built text is found, up to the fragment, and read back. -/
theorem scanQuery_build (url : Bytes) {query : List KeyVal} (h : buildQuery query = .ok text)
    (hRest : ∀ c ∈ rest.head?, c = 35) :
    ∃ part, scanQuery (text ++ rest) = (part, rest) ∧ decodeQuery url part = .ok query := by
  cases query with
  | nil =>
      obtain rfl := Except.ok.inj h
      refine ⟨none, ?_, rfl⟩
      cases rest with
      | nil => rfl
      | cons c rest =>
          obtain rfl := hRest c rfl
          rfl
  | cons kv entries =>
      obtain ⟨entry, hEntry, hMore⟩ := bind_eq_ok.mp h
      obtain ⟨more, hEntries, hText⟩ := bind_eq_ok.mp hMore
      have hKey : kv.key ≠ [] := by
        intro hNil
        rw [buildEntry, if_pos hNil] at hEntry
        cases hEntry
      obtain rfl := buildEntry_eq_ok hEntry
      obtain rfl := Except.ok.inj hText
      have hChars := isChars_append (isChars_entryText kv) (isChars_buildEntries hEntries)
      have hStops : ∀ c ∈ entryText kv ++ more, c ∉ [35] := not_mem_of_all hChars (by decide)
      refine ⟨some (entryText kv ++ more), ?_, ?_⟩
      · have hCut := findFirstOf_append hStops fun c hc => List.mem_singleton.mpr (hRest c hc)
        rw [List.append_assoc, List.append_assoc, ← List.append_assoc (entryText kv)]
        show (some (findFirstOf [35] (entryText kv ++ more ++ rest)).1,
          (findFirstOf [35] (entryText kv ++ more ++ rest)).2) = _
        rw [hCut]
      · have hNonempty : entryText kv ++ more ≠ [] := by simp [entryText_ne_nil hKey]
        rw [decodeQuery, parseQuery, if_neg hNonempty, queryEntries_build url hEntries]

/-- The fragment is read back, also an empty one, of which nothing is written. -/
theorem scanFragment_build (url : Bytes) (u : Url) :
    ∃ part, scanFragment url u.fragmentText = .ok part ∧ decodePart part = .ok u.fragment := by
  unfold fragmentText
  split
  · next hNil => exact ⟨none, rfl, by rw [hNil]; rfl⟩
  · refine ⟨some (encode u.fragment 0x1F), ?_, decode_encode (by decide) _⟩
    have hChars : isChars 0x3F (encode u.fragment 0x1F) = true :=
      isChars_encode (by decide) (by decide) (by decide) _
    have hCheck : checkChars 0x3F (ascii "Fragment") url (encode u.fragment 0x1F) = .ok () :=
      checkChars_ok hChars
    exact bind_eq_ok.mpr ⟨(), hCheck, rfl⟩

theorem head_fragmentText (u : Url) : ∀ c ∈ u.fragmentText.head?, c = 35 := by
  unfold fragmentText
  split
  · nofun
  · rintro c ⟨⟩
    rfl

/-- The four characters that `parse_url` looks for first do not come before the
end of the text. -/
theorem scanScheme_none (h : (findFirstOf (ascii ":/?#") text).2.head? ≠ some 58) :
    scanScheme text = .ok (none, text) := by
  unfold scanScheme
  split
  · next hCut => exact absurd (by rw [hCut]; rfl) h
  · rfl

theorem scheme_stops (h : isScheme text = true) : ∀ c ∈ text, c ∉ ascii ":/?#" := by
  cases text with
  | nil => cases h
  | cons c rest =>
      obtain ⟨hAlpha, hRest⟩ := Bool.and_eq_true_iff.mp h
      have hAll : (c :: rest).all (fun c => isAlnum c || c == 43 || c == 45 || c == 46) = true := by
        rw [List.all_cons, hRest, isAlnum, hAlpha]
        rfl
      exact not_mem_of_all hAll (by decide)

/-- A scheme is told by the colon behind it. -/
theorem scanScheme_some (h : isScheme text = true) :
    scanScheme (text ++ 58 :: rest) = .ok (some text, rest) := by
  have hStop : ∀ c ∈ (58 :: rest : Bytes).head?, c ∈ ascii ":/?#" := by
    rintro c ⟨⟩
    decide
  rw [scanScheme, findFirstOf_append (scheme_stops h) hStop]
  exact if_pos h

theorem buildPath_eq_ok {u : Url} (h : buildPath u = .ok text) : text = encode u.path 0x0F := by
  unfold buildPath at h
  split at h
  · next hNil => rw [hNil, ← Except.ok.inj h]; rfl
  · split at h
    · cases h
    · exact (Except.ok.inj h).symm

/-- A host that is written as it was found. The last kind of literal is one of
an address version that the program has no other form for. -/
inductive HostForm (normalizeIPv6 : Bytes → Except Error Bytes) : Int → Bytes → Prop where
  | ipv4 {host : Bytes} (h : isIPv4 host = true) : HostForm normalizeIPv6 4 host
  | regName {host : Bytes} (h : isRegName host = true) (hOther : isIPv4 host = false)
      (hLower : toLower host = host) : HostForm normalizeIPv6 0 host
  | ipv6 {host : Bytes} (h : isIPv6 host = true) (hNormal : normalizeIPv6 host = .ok host) :
      HostForm normalizeIPv6 6 host
  | future {host : Bytes} {version : Nat} (h : isChars 0x05 host = true) (hVersion : version < 16)
      (hOther : version ≠ 0 ∧ version ≠ 4 ∧ version ≠ 6) : HostForm normalizeIPv6 version host

theorem isIPv4_all (h : isIPv4 text = true) : text.all (fun c => c == 46 || isNum c) = true :=
  (Bool.and_eq_true_iff.mp h).2

theorem isIPv6_all (h : isIPv6 text = true) :
    text.all (fun c => c == 58 || c == 46 || isHexdigit c) = true :=
  (Bool.and_eq_true_iff.mp h).2

theorem isPort_all (h : isPort text = true) : text.all isNum = true := by
  cases text with
  | nil => rfl
  | cons c rest =>
      obtain ⟨hFirst, hDigits⟩ := Bool.and_eq_true_iff.mp h
      have hNum := (Bool.and_eq_true_iff.mp hFirst).1
      have hAll : (if c = 48 then [c] else c :: rest.takeWhile isNum) = c :: rest :=
        eq_of_beq hDigits
      split at hAll
      · rw [← (List.cons.inj hAll).2, List.all_cons, hNum]
        rfl
      · have hRest := List.takeWhile_eq_self_iff.mp (List.cons.inj hAll).2
        rw [List.all_cons, hNum, List.all_eq_true.mpr hRest]
        rfl

/-- A version of less than 16 is written as one digit. -/
theorem hexText_of_lt {n : Nat} (hPos : n ≠ 0) (h : n < 16) : hexText n = [lowerHexDigit n] := by
  rw [hexText, if_neg hPos, Nat.digits_of_lt 16 n hPos h]
  rfl

theorem hexValue_lowerHexDigit {n : Nat} (h : n < 16) :
    PercentCode.hexValue (lowerHexDigit n) = some n := by
  revert n
  decide

theorem lowerHexDigit_stops {n : Nat} (h : n < 16) :
    lowerHexDigit n ∉ ascii "@/?#" ∧ lowerHexDigit n ∉ [93] := by
  revert n
  decide

/-- The literal of a version that has no other form. -/
theorem hostText_future {u : Url} {version : Nat} (hVersion : version < 16)
    (hOther : version ≠ 0 ∧ version ≠ 4 ∧ version ≠ 6) (hIpV : u.ipV = version) :
    u.hostText = 91 :: 118 :: lowerHexDigit version :: 46 :: (u.host ++ [93]) := by
  obtain ⟨hZero, hFour, hSix⟩ := hOther
  have hMod : ((version : Int) % 2 ^ 32).toNat = version := by omega
  rw [hostText, hIpV, if_neg (by omega), if_neg (by omega), hMod, hexText_of_lt hZero hVersion]
  rfl

theorem hostText_ipv6 {u : Url} (hIpV : u.ipV = 6) : u.hostText = 91 :: (u.host ++ [93]) := by
  rw [hostText, hIpV, if_neg (by decide), if_pos rfl]
  rfl

theorem hostText_name {u : Url} (hIpV : u.ipV = 0 ∨ u.ipV = 4) : u.hostText = u.host := if_pos hIpV

/-- A name or an address without brackets, up to the port. -/
theorem scanHost_name (url : Bytes) {kind : UInt8 → Bool} (h : text.all kind = true)
    (hBracket : kind 91 = false) (hColon : kind 58 = false) (hRest : ∀ c ∈ rest.head?, c = 58) :
    scanHost url (text ++ rest) =
      if isIPv4 text then .ok (text, 4, rest)
      else if isRegName text then .ok (text, 0, rest)
      else .error (invalid (ascii "Host address") url) := by
  have hCut : findFirstOf [58] (text ++ rest) = (text, rest) :=
    findFirstOf_append (not_mem_of_all h (by simpa using hColon))
      fun c hc => List.mem_singleton.mpr (hRest c hc)
  unfold scanHost
  split
  · next literal hText =>
      exfalso
      cases text with
      | nil => exact absurd (hRest 91 (by rw [List.nil_append] at hText; rw [hText]; rfl)) (by decide)
      | cons c text =>
          obtain ⟨rfl, -⟩ := List.cons.inj hText
          rw [List.all_cons, hBracket] at h
          cases h
  · rw [hCut]

/-- A literal of version 6 is read back up to the bracket. -/
theorem scanLiteral_ipv6 (url : Bytes) (h : isIPv6 text = true) :
    scanLiteral url (text ++ 93 :: rest) = .ok (text, 6, rest) := by
  have hAll := isIPv6_all h
  have hCut : findFirstOf [93] (text ++ 93 :: rest) = (text, 93 :: rest) :=
    findFirstOf_append (not_mem_of_all hAll (by decide)) (by simp)
  unfold scanLiteral
  rw [hCut]
  split
  · next heq =>
      obtain ⟨rfl, -⟩ := Prod.mk.inj heq
      cases hAll
  · next heq =>
      obtain ⟨rfl, hRest⟩ := Prod.mk.inj heq
      obtain ⟨-, rfl⟩ := List.cons.inj hRest
      exact if_pos h
  · next hNone => exact absurd rfl (hNone text 93 rest)

/-- A literal of another version is read back together with its version. -/
theorem scanLiteral_future (url : Bytes) {version : Nat} (h : isChars 0x05 text = true)
    (hVersion : version < 16) :
    scanLiteral url (118 :: lowerHexDigit version :: 46 :: (text ++ 93 :: rest)) =
      .ok (text, version, rest) := by
  have hText : ∀ c ∈ text, c ∉ [93] := not_mem_of_all h (by decide)
  have hFront : ∀ c ∈ 118 :: lowerHexDigit version :: 46 :: text, c ∉ [93] := by
    simp only [List.forall_mem_cons]
    exact ⟨by decide, (lowerHexDigit_stops hVersion).2, by decide, hText⟩
  have hCut : findFirstOf [93] (118 :: lowerHexDigit version :: 46 :: (text ++ 93 :: rest)) =
      (118 :: lowerHexDigit version :: 46 :: text, 93 :: rest) :=
    findFirstOf_append hFront (by simp)
  rw [scanLiteral, hCut]
  simp only [hexValue_lowerHexDigit hVersion, h]

/-- Each form of a host is read back together with its version. -/
theorem scanHost_hostText (url : Bytes) {u : Url} (h : HostForm normalizeIPv6 u.ipV u.host)
    (hRest : ∀ c ∈ rest.head?, c = 58) :
    scanHost url (u.hostText ++ rest) = .ok (u.host, u.ipV, rest) := by
  generalize hIpV : u.ipV = ipV at h
  generalize hHost : u.host = host at h
  cases h with
  | ipv4 h =>
      rw [hostText_name (.inr hIpV), hHost, scanHost_name url (isIPv4_all h) rfl rfl hRest, if_pos h]
  | regName h hOther hLower =>
      rw [hostText_name (.inl hIpV), hHost, scanHost_name url h (by decide) (by decide) hRest,
        if_neg (by simp [hOther]), if_pos h]
  | ipv6 h hNormal =>
      rw [hostText_ipv6 hIpV, hHost, List.cons_append, List.append_assoc, List.singleton_append]
      exact scanLiteral_ipv6 url h
  | future h hVersion hOther =>
      rw [hostText_future hVersion hOther hIpV, hHost]
      simp only [List.cons_append, List.append_assoc, List.nil_append]
      exact scanLiteral_future url h hVersion

/-- A host has none of the characters that end an authority, nor the one that ends a
user. -/
theorem hostText_stops {u : Url} (h : HostForm normalizeIPv6 u.ipV u.host) :
    ∀ c ∈ u.hostText, c ∉ ascii "@/?#" := by
  generalize hIpV : u.ipV = ipV at h
  generalize hHost : u.host = host at h
  cases h with
  | ipv4 h =>
      rw [hostText_name (.inr hIpV), hHost]
      exact not_mem_of_all (isIPv4_all h) (by decide)
  | regName h hOther hLower =>
      rw [hostText_name (.inl hIpV), hHost]
      exact not_mem_of_all h (by decide)
  | ipv6 h hNormal =>
      rw [hostText_ipv6 hIpV, hHost]
      simp only [List.forall_mem_cons, List.forall_mem_append]
      exact ⟨by decide, not_mem_of_all (isIPv6_all h) (by decide), by decide, nofun⟩
  | future h hVersion hOther =>
      rw [hostText_future hVersion hOther hIpV, hHost]
      simp only [List.forall_mem_cons, List.forall_mem_append]
      exact ⟨by decide, by decide, (lowerHexDigit_stops hVersion).1, by decide,
        not_mem_of_all h (by decide), by decide, nofun⟩

/-- A host is neither unescaped nor normalised any further. -/
theorem decodeHost_form {u : Url} (h : HostForm normalizeIPv6 u.ipV u.host) :
    decodeHost normalizeIPv6 u.host u.ipV = .ok u.host := by
  generalize hIpV : u.ipV = ipV at h
  generalize hHost : u.host = host at h
  cases h with
  | ipv4 h =>
      rw [decodeHost, decode_plain (isIPv4_all h) (by decide)]
      rfl
  | regName h hOther hLower =>
      rw [decodeHost, decode_plain h (by decide)]
      exact congrArg Except.ok hLower
  | ipv6 h hNormal =>
      rw [decodeHost, decode_plain (isIPv6_all h) (by decide)]
      exact hNormal
  | @future host version h hVersion hOther =>
      obtain ⟨hZero, -, hSix⟩ := hOther
      rw [decodeHost, decode_plain h (by decide)]
      show (if (version : Int) = 0 then _ else if (version : Int) = 6 then _ else _) = _
      rw [if_neg (by omega), if_neg (by omega)]
      rfl

/-- The members as the code leaves them when a text is built and parsed again:
without a port that is the scheme's own, and without a version where there is
no host. -/
def canonical (u : Url) : Url :=
  { u with
    port := if u.DefaultPort then [] else u.port
    ipV := if u.host = [] then -1 else u.ipV }

/-- Members that a text can be read back from. Of those that `parse_url` sets they
leave out the host `:` that the zero address becomes, and hosts from literals that
are written as of version 0, 4 or 6. -/
structure WellFormed (normalizeIPv6 : Bytes → Except Error Bytes) (u : Url) : Prop where
  scheme : u.scheme = [] ∨ isScheme u.scheme = true ∧ toLower u.scheme = u.scheme
  user : isChars 0x05 u.user = true
  host : u.host ≠ [] → HostForm normalizeIPv6 u.ipV u.host
  port : u.port = [] ∨ isPort u.port = true
  path : normalizePath u.path = u.path

/-- Either no port is written, and none is canonical, or it stands behind a
colon. -/
theorem portText_cases (u : Url) :
    u.portText = [] ∧ u.canonical.port = [] ∨
      u.portText = 58 :: u.port ∧ u.canonical.port = u.port ∧ u.port ≠ [] := by
  by_cases hPort : u.port = []
  · exact .inl ⟨if_pos (.inl hPort), by simp [canonical, hPort]⟩
  · by_cases hDefault : u.DefaultPort
    · exact .inl ⟨if_pos (.inr hDefault), if_pos hDefault⟩
    · exact .inr ⟨if_neg (not_or.mpr ⟨hPort, hDefault⟩), if_neg hDefault, hPort⟩

/-- The port that is read back is the canonical one. -/
theorem scanPort_portText (url : Bytes) {u : Url} (h : u.port = [] ∨ isPort u.port = true) :
    ∃ part, scanPort url u.portText = .ok part ∧ part.getD [] = u.canonical.port := by
  rcases portText_cases u with ⟨hText, hPort⟩ | ⟨hText, hPort, hNonempty⟩
  · exact ⟨none, by rw [hText]; rfl, hPort.symm⟩
  · refine ⟨some u.port, ?_, hPort.symm⟩
    rw [hText]
    exact if_pos (h.resolve_left hNonempty)

theorem portText_stops {u : Url} (h : u.port = [] ∨ isPort u.port = true) :
    ∀ c ∈ u.portText, c ∉ ascii "@/?#" := by
  rcases portText_cases u with ⟨hText, -⟩ | ⟨hText, -, hNonempty⟩
  · rw [hText]
    nofun
  · rw [hText, List.forall_mem_cons]
    exact ⟨by decide, not_mem_of_all (isPort_all (h.resolve_left hNonempty)) (by decide)⟩

theorem head_portText (u : Url) : ∀ c ∈ u.portText.head?, c = 58 := by
  rcases portText_cases u with ⟨hText, -⟩ | ⟨hText, -⟩
  · rw [hText]
    nofun
  · rw [hText]
    rintro c ⟨⟩
    rfl

/-- What stands between the two slashes and the path. -/
def authorityText (u : Url) : Bytes :=
  (if u.user ≠ [] then encode u.user 0x05 ++ ascii "@" else []) ++ u.hostText ++ u.portText

theorem authority_stops {u : Url} (h : u.WellFormed normalizeIPv6) (hHost : u.host ≠ []) :
    ∀ c ∈ u.authorityText, c ∉ ascii "/?#" := by
  have hFewer : ∀ c, c ∉ ascii "@/?#" → c ∉ ascii "/?#" := fun c hc hMem =>
    hc (List.mem_cons_of_mem _ hMem)
  have hUser : ∀ c ∈ u.user, c ∉ ascii "/?#" := not_mem_of_all h.user (by decide)
  rw [authorityText, encode_plain h.user]
  simp only [List.forall_mem_append]
  refine ⟨⟨?_, fun c hc => hFewer c (hostText_stops (h.host hHost) c hc)⟩,
    fun c hc => hFewer c (portText_stops h.port c hc)⟩
  split
  · simp only [List.forall_mem_append]
    exact ⟨hUser, fun c hc => List.mem_singleton.mp hc ▸ by decide⟩
  · nofun

/-- The user is read back, and what follows is the host and its port. -/
theorem scanUser_build (url : Bytes) {u : Url} (h : u.WellFormed normalizeIPv6)
    (hHost : u.host ≠ []) : ∃ part,
    scanUser url u.authorityText = .ok (part, u.hostText ++ u.portText) ∧
      decodePart part = .ok u.user := by
  rw [authorityText, encode_plain h.user, List.append_assoc]
  by_cases hUser : u.user = []
  · have hStops : ∀ c ∈ u.hostText ++ u.portText, c ∉ [64] := by
      intro c hc hMem
      obtain rfl := List.mem_singleton.mp hMem
      rcases List.mem_append.mp hc with hc | hc
      · exact hostText_stops (h.host hHost) 64 hc (by decide)
      · exact portText_stops h.port 64 hc (by decide)
    have hCut : findFirstOf [64] (u.hostText ++ u.portText) = (u.hostText ++ u.portText, []) := by
      have hAll : findFirstOf [64] (u.hostText ++ u.portText ++ []) =
          (u.hostText ++ u.portText, []) := findFirstOf_append hStops nofun
      rwa [List.append_nil] at hAll
    refine ⟨none, ?_, by rw [hUser]; rfl⟩
    rw [if_neg (not_not.mpr hUser), List.nil_append, scanUser, hCut]
  · have hStops : ∀ c ∈ u.user, c ∉ [64] := not_mem_of_all h.user (by decide)
    have hCut : findFirstOf [64] (u.user ++ 64 :: (u.hostText ++ u.portText)) =
        (u.user, 64 :: (u.hostText ++ u.portText)) := findFirstOf_append hStops (by simp)
    refine ⟨some u.user, ?_, decode_plain h.user (by decide)⟩
    have hText : u.user ++ ascii "@" ++ (u.hostText ++ u.portText) =
        u.user ++ 64 :: (u.hostText ++ u.portText) := List.append_assoc _ _ _
    rw [if_pos hUser, hText, scanUser, hCut]
    exact if_pos h.user

/-- The authority is found, up to the path, and read back. -/
theorem scanAuthority_build (url : Bytes) {u : Url} (h : u.WellFormed normalizeIPv6)
    (hHost : u.host ≠ []) : ∃ part, scanAuthority url u.authorityText = .ok part ∧
      decodeAuthority normalizeIPv6 (some part) =
        .ok (u.user, u.host, u.ipV, u.canonical.port) := by
  obtain ⟨user, hUser, hUserPart⟩ := scanUser_build url h hHost
  obtain ⟨port, hPort, hPortPart⟩ := scanPort_portText url h.port
  have hScan := scanHost_hostText url (h.host hHost) (head_portText u)
  refine ⟨⟨user, u.host, u.ipV, port⟩, ?_, ?_⟩
  · rw [scanAuthority, hUser]
    show (scanHost url (u.hostText ++ u.portText) >>= _) = _
    rw [hScan]
    show (scanPort url u.portText >>= _) = _
    rw [hPort]
    rfl
  · rw [decodeAuthority, hUserPart]
    show (decodeHost normalizeIPv6 u.host u.ipV >>= _) = _
    rw [decodeHost_form (h.host hHost), ← hPortPart]
    rfl

/-- An authority stands behind two slashes. Without a host there is none, and then
the path must not look like a scheme. -/
theorem buildAuthority_eq_ok {u : Url} (h : buildAuthority u = .ok text) :
    (u.host ≠ [] ∧ text = 47 :: 47 :: u.authorityText) ∨
      (u.host = [] ∧ u.user = [] ∧ u.port = [] ∧ text = [] ∧
        (findFirstOf (ascii ":/") u.path).2.head? ≠ some 58) := by
  unfold buildAuthority at h
  split at h
  · next hHost => exact .inl ⟨hHost, (Except.ok.inj h).symm⟩
  · next hHost =>
      split at h
      · cases h
      · next hUser =>
          split at h
          · cases h
          · next hPort =>
              split at h
              · cases h
              · next hColon =>
                  exact .inr ⟨not_not.mp hHost, not_not.mp hUser, not_not.mp hPort,
                    (Except.ok.inj h).symm, hColon⟩

/-- What follows the authority does not look like a part of it. -/
theorem scanHierarchy_build (url : Bytes) {u : Url} (h : u.WellFormed normalizeIPv6)
    (hBuild : buildAuthority u = .ok text) (hRest : u.host ≠ [] → ∀ c ∈ rest.head?, c ∈ ascii "/?#")
    (hSlashes : ¬ [47, 47] <+: rest) : ∃ part,
    scanHierarchy url (text ++ rest) = .ok (part, rest) ∧
      decodeAuthority normalizeIPv6 part =
        .ok (u.user, u.host, u.canonical.ipV, u.canonical.port) := by
  rcases buildAuthority_eq_ok hBuild with ⟨hHost, rfl⟩ | ⟨hHost, hUser, hPort, rfl, -⟩
  · obtain ⟨part, hScan, hPart⟩ := scanAuthority_build url h hHost
    have hIpV : u.canonical.ipV = u.ipV := if_neg hHost
    refine ⟨some part, ?_, by rw [hPart, hIpV]⟩
    have hCut := findFirstOf_append (authority_stops h hHost) (hRest hHost)
    show (scanAuthority url (findFirstOf (ascii "/?#") (u.authorityText ++ rest)).1 >>= fun a =>
      Except.ok (some a, (findFirstOf (ascii "/?#") (u.authorityText ++ rest)).2)) = _
    rw [hCut]
    show (scanAuthority url u.authorityText >>= _) = _
    rw [hScan]
    rfl
  · have hIpV : u.canonical.ipV = -1 := if_pos hHost
    have hDropped : u.canonical.port = [] := by simp [canonical, hPort]
    refine ⟨none, ?_, by rw [hUser, hHost, hIpV, hDropped]; rfl⟩
    rw [List.nil_append]
    unfold scanHierarchy
    split
    · exact absurd ⟨_, rfl⟩ hSlashes
    · rfl

/-- What `find_first_of` separates: the text in front has no stop, and the rest
starts with one. -/
theorem findFirstOf_spec (stops text : Bytes) :
    (findFirstOf stops text).1 ++ (findFirstOf stops text).2 = text ∧
      (∀ c ∈ (findFirstOf stops text).1, c ∉ stops) ∧
      ∀ c ∈ (findFirstOf stops text).2.head?, c ∈ stops := by
  rw [findFirstOf, List.span_eq_takeWhile_dropWhile]
  refine ⟨List.takeWhile_append_dropWhile, fun c hc => ?_, fun c hc => ?_⟩
  · have hTaken := List.mem_takeWhile_imp (show c ∈ text.takeWhile _ from hc)
    exact of_decide_eq_true hTaken
  · have hNot := List.head?_dropWhile_not (fun c => decide (c ∉ stops)) text
    rw [Option.mem_def.mp hc] at hNot
    exact not_not.mp (of_decide_eq_false (by simpa using hNot))

theorem encode_slash (path : Bytes) : encode (47 :: path) 0x0F = 47 :: encode path 0x0F := by
  have hWrite : writeChar 0x0F 47 = some 47 := by decide
  rw [encode, PercentCode.encode_cons, PercentCode.encode_some hWrite]
  rfl

/-- Without a scheme and a host the path does not bring a colon to the front. -/
theorem encode_path_stops {path : Bytes} (h : (findFirstOf (ascii ":/") path).2.head? ≠ some 58)
    (hRest : ∀ c ∈ rest.head?, c ∈ ascii "?#") :
    (findFirstOf (ascii ":/?#") (encode path 0x0F ++ rest)).2.head? ≠ some 58 := by
  obtain ⟨hPath, hFront, hBack⟩ := findFirstOf_spec (ascii ":/") path
  generalize (findFirstOf (ascii ":/") path).1 = front at hPath hFront
  generalize (findFirstOf (ascii ":/") path).2 = back at h hPath hBack
  subst hPath
  have hStops : ∀ c ∈ encode front 0x0F, c ∉ ascii ":/?#" := by
    refine PercentCode.forall_mem_encode (fun c hc b hWrite hStop => ?_) (by decide) (by decide)
    obtain ⟨rfl, hChar⟩ := writeChar_eq_some hWrite
    have hOther : (ascii "?#").any (isChar 0x0F) = false := by decide
    rcases List.mem_append.mp (show c ∈ ascii ":/" ++ ascii "?#" from hStop) with hPart | hPart
    · exact hFront c hc hPart
    · exact List.any_eq_false.mp hOther c hPart hChar
  have hEncoded : encode (front ++ back) 0x0F ++ rest =
      encode front 0x0F ++ (encode back 0x0F ++ rest) := by
    rw [encode, PercentCode.encode_append, List.append_assoc]
    rfl
  have hHead : ∀ c ∈ (encode back 0x0F ++ rest).head?, c ∈ ascii "/?#" := by
    cases back with
    | nil => exact fun c hc => List.mem_cons_of_mem _ (hRest c hc)
    | cons b back =>
        have hSlash : b = 47 := by
          have hMem := hBack b rfl
          have hNot : b ≠ 58 := fun hb => h (hb ▸ rfl)
          simpa [ascii, hNot] using hMem
        rw [hSlash, encode_slash]
        rintro c ⟨⟩
        decide
  rw [hEncoded, findFirstOf_append hStops fun c hc => List.mem_cons_of_mem _ (hHead c hc)]
  intro hColon
  exact absurd (hHead 58 hColon) (by decide)

/-- Encoding a path does not bring a separator to its front. -/
theorem encode_not_slashes {path : Bytes} (h : ¬ [47, 47] <+: path)
    (hRest : ∀ c ∈ rest.head?, c ∈ ascii "?#") : ¬ [47, 47] <+: encode path 0x0F ++ rest := by
  rintro ⟨tail, hTail⟩
  have hOther : (47 : UInt8) ∉ ascii "?#" := by decide
  cases hEncoded : encode path 0x0F with
  | nil =>
      rw [hEncoded, List.nil_append] at hTail
      exact hOther (hRest 47 (by rw [← hTail]; rfl))
  | cons b encoded =>
      rw [hEncoded] at hTail
      obtain ⟨rfl, hNext⟩ := List.cons.inj hTail
      cases encoded with
      | nil =>
          have hHead : 47 :: tail = rest := hNext
          exact hOther (hRest 47 (by rw [← hHead]; rfl))
      | cons b encoded =>
          obtain ⟨rfl, -⟩ := List.cons.inj hNext
          have hDecode := decode_encode (show isChar 0x0F 37 = false by decide) path
          rw [hEncoded, decode, decodeWith, PercentCode.decode_cons_of_ne (by decide),
            PercentCode.decode_cons_of_ne (by decide)] at hDecode
          cases hPlain : PercentCode.decode id encoded with
          | none =>
              rw [hPlain] at hDecode
              cases hDecode
          | some plain =>
              rw [hPlain] at hDecode
              exact h ⟨plain, Except.ok.inj hDecode⟩

/-- Behind an authority a path starts with a slash. -/
theorem head_buildPath {u : Url} (h : buildPath u = .ok text) (hHost : u.host ≠ []) :
    ∀ c ∈ text.head?, c = 47 := by
  unfold buildPath at h
  split at h
  · obtain rfl := Except.ok.inj h
    nofun
  · split at h
    · cases h
    · next hNil hStart =>
        obtain rfl := Except.ok.inj h
        obtain ⟨c, path, hPath⟩ := List.exists_cons_of_ne_nil hNil
        have hSlash : c = 47 := by simpa [hPath, hHost] using hStart
        rw [hPath, hSlash, encode_slash]
        rintro c ⟨⟩
        rfl

theorem head_buildQuery {query : List KeyVal} (h : buildQuery query = .ok text) :
    ∀ c ∈ text.head?, c = 63 := by
  cases query with
  | nil =>
      obtain rfl := Except.ok.inj h
      nofun
  | cons kv entries =>
      obtain ⟨entry, -, hMore⟩ := bind_eq_ok.mp h
      obtain ⟨more, -, hText⟩ := bind_eq_ok.mp hMore
      obtain rfl := Except.ok.inj hText
      rintro c ⟨⟩
      rfl

/-- A property of the first character of two texts. -/
theorem head_append {P : UInt8 → Prop} {front back : Bytes} (hFront : ∀ c ∈ front.head?, P c)
    (hBack : ∀ c ∈ back.head?, P c) : ∀ c ∈ (front ++ back).head?, P c := by
  cases front with
  | nil => exact hBack
  | cons b front => exact hFront

/-- The scheme is read back. Without one the rest must not look as if it had one. -/
theorem scanScheme_build {u : Url} (h : u.WellFormed normalizeIPv6)
    (hRest : u.scheme = [] → (findFirstOf (ascii ":/?#") rest).2.head? ≠ some 58) : ∃ part,
    scanScheme ((if u.scheme ≠ [] then u.scheme ++ ascii ":" else []) ++ rest) = .ok (part, rest) ∧
      toLower (part.getD []) = u.scheme := by
  by_cases hScheme : u.scheme = []
  · refine ⟨none, ?_, hScheme.symm⟩
    rw [if_neg (not_not.mpr hScheme)]
    exact scanScheme_none (hRest hScheme)
  · obtain ⟨hIs, hLower⟩ := h.scheme.resolve_left hScheme
    refine ⟨some u.scheme, ?_, hLower⟩
    rw [if_pos hScheme, List.append_assoc]
    exact scanScheme_some hIs

/-- An empty text needs no case of its own. -/
theorem parseUrl_of_length (h : text.length ≤ 8000) :
    parseUrl normalizeIPv6 text = scan text >>= assemble normalizeIPv6 text := by
  by_cases hNil : text = []
  · subst hNil
    rfl
  · rw [parseUrl, if_neg hNil, if_neg (by omega)]

/-- The parts of a text that was built, put together. -/
theorem assemble_scan_build {u : Url} {url : Bytes} (h : u.WellFormed normalizeIPv6)
    (hBuild : buildUrl u = .ok url) :
    (scan url >>= assemble normalizeIPv6 url) = .ok u.canonical := by
  obtain ⟨authority, hAuthority, hBuild⟩ := bind_eq_ok.mp hBuild
  obtain ⟨path, hPath, hBuild⟩ := bind_eq_ok.mp hBuild
  obtain ⟨query, hQuery, hBuild⟩ := bind_eq_ok.mp hBuild
  have hUrl := (Except.ok.inj hBuild).symm
  rw [List.append_assoc, List.append_assoc, List.append_assoc] at hUrl
  -- The parts are found from the back to the front.
  obtain ⟨fragmentPart, hFragment, hFragmentPart⟩ := scanFragment_build url u
  obtain ⟨queryPart, hQueryScan, hQueryPart⟩ := scanQuery_build url hQuery (head_fragmentText u)
  have hTail : ∀ c ∈ (query ++ u.fragmentText).head?, c ∈ ascii "?#" :=
    head_append (fun c hc => head_buildQuery hQuery c hc ▸ by decide)
      (fun c hc => head_fragmentText u c hc ▸ by decide)
  have hPathText := buildPath_eq_ok hPath
  have hChars : isChars 0x2F path = true := by
    rw [hPathText]
    exact isChars_encode (by decide) (by decide) (by decide) u.path
  have hCut : findFirstOf (ascii "?#") (path ++ (query ++ u.fragmentText)) =
      (path, query ++ u.fragmentText) :=
    findFirstOf_append (not_mem_of_all hChars (by decide)) hTail
  have hHead : u.host ≠ [] → ∀ c ∈ (path ++ (query ++ u.fragmentText)).head?, c ∈ ascii "/?#" :=
    fun hHost => head_append (fun c hc => head_buildPath hPath hHost c hc ▸ by decide)
      (fun c hc => List.mem_cons_of_mem _ (hTail c hc))
  have hSlashes : ¬ [47, 47] <+: path ++ (query ++ u.fragmentText) := by
    rw [hPathText]
    exact encode_not_slashes (h.path ▸ not_slashes_isPrefix u.path) hTail
  obtain ⟨authorityPart, hHierarchy, hAuthorityPart⟩ :=
    scanHierarchy_build url h hAuthority hHead hSlashes
  have hColon : (findFirstOf (ascii ":/?#")
      (authority ++ (path ++ (query ++ u.fragmentText)))).2.head? ≠ some 58 := by
    rcases buildAuthority_eq_ok hAuthority with ⟨-, rfl⟩ | ⟨-, -, -, rfl, hFirst⟩
    · have hStop : ∀ c ∈ (47 :: 47 :: u.authorityText ++
          (path ++ (query ++ u.fragmentText))).head?, c ∈ ascii ":/?#" := by
        rintro c ⟨⟩
        decide
      have hNone : ∀ c ∈ ([] : Bytes), c ∉ ascii ":/?#" := nofun
      have hFirst := findFirstOf_append hNone hStop
      rw [List.nil_append] at hFirst
      rw [hFirst]
      nofun
    · rw [List.nil_append, hPathText]
      exact encode_path_stops hFirst hTail
  obtain ⟨schemePart, hScheme, hSchemePart⟩ := scanScheme_build h fun _ => hColon
  rw [← hUrl] at hScheme
  have hScan : scan url = .ok ⟨schemePart, authorityPart, path, queryPart, fragmentPart⟩ := by
    rw [scan, hScheme]
    show (scanHierarchy url (authority ++ (path ++ (query ++ u.fragmentText))) >>= _) = _
    rw [hHierarchy]
    show (checkChars 0x2F (ascii "Path") url
      (findFirstOf (ascii "?#") (path ++ (query ++ u.fragmentText))).1 >>= _) = _
    rw [hCut, checkChars_ok hChars]
    show (scanFragment url (scanQuery (query ++ u.fragmentText)).2 >>= fun fragment =>
      Except.ok (Parts.mk schemePart authorityPart path
        (scanQuery (query ++ u.fragmentText)).1 fragment)) = _
    rw [hQueryScan, hFragment]
    rfl
  rw [hScan]
  show assemble normalizeIPv6 url _ = _
  rw [assemble, hAuthorityPart]
  show (decode path >>= _) = _
  rw [hPathText, decode_encode (by decide)]
  show (decodeQuery url queryPart >>= _) = _
  rw [hQueryPart]
  show (decodePart fragmentPart >>= _) = _
  rw [hFragmentPart]
  show Except.ok (⟨_, _, _, _, _, _, _, _⟩ : Url) = _
  rw [hSchemePart, h.path]
  rfl

/-- What is built from well-formed members is parsed to the same members, but for
a port and a version that no text shows. -/
theorem parse_build (normalizeIPv6 : Bytes → Except Error Bytes) {u : Url} {url : Bytes}
    (h : u.WellFormed normalizeIPv6) (hBuild : buildUrl u = .ok url) (hLength : url.length ≤ 8000) :
    parseUrl normalizeIPv6 url = .ok u.canonical := by
  rw [parseUrl_of_length hLength]
  exact assemble_scan_build h hBuild

/-- An address of version 6, a port that is not the scheme's own, and a query
whose key and value need their encodings. -/
def sampleUrl : Url where
  scheme := ascii "http"
  user := ascii "me"
  host := ascii "::1"
  ipV := 6
  port := ascii "8080"
  path := ascii "/a b/"
  query := [⟨ascii "k&", ascii "v +"⟩]
  fragment := ascii "#"

theorem wellFormed_sampleUrl : sampleUrl.WellFormed .ok where
  scheme := .inr ⟨by decide +kernel, by decide +kernel⟩
  user := by decide +kernel
  host _ := .ipv6 (by decide +kernel) rfl
  port := .inr (by decide +kernel)
  path := by decide +kernel

def sampleText : Bytes := ascii "http://me@[::1]:8080/a%20b/?k%26=v+%2B#%23"

theorem build_sampleUrl : buildUrl sampleUrl = .ok sampleText := rfl

theorem parse_build_sample : parseUrl .ok sampleText = .ok sampleUrl :=
  parse_build .ok wellFormed_sampleUrl build_sampleUrl (by decide +kernel)

end Url

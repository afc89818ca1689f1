import GisService.Jwt.BaseRoundTrip
import GisService.Jwt.PicojsonRoundTrip
import GisService.Jwt.Token

/-! The text of an issued token, and what verification makes of it and of its
substrings. Nothing is assumed of the HMAC. -/
namespace Jwt

open ByteString Cxx

/-- What an issued token states: a user, and two times in whole seconds. Both
times come from 64-bit clock readings. -/
structure Grant where
  username : Bytes
  iat : Int
  exp : Int
  iat_fits : -2 ^ 63 ≤ iat ∧ iat < 2 ^ 63
  exp_fits : -2 ^ 63 ≤ exp ∧ exp < 2 ^ 63
  deriving DecidableEq

namespace Grant

/-- The grant made at two readings of the clock. -/
def issue (username : Bytes) (now now' : TimePoint) : Grant where
  username
  iat := toTimeT now
  exp := toTimeT (now' + oneMinute)
  iat_fits := toTimeT_bounds now
  exp_fits := toTimeT_bounds (now' + oneMinute)

/-- The payload, with its keys in order. -/
def claims (g : Grant) : List (Bytes × Picojson.Claim) :=
  [(ascii "exp", .int64 g.exp), (ascii "iat", .int64 g.iat), (ascii "iss", .string issuer),
    (ascii "username", .string g.username)]

/-- The clock lies between the two times of the grant. -/
def Valid (g : Grant) (time : TimePoint) : Prop :=
  fromTimeT g.iat ≤ time.toInt ∧ time.toInt ≤ fromTimeT g.exp

instance (g : Grant) (time : TimePoint) : Decidable (g.Valid time) :=
  inferInstanceAs (Decidable (_ ∧ _))

end Grant

/-- The claims in the header of every issued token. -/
def issuedHeader : List (Bytes × Picojson.Claim) :=
  [(ascii "alg", .string (ascii "HS256")), (ascii "typ", .string (ascii "JWT"))]

def headerPart : Bytes := encodePart (Picojson.serialize issuedHeader)

namespace Grant

def payloadPart (g : Grant) : Bytes := encodePart (Picojson.serialize g.claims)

def signingInput (g : Grant) : Bytes := headerPart ++ dot :: g.payloadPart

def signaturePart (hmac : Bytes → Bytes) (g : Grant) : Bytes := encodePart (hmac g.signingInput)

def token (hmac : Bytes → Bytes) (g : Grant) : Bytes :=
  g.signingInput ++ dot :: g.signaturePart hmac

end Grant

variable (hmac : Bytes → Bytes)

/-- The keys that `CreateToken` sets end up in order. -/
theorem setMember_payload {α : Type} (iss iat exp username : α) :
    Picojson.setMember (ascii "username") username
      (Picojson.setMember (ascii "exp") exp
        (Picojson.setMember (ascii "iat") iat (Picojson.setMember (ascii "iss") iss []))) =
      [(ascii "exp", exp), (ascii "iat", iat), (ascii "iss", iss), (ascii "username", username)] := by
  have hIat : ascii "iat" ≠ ascii "iss" ∧ ascii "iat" < ascii "iss" := by decide
  have hExp : ascii "exp" ≠ ascii "iat" ∧ ascii "exp" < ascii "iat" := by decide
  have hUsername : ∀ key ∈ [ascii "exp", ascii "iat", ascii "iss"],
      ascii "username" ≠ key ∧ ¬ ascii "username" < key := by decide
  simp only [List.forall_mem_cons, List.not_mem_nil, false_implies, implies_true, and_true]
    at hUsername
  simp only [Picojson.setMember, hIat, hExp, hUsername, if_false, if_true]

/-- Signing a builder that sets only the type adds the algorithm's name. -/
theorem sign_eq (payload : List (Bytes × Picojson.Claim)) :
    Builder.sign hmac ⟨[(ascii "typ", .string (ascii "JWT"))], payload⟩ =
      (headerPart ++ dot :: encodePart (Picojson.serialize payload)) ++
        dot :: encodePart (hmac (headerPart ++ dot :: encodePart (Picojson.serialize payload))) := by
  have hAlg : ¬ [(ascii "typ", Picojson.Claim.string (ascii "JWT"))].any
      (·.1 = ascii "alg") = true := by decide
  have hHeader : Picojson.setMember (ascii "alg") (.string (ascii "HS256"))
      [(ascii "typ", .string (ascii "JWT"))] = issuedHeader := by decide
  rw [Builder.sign]
  dsimp only
  rw [if_neg hAlg, hHeader, headerPart]

/-- What is created is the token of the grant. -/
theorem createToken_eq (data : Bytes) (now now' : TimePoint) :
    createToken hmac data now now' = (Grant.issue data now now').token hmac := by
  have hPayload := setMember_payload (.string issuer) (.int64 (toTimeT now))
    (.int64 (toTimeT (now' + oneMinute))) (Picojson.Claim.string data)
  have hType : Picojson.setMember (ascii "typ") (Picojson.Claim.string (ascii "JWT")) [] =
      [(ascii "typ", .string (ascii "JWT"))] := rfl
  simp only [createToken, Builder.setIssuer, Builder.setType, Builder.setIssuedAt,
    Builder.setExpiresAt, Builder.setPayloadClaim, Builder.setHeaderClaim, hPayload,
    hType, sign_eq]
  simp only [Grant.token, Grant.signingInput, Grant.signaturePart, Grant.payloadPart,
    Grant.claims, Grant.issue]

theorem encodePart_eq (data : Bytes) : encodePart data = urlText (Sextet.ofBytes data) :=
  trim_encode data

/-- The dots of a token only separate its parts. -/
theorem dot_not_mem_encodePart (data : Bytes) : dot ∉ encodePart data := by
  rw [encodePart_eq]
  exact dot_not_mem_urlText _

theorem dot_not_mem_headerPart : dot ∉ headerPart := dot_not_mem_encodePart _

theorem Grant.dot_not_mem_payloadPart (g : Grant) : dot ∉ g.payloadPart := dot_not_mem_encodePart _

/-- Each part is decoded to what it encodes. -/
theorem decodePart_encodePart (data : Bytes) : decodePart (encodePart data) = .ok data :=
  decode_pad_trim_encode data

theorem headerPart_eq : headerPart = ascii "eyJhbGciOiJIUzI1NiIsInR5cCI6IkpXVCJ9" := by
  decide +kernel

/-- The payload claims as the decoder stores them. -/
def Grant.decodedClaims (g : Grant) : List (Bytes × Picojson.Value) :=
  [(ascii "exp", .int64 g.exp), (ascii "iat", .int64 g.iat), (ascii "iss", .string issuer),
    (ascii "username", .string g.username)]

def decodedHeader : List (Bytes × Picojson.Value) :=
  [(ascii "alg", .string (ascii "HS256")), (ascii "typ", .string (ascii "JWT"))]

/-- Claims are read back from their text. -/
theorem parseClaims_serialize {members : List (Bytes × Picojson.Claim)} (hNonempty : members ≠ [])
    (hFits : ∀ m ∈ members, m.2.Fits) :
    parseClaims (Picojson.serialize members) = .ok (Picojson.storeAll members []) := by
  rw [parseClaims, Picojson.parse_serialize members hNonempty hFits]
  rfl

theorem parseClaims_header : parseClaims (Picojson.serialize issuedHeader) = .ok decodedHeader := by
  rw [parseClaims_serialize (by simp [issuedHeader]) (by simp [issuedHeader, Picojson.Claim.Fits])]
  have hTyp : ascii "typ" ≠ ascii "alg" ∧ ¬ ascii "typ" < ascii "alg" := by decide
  simp only [Picojson.storeAll, issuedHeader, List.foldl_cons, List.foldl_nil, Picojson.setMember,
    hTyp, if_false, Picojson.Claim.toValue, decodedHeader]

/-- The payload of a grant says who it is for and from when until when. -/
theorem parseClaims_payload (g : Grant) :
    parseClaims (Picojson.serialize g.claims) = .ok g.decodedClaims := by
  have hFits : ∀ m ∈ g.claims, m.2.Fits := by
    simp only [Grant.claims, List.forall_mem_cons, List.not_mem_nil, false_implies, implies_true]
    exact ⟨g.exp_fits, g.iat_fits, trivial, trivial, trivial⟩
  rw [parseClaims_serialize (by simp [Grant.claims]) hFits]
  have hIat : ascii "iat" ≠ ascii "exp" ∧ ¬ ascii "iat" < ascii "exp" := by decide
  have hIss : ∀ key ∈ [ascii "exp", ascii "iat"],
      ascii "iss" ≠ key ∧ ¬ ascii "iss" < key := by decide
  have hUsername : ∀ key ∈ [ascii "exp", ascii "iat", ascii "iss"],
      ascii "username" ≠ key ∧ ¬ ascii "username" < key := by decide
  simp only [List.forall_mem_cons, List.not_mem_nil, false_implies, implies_true, and_true]
    at hIss hUsername
  simp only [Picojson.storeAll, Grant.claims, List.foldl_cons, List.foldl_nil, Picojson.setMember,
    hIat, hIss, hUsername, if_false, Picojson.Claim.toValue, Grant.decodedClaims]

namespace Grant

/-- The three fields of a text that starts with the signing input. -/
theorem signed_fields (g : Grant) (signature : Bytes) : g.signingInput ++ dot :: signature =
    headerPart ++ dot :: (g.payloadPart ++ dot :: signature) := by
  rw [signingInput, List.append_assoc, List.cons_append]

/-- Header, payload and signature, with dots between them. -/
theorem token_fields (g : Grant) :
    g.token hmac = headerPart ++ dot :: (g.payloadPart ++ dot :: g.signaturePart hmac) :=
  g.signed_fields _

theorem dot_mem_token (g : Grant) : dot ∈ g.token hmac := by
  simp [token]

/-- The payload already determines the grant. -/
theorem payloadPart_injective {g g' : Grant} (h : g.payloadPart = g'.payloadPart) : g = g' := by
  have hText : Picojson.serialize g.claims = Picojson.serialize g'.claims := by
    have hDecoded := congrArg decodePart h
    simp only [payloadPart, decodePart_encodePart] at hDecoded
    exact Except.ok.inj hDecoded
  have hParsed := congrArg parseClaims hText
  rw [parseClaims_payload, parseClaims_payload] at hParsed
  have hClaims := Except.ok.inj hParsed
  simp only [decodedClaims, List.cons.injEq, Prod.mk.injEq, Picojson.Value.int64.injEq,
    Picojson.Value.string.injEq, true_and, and_true] at hClaims
  obtain ⟨hExp, hIat, hUsername⟩ := hClaims
  cases g
  cases g'
  simp_all

/-- Different grants have different texts, whatever the HMAC does. -/
theorem token_injective {g g' : Grant} (h : g.token hmac = g'.token hmac) : g = g' := by
  rw [token_fields, token_fields] at h
  obtain ⟨-, hPayload, -⟩ := fields_unique dot_not_mem_headerPart g.dot_not_mem_payloadPart
    dot_not_mem_headerPart g'.dot_not_mem_payloadPart h
  exact payloadPart_injective hPayload

end Grant

/-- A token is cut at its first two dots. -/
theorem splitToken_fields {a b : Bytes} (ha : dot ∉ a) (hb : dot ∉ b) (c : Bytes) :
    splitToken (a ++ dot :: (b ++ dot :: c)) = .ok (a, b, c) := by
  have hFirst : (a ++ dot :: (b ++ dot :: c)).drop (a.length + 1) = b ++ dot :: c := by
    rw [List.drop_length_add_append, List.drop_succ_cons, List.drop_zero]
  have hSecond : (b ++ dot :: c).drop (b.length + 1) = c := by
    rw [List.drop_length_add_append, List.drop_succ_cons, List.drop_zero]
  have hMiddle : b.length + (a.length + 1) - a.length - 1 = b.length := by omega
  have hRest : b.length + (a.length + 1) + 1 = a.length + 1 + (b.length + 1) := by omega
  rw [splitToken, find_byte_append ha]
  dsimp only
  rw [findFrom, hFirst, find_byte_append hb]
  dsimp only [Option.map_some]
  rw [hMiddle, hRest, ← List.drop_drop, hFirst, hSecond, List.take_left, List.take_left]

/-- A token is cut without error only at two dots. -/
theorem splitToken_ok {token a b c : Bytes} (h : splitToken token = .ok (a, b, c)) :
    token = a ++ dot :: (b ++ dot :: c) ∧ dot ∉ a ∧ dot ∉ b := by
  unfold splitToken at h
  cases hFirst : find [dot] token with
  | none => simp [hFirst] at h
  | some n =>
      obtain ⟨hHead, hSplit⟩ := split_of_find_byte hFirst
      simp only [hFirst] at h
      cases hSecond : findFrom [dot] (n + 1) token with
      | none => simp [hSecond] at h
      | some m =>
          simp only [hSecond, Except.ok.injEq, Prod.mk.injEq] at h
          obtain ⟨k, hk, rfl⟩ := Option.map_eq_some_iff.mp hSecond
          obtain ⟨hMiddle, hRest⟩ := split_of_find_byte hk
          have hIndex : k + (n + 1) - n - 1 = k := by omega
          have hEnd : n + 1 + (k + 1) = k + (n + 1) + 1 := by omega
          rw [List.drop_drop, hEnd] at hRest
          rw [hIndex] at h
          obtain ⟨rfl, rfl, rfl⟩ := h
          exact ⟨by rw [← hRest]; exact hSplit, hHead, hMiddle⟩

/-- The decoder of a token with dot-free parts works part by part. -/
theorem decodeToken_fields {a b : Bytes} (ha : dot ∉ a) (hb : dot ∉ b) (c : Bytes) :
    decodeToken (a ++ dot :: (b ++ dot :: c)) = (do
      let header ← decodePart a
      let payload ← decodePart b
      let signature ← decodePart c
      let headerClaims ← parseClaims header
      let payloadClaims ← parseClaims payload
      return ⟨a, b, signature, headerClaims, payloadClaims⟩) := by
  rw [decodeToken, splitToken_fields ha hb]
  rfl

/-- A decoded token whose header and payload are those of a grant. -/
def Grant.decoded (g : Grant) (signature : Bytes) : DecodedJwt :=
  ⟨headerPart, g.payloadPart, signature, decodedHeader, g.decodedClaims⟩

/-- A token whose signature is cut is decoded, unless one digit is left over. -/
theorem decodeToken_signed (g : Grant) (digits : List (Fin 64)) :
    decodeToken (g.signingInput ++ dot :: urlText digits) =
      if digits.length % 4 = 1 then .error .runtimeError
      else .ok (g.decoded (Sextet.toBytes digits)) := by
  have hSignature : decodePart (urlText digits) = if digits.length % 4 = 1 then
      .error .runtimeError else .ok (Sextet.toBytes digits) := decode_pad_urlText digits
  rw [g.signed_fields, decodeToken_fields dot_not_mem_headerPart g.dot_not_mem_payloadPart,
    headerPart, Grant.payloadPart, decodePart_encodePart, decodePart_encodePart, hSignature]
  split
  · rfl
  · simp only [bind, Except.bind, parseClaims_header, parseClaims_payload]
    rfl

@[simp] theorem getClaim_alg :
    (getClaim (ascii "alg") decodedHeader).bind asString = .ok (ascii "HS256") := rfl

@[simp] theorem claim?_exp (g : Grant) :
    claim? (ascii "exp") g.decodedClaims = some (.int64 g.exp) := rfl

@[simp] theorem claim?_iat (g : Grant) :
    claim? (ascii "iat") g.decodedClaims = some (.int64 g.iat) := rfl

@[simp] theorem claim?_nbf (g : Grant) : claim? (ascii "nbf") g.decodedClaims = none := rfl

@[simp] theorem claim?_iss (g : Grant) :
    claim? (ascii "iss") g.decodedClaims = some (.string issuer) := rfl

/-- A time in seconds is compared with the clock. -/
theorem checkTime_int64 {name : Bytes} {jwt : DecodedJwt} {i : Int}
    (h : claim? name jwt.payloadClaims = some (.int64 i)) (late : Int → Bool) :
    checkTime name late jwt = .ok (if late (fromTimeT i) then some .tokenExpired else none) := by
  rw [checkTime, h]
  rfl

/-- A chain of checks that do not throw reports nothing exactly when each of
its checks does. -/
theorem andThen_ok (check next : Option VerifyError) :
    andThen (.ok check) (.ok next) = .ok (check.or next) := by
  cases check <;> rfl

/-- With the header and the payload of a grant in place, the verdict depends
on the signature and on the clock alone. -/
theorem verifier_decoded (time : TimePoint) (g : Grant) (signature : Bytes) :
    (verifier hmac time (g.decoded signature)).map Option.isNone =
      .ok (decide (hmac g.signingInput = signature ∧ g.Valid time)) := by
  have hIssuer : assertClaimEq (g.decoded signature) (ascii "iss") issuer = .ok none := by
    simp [assertClaimEq, Grant.decoded]
  have hNbf (late : Int → Bool) : checkTime (ascii "nbf") late (g.decoded signature) = .ok none := by
    simp [checkTime, Grant.decoded]
  have hAlg : (getClaim (ascii "alg") (g.decoded signature).headerClaims).bind asString =
      .ok (ascii "HS256") := getClaim_alg
  have hVerifier : verifier hmac time (g.decoded signature) =
      andThen (.ok (hs256Verify hmac g.signingInput signature))
        (andThen
          (checkTime (ascii "exp") (fun exp => decide (exp < time.toInt)) (g.decoded signature))
          (andThen
            (checkTime (ascii "iat") (fun iat => decide (time.toInt < iat)) (g.decoded signature))
            (.ok none))) := by
    rw [verifier, hAlg, hIssuer, hNbf]
    rfl
  rw [hVerifier, checkTime_int64 (claim?_exp g), checkTime_int64 (claim?_iat g), andThen_ok,
    andThen_ok, andThen_ok]
  change Except.ok _ = Except.ok _
  have hExp : ¬ fromTimeT g.exp < time.toInt ↔ time.toInt ≤ fromTimeT g.exp := Int.not_lt
  have hIat : ¬ time.toInt < fromTimeT g.iat ↔ fromTimeT g.iat ≤ time.toInt := Int.not_lt
  by_cases hSignature : hmac g.signingInput = signature <;>
    by_cases hLate : fromTimeT g.exp < time.toInt <;>
      by_cases hEarly : time.toInt < fromTimeT g.iat <;>
        simp_all [hs256Verify, Grant.Valid]

/-- Verification of a text that carries the header and the payload of a grant. -/
theorem verify_signed (time : TimePoint) (g : Grant) (digits : List (Fin 64)) :
    verify hmac time (g.signingInput ++ dot :: urlText digits) =
      if digits.length % 4 = 1 then .error .runtimeError
      else .ok (decide (hmac g.signingInput = Sextet.toBytes digits ∧ g.Valid time)) := by
  rw [verify, decodeToken_signed]
  split
  · rfl
  · rw [← verifier_decoded]
    rfl

/-- An issued token is accepted exactly between its two times. -/
theorem verify_token (time : TimePoint) (g : Grant) :
    verify hmac time (g.token hmac) = .ok (decide (g.Valid time)) := by
  rw [Grant.token, Grant.signaturePart, encodePart_eq, verify_signed,
    if_neg (Sextet.ofBytes_length_mod _), Sextet.toBytes_ofBytes]
  simp

/-- Of all proper endings of the header, none decodes to JSON. -/
theorem parseClaims_header_tail {front : Bytes} (hSuffix : front <:+ headerPart)
    (h : ((decodePart front).bind parseClaims).isOk = true) : front = headerPart := by
  have hAll : ∀ front ∈ headerPart.tails, front ≠ headerPart →
      ((decodePart front).bind parseClaims).isOk = false := by
    rw [headerPart_eq]
    decide +kernel
  by_contra hNe
  rw [hAll front (List.mem_tails _ _ |>.mpr hSuffix) hNe] at h
  exact Bool.false_ne_true h

/-- A substring of an issued token that decodes at all has the token's header
and payload, and the front of its signature. -/
theorem substring_decodes {token : Bytes} {g : Grant} (hInfix : token <:+: g.token hmac)
    (h : (decodeToken token).isOk = true) :
    ∃ digits, digits <+: Sextet.ofBytes (hmac g.signingInput) ∧
      token = g.signingInput ++ dot :: urlText digits := by
  obtain ⟨⟨a, b, c⟩, hSplit, -⟩ := bind_isOk_iff.mp h
  obtain ⟨rfl, ha, hb⟩ := splitToken_ok hSplit
  rw [Grant.token_fields] at hInfix
  obtain ⟨hFront, rfl, hBack⟩ := infix_fields dot_not_mem_headerPart g.dot_not_mem_payloadPart
    (dot_not_mem_encodePart _) hInfix
  have hHeader : a = headerPart := by
    rw [decodeToken_fields ha hb] at h
    obtain ⟨header, hDecoded, h⟩ := bind_isOk_iff.mp h
    obtain ⟨payload, -, h⟩ := bind_isOk_iff.mp h
    obtain ⟨signature, -, h⟩ := bind_isOk_iff.mp h
    obtain ⟨headerClaims, hClaims, -⟩ := bind_isOk_iff.mp h
    exact parseClaims_header_tail hFront (bind_isOk_iff.mpr ⟨header, hDecoded, by rw [hClaims]; rfl⟩)
  rw [encodePart_eq] at hBack
  obtain ⟨digits, hPrefix, rfl⟩ := List.prefix_map_iff.mp hBack
  exact ⟨digits, hPrefix, by rw [hHeader, g.signed_fields]⟩

/-- No issued token contains another one. -/
theorem Grant.eq_of_token_infix {g g' : Grant} (h : g'.token hmac <:+: g.token hmac) : g' = g := by
  have hDecodes : (decodeToken (g'.token hmac)).isOk = true := by
    rw [Grant.token, Grant.signaturePart, encodePart_eq, decodeToken_signed,
      if_neg (Sextet.ofBytes_length_mod _)]
    rfl
  obtain ⟨digits, -, hToken⟩ := substring_decodes hmac h hDecodes
  rw [Grant.token_fields, g.signed_fields] at hToken
  exact Grant.payloadPart_injective (fields_unique dot_not_mem_headerPart
    g'.dot_not_mem_payloadPart dot_not_mem_headerPart g.dot_not_mem_payloadPart hToken).2.1

/-- Among the substrings of an issued token only the whole token is accepted:
a shorter signature decodes to fewer bytes than the HMAC has. -/
theorem verify_substring {time : TimePoint} {token : Bytes} {g : Grant}
    (hInfix : token <:+: g.token hmac) (h : verify hmac time token = .ok true) :
    token = g.token hmac ∧ g.Valid time := by
  have hDecodes : (decodeToken token).isOk = true := by
    obtain ⟨jwt, hDecoded, -⟩ := bind_eq_ok_iff.mp h
    rw [hDecoded, isOk_ok]
  obtain ⟨digits, hPrefix, rfl⟩ := substring_decodes hmac hInfix hDecodes
  rw [verify_signed] at h
  split at h
  · simp at h
  · next hMod =>
      obtain ⟨hSignature, hValid⟩ := of_decide_eq_true (Except.ok.inj h)
      have hLength := Sextet.length_of_toBytes_length hMod (congrArg List.length hSignature.symm)
      have hDigits := hPrefix.eq_of_length hLength
      exact ⟨by rw [Grant.token, Grant.signaturePart, encodePart_eq, hDigits], hValid⟩

/-- `cut` is `token` with characters missing at the end of its signature, and
what is left of the signature has a length that base64 text can have. -/
def CutSignature (token cut : Bytes) : Prop :=
  cut <+: token ∧ cut.count dot = 2 ∧ (cut.reverse.takeWhile (· ≠ dot)).length % 4 ≠ 1

instance (token cut : Bytes) : Decidable (CutSignature token cut) :=
  inferInstanceAs (Decidable (_ ∧ _ ∧ _))

/-- The characters behind the last dot are the signature. -/
theorem signature_of_fields {front c : Bytes} (hc : dot ∉ c) :
    ((front ++ dot :: c).reverse.takeWhile (· ≠ dot)).length = c.length := by
  have hReverse : (front ++ dot :: c).reverse = c.reverse ++ dot :: front.reverse := by simp
  rw [hReverse, List.takeWhile_append_of_pos]
  · simp
  · intro b hb
    simpa using fun hDot : b = dot => hc (hDot ▸ List.mem_reverse.mp hb)

/-- What is signed has one dot. -/
theorem Grant.count_dot_signingInput (g : Grant) : g.signingInput.count dot = 1 := by
  simp [Grant.signingInput, List.count_eq_zero_of_not_mem dot_not_mem_headerPart,
    List.count_eq_zero_of_not_mem g.dot_not_mem_payloadPart]

/-- A text with header and payload of a grant and a part of the signature is a
cut of the token exactly if the part has a possible length. -/
theorem cutSignature_signed {g : Grant} {digits : List (Fin 64)}
    (hPrefix : digits <+: Sextet.ofBytes (hmac g.signingInput)) :
    CutSignature (g.token hmac) (g.signingInput ++ dot :: urlText digits) ↔
      digits.length % 4 ≠ 1 := by
  have hCut : g.signingInput ++ dot :: urlText digits <+: g.token hmac := by
    rw [Grant.token, Grant.signaturePart, encodePart_eq]
    exact List.prefix_append_right_inj _ |>.mpr
      (List.cons_prefix_cons.mpr ⟨rfl, hPrefix.map base64url.symbol⟩)
  have hCount : (g.signingInput ++ dot :: urlText digits).count dot = 2 := by
    rw [List.count_append, List.count_cons_self, g.count_dot_signingInput,
      List.count_eq_zero_of_not_mem (dot_not_mem_urlText digits)]
  rw [CutSignature, signature_of_fields (dot_not_mem_urlText digits), List.length_map]
  exact ⟨fun h => h.2.2, fun h => ⟨hCut, hCount, h⟩⟩

/-- A token that is cut in its signature is what is signed, a dot, and the first
digits. -/
theorem signed_of_cutSignature {g : Grant} {cut : Bytes} (h : CutSignature (g.token hmac) cut) :
    ∃ digits, digits <+: Sextet.ofBytes (hmac g.signingInput) ∧
      cut = g.signingInput ++ dot :: urlText digits := by
  obtain ⟨hCut, hCount, -⟩ := h
  have hLonger : g.signingInput.length < cut.length := by
    by_contra hShort
    have hFront : cut <+: g.signingInput :=
      List.prefix_of_prefix_length_le hCut (List.prefix_append _ _) (by omega)
    have := hFront.sublist.count_le dot
    rw [hCount, g.count_dot_signingInput] at this
    omega
  have hFront : g.signingInput ++ [dot] <+: cut := by
    apply List.prefix_of_prefix_length_le _ hCut (by simpa using hLonger)
    rw [Grant.token]
    exact List.prefix_append_right_inj _ |>.mpr (by simp)
  obtain ⟨rest, rfl⟩ := hFront
  rw [Grant.token, Grant.signaturePart, encodePart_eq, List.append_assoc,
    List.prefix_append_right_inj, List.singleton_append, List.cons_prefix_cons] at hCut
  obtain ⟨digits, hPrefix, rfl⟩ := List.prefix_map_iff.mp hCut.2
  exact ⟨digits, hPrefix, by simp⟩

/-- Of the parts of a token `verify` returns only for those that are cut in the
signature, to a length that base64 text can have. -/
theorem verify_isOk_iff (time : TimePoint) {token : Bytes} {g : Grant}
    (hInfix : token <:+: g.token hmac) :
    (verify hmac time token).isOk = true ↔ CutSignature (g.token hmac) token := by
  constructor
  · intro h
    obtain ⟨jwt, hDecoded, -⟩ := bind_isOk_iff.mp h
    obtain ⟨digits, hPrefix, rfl⟩ := substring_decodes hmac hInfix (by rw [hDecoded, isOk_ok])
    rw [cutSignature_signed hmac hPrefix]
    intro hMod
    rw [verify_signed, if_pos hMod] at h
    exact Bool.false_ne_true h
  · intro h
    obtain ⟨digits, hPrefix, rfl⟩ := signed_of_cutSignature hmac h
    rw [verify_signed, if_neg ((cutSignature_signed hmac hPrefix).mp h), isOk_ok]

end Jwt

import GisService.Jwt.Base
import GisService.Jwt.Picojson

/-! Issuing, decoding and verifying tokens: the parts of jwt-cpp that
`jwtoken::CreateToken` and `jwtoken::Verify` use, with the HMAC of the secret
as a parameter. -/
namespace Jwt

open ByteString Cxx

abbrev dot : UInt8 := 46

/-- `builder`: header and payload claims, each a sorted map. -/
structure Builder where
  headerClaims : List (Bytes × Picojson.Claim) := []
  payloadClaims : List (Bytes × Picojson.Claim) := []

def Builder.setHeaderClaim (b : Builder) (id : Bytes) (c : Picojson.Claim) : Builder :=
  { b with headerClaims := Picojson.setMember id c b.headerClaims }

def Builder.setPayloadClaim (b : Builder) (id : Bytes) (c : Picojson.Claim) : Builder :=
  { b with payloadClaims := Picojson.setMember id c b.payloadClaims }

def Builder.setType (b : Builder) (str : Bytes) : Builder :=
  b.setHeaderClaim (ascii "typ") (.string str)

def Builder.setIssuer (b : Builder) (str : Bytes) : Builder :=
  b.setPayloadClaim (ascii "iss") (.string str)

def Builder.setIssuedAt (b : Builder) (d : TimePoint) : Builder :=
  b.setPayloadClaim (ascii "iat") (.int64 (toTimeT d))

def Builder.setExpiresAt (b : Builder) (d : TimePoint) : Builder :=
  b.setPayloadClaim (ascii "exp") (.int64 (toTimeT d))

/-- The encoding passed to `sign` by default. -/
def encodePart (data : Bytes) : Bytes := trim base64url (encode base64url data)

/-- The decoding passed to `decoded_jwt` by default. -/
def decodePart (token : Bytes) : Except Exception Bytes := decode base64url (pad base64url token)

/-- `builder::sign` with `hs256`, whose name fills a missing `alg`. -/
def Builder.sign (hmac : Bytes → Bytes) (b : Builder) : Bytes :=
  let objHeader :=
    if b.headerClaims.any (·.1 = ascii "alg") then b.headerClaims
    else Picojson.setMember (ascii "alg") (.string (ascii "HS256")) b.headerClaims
  let header := encodePart (Picojson.serialize objHeader)
  let payload := encodePart (Picojson.serialize b.payloadClaims)
  let token := header ++ dot :: payload
  token ++ dot :: encodePart (hmac token)

/-- `ISSUER` -/
def issuer : Bytes := ascii "BLABBER"

/-- `jwtoken::CreateToken`. The clock is read once for `iat` and once for
`exp`; a token lives for one minute. -/
def createToken (hmac : Bytes → Bytes) (data : Bytes) (now now' : TimePoint) : Bytes :=
  (({} : Builder).setIssuer issuer |>.setType (ascii "JWT") |>.setIssuedAt now
    |>.setExpiresAt (now' + oneMinute)
    |>.setPayloadClaim (ascii "username") (.string data)).sign hmac

/-- `decoded_jwt`, with the members that `verify` reads. -/
structure DecodedJwt where
  headerBase64 : Bytes
  payloadBase64 : Bytes
  signature : Bytes
  headerClaims : List (Bytes × Picojson.Value)
  payloadClaims : List (Bytes × Picojson.Value)

/-- `picojson_traits::as_object` -/
def asObject : Picojson.Value → Except Exception (List (Bytes × Picojson.Value))
  | .object members => .ok members
  | _ => .error .badCast

/-- `picojson_traits::as_string` -/
def asString : Picojson.Value → Except Exception Bytes
  | .string s => .ok s
  | _ => .error .badCast

/-- `picojson_traits::as_int` -/
def asInt : Picojson.Value → Except Exception Int
  | .int64 i => .ok i
  | _ => .error .badCast

/-- `map_of_claims::parse_claims`. Text that is not JSON raises
`invalid_json_exception`, a runtime error. -/
def parseClaims (str : Bytes) : Except Exception (List (Bytes × Picojson.Value)) := do
  match ← Picojson.parse str with
  | none => throw .runtimeError
  | some val => asObject val

/-- The three parts of a token, cut at its first two dots. -/
def splitToken (token : Bytes) : Except Exception (Bytes × Bytes × Bytes) :=
  match find [dot] token with
  | none => .error .invalidArgument
  | some hdrEnd =>
      match findFrom [dot] (hdrEnd + 1) token with
      | none => .error .invalidArgument
      | some payloadEnd =>
          .ok (token.take hdrEnd, (token.drop (hdrEnd + 1)).take (payloadEnd - hdrEnd - 1),
            token.drop (payloadEnd + 1))

/-- The constructor of `decoded_jwt`. -/
def decodeToken (token : Bytes) : Except Exception DecodedJwt := do
  let (headerBase64, payloadBase64, signatureBase64) ← splitToken token
  let header ← decodePart headerBase64
  let payload ← decodePart payloadBase64
  let signature ← decodePart signatureBase64
  let headerClaims ← parseClaims header
  let payloadClaims ← parseClaims payload
  return { headerBase64, payloadBase64, signature, headerClaims, payloadClaims }

/-- `map_of_claims::has_claim` and `get_claim` in one: an absent claim is
`none`. -/
def claim? (name : Bytes) (claims : List (Bytes × Picojson.Value)) : Option Picojson.Value :=
  claims.lookup name

/-- `get_claim`, which throws `claim_not_present_exception` when absent. -/
def getClaim (name : Bytes) (claims : List (Bytes × Picojson.Value)) :
    Except Exception Picojson.Value :=
  match claim? name claims with
  | some v => .ok v
  | none => .error .outOfRange

/-- The error codes that `verifier::verify` reports without throwing. -/
inductive VerifyError where
  | invalidSignature
  | wrongAlgorithm
  | missingClaim
  | claimTypeMissmatch
  | claimValueMissmatch
  | tokenExpired
  deriving DecidableEq, Repr

/-- `hmacsha::verify` -/
def hs256Verify (hmac : Bytes → Bytes) (data signature : Bytes) : Option VerifyError :=
  if hmac data = signature then none else some .invalidSignature

/-- `assert_claim_eq` for an expected claim of string type. `get_type` has no
answer for a JSON null and throws. -/
def assertClaimEq (jwt : DecodedJwt) (key expected : Bytes) :
    Except Exception (Option VerifyError) :=
  match claim? key jwt.payloadClaims with
  | none => .ok (some .missingClaim)
  | some .null => .error .logicError
  | some (.string s) => .ok (if expected = s then none else some .claimValueMissmatch)
  | some _ => .ok (some .claimTypeMissmatch)

/-- One of the checks of `exp`, `iat` and `nbf`: an absent claim passes, a
claim that is no integer throws, and `late` says when the time is rejected. -/
def checkTime (name : Bytes) (late : Int → Bool) (jwt : DecodedJwt) :
    Except Exception (Option VerifyError) :=
  match claim? name jwt.payloadClaims with
  | none => .ok none
  | some v => do
      let date ← asInt v
      return if late (fromTimeT date) then some .tokenExpired else none

/-- Continue with the next check unless this one reported an error code. -/
def andThen (check next : Except Exception (Option VerifyError)) :
    Except Exception (Option VerifyError) := do
  match ← check with
  | some e => return some e
  | none => next

/-- `verifier::verify` as `jwtoken::Verify` configures it: one algorithm, no
leeway, and one required claim, the issuer. -/
def verifier (hmac : Bytes → Bytes) (time : TimePoint) (jwt : DecodedJwt) :
    Except Exception (Option VerifyError) := do
  let algo ← (getClaim (ascii "alg") jwt.headerClaims).bind asString
  if algo ≠ ascii "HS256" then
    return some .wrongAlgorithm
  andThen (.ok (hs256Verify hmac (jwt.headerBase64 ++ dot :: jwt.payloadBase64) jwt.signature)) <|
    andThen (checkTime (ascii "exp") (fun exp => decide (exp < time.toInt)) jwt) <|
    andThen (checkTime (ascii "iat") (fun iat => decide (time.toInt < iat)) jwt) <|
    andThen (checkTime (ascii "nbf") (fun nbf => decide (time.toInt < nbf)) jwt) <|
    assertClaimEq jwt (ascii "iss") issuer

/-- `jwtoken::Verify`. Decoding happens outside of the error-code interface,
so a token that cannot be decoded leaves this function as an exception. -/
def verify (hmac : Bytes → Bytes) (time : TimePoint) (token : Bytes) : Except Exception Bool := do
  let decoded ← decodeToken token
  let ec ← verifier hmac time decoded
  return ec.isNone

end Jwt

import GisService.Data.HttpHead

/-! Beast's requests, responses and status codes, as far as the server uses
them. -/
namespace Http

open ByteString

/-- `http::verb`. The server tells four methods apart. -/
inductive Verb where
  | get
  | head
  | post
  | options
  | other (name : Bytes)
  deriving DecidableEq

/-- `http::status`, with the codes that the server sets or tells apart. -/
inductive Status where
  | ok
  | created
  | badRequest
  | unauthorized
  | forbidden
  | notFound
  | internalServerError
  | other (code : Nat)
  deriving DecidableEq

def Status.code : Status → Nat
  | .ok => 200
  | .created => 201
  | .badRequest => 400
  | .unauthorized => 401
  | .forbidden => 403
  | .notFound => 404
  | .internalServerError => 500
  | .other code => code

/-- The letters of a header name compare without regard to case. -/
def toLower (b : UInt8) : UInt8 := if 65 ≤ b ∧ b ≤ 90 then b + 32 else b

/-- `beast::iequals` -/
def iequals (lhs rhs : Bytes) : Bool := lhs.map toLower = rhs.map toLower

/-- `http::request<http::string_body>`. Whether the connection stays open was
worked out by Beast from the version and the `Connection` field. -/
structure Request where
  method : Verb
  target : Bytes
  version : Nat := 11
  keepAlive : Bool := true
  fields : List (Bytes × Bytes) := []
  body : Bytes := []
  deriving DecidableEq

/-- `req[name]`: the value of the first field with this name, or an empty
string. -/
def Request.field (request : Request) (name : Bytes) : Bytes :=
  match request.fields.find? fun f => iequals f.1 name with
  | some f => f.2
  | none => []

/-- `http::response`, with the bytes that the serializer writes behind the
head, whatever the body type and the `Content-Length` are. -/
structure Response where
  head : HttpHead.Head
  body : Bytes
  deriving DecidableEq

/-- `prepare_payload` -/
def Response.preparePayload (response : Response) : Response :=
  { response with head := { response.head with contentLength := response.body.length } }

end Http

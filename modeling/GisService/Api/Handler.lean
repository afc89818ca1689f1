import GisService.Data.Json
import GisService.Http.Message
import GisService.Users.Storage

/-! `CAPIHandler`: the login, the check of the token, and the route methods.
What lies outside of the repository is collected in `Externals`. -/
namespace Api

open ByteString Cxx Http Users

/-- The HMAC of the secret, and Boost.JSON's `parse` and `serialize`. An error
code of the parser is `none`. -/
structure Externals where
  hmac : Bytes → Bytes
  parse : Bytes → Option Json
  serialize : Json → Bytes

/-- `StructToJson(JSToken{ token })` -/
def structToJsonToken (env : Externals) (token : Bytes) : Bytes :=
  env.serialize (.object [(ascii "token", .string token)])

/-- `StructToJson` of the `JSUserInfo` that `InfoUser` fills. -/
def structToJsonUserInfo (env : Externals) (user : UserData) : Bytes :=
  env.serialize (.object [
    (ascii "isAdmin", .bool user.isAdmin),
    (ascii "isUser", .bool user.isUser),
    (ascii "firstLogin", .bool user.firstLogin),
    (ascii "name", .string user.name),
    (ascii "position", .string user.position)])

/-- `value::as_object` -/
def asObject : Json → Except Exception (List (Bytes × Json))
  | .object members => .ok members
  | _ => .error .systemError

/-- `obj.find(key)` used as a condition. The iterator is a pointer, and the
end iterator that an absent key yields is not null either. -/
def findNotNull (_key : Bytes) (_members : List (Bytes × Json)) : Bool := true

/-- `obj.at(key)` -/
def objectAt (key : Bytes) (members : List (Bytes × Json)) : Except Exception Json :=
  match Json.member? key members with
  | some v => .ok v
  | none => .error .outOfRange

/-- `json::value_to<std::string>` -/
def valueToString : Json → Except Exception Bytes
  | .string s => .ok s
  | _ => .error .systemError

/-- `tag_invoke(value_to_tag<Credentials>)` -/
def valueToCredentials (jv : Json) : Except Exception Credentials := do
  let obj ← asObject jv
  if findNotNull (ascii "username") obj && findNotNull (ascii "password") obj then
    let username ← (objectAt (ascii "username") obj).bind valueToString
    let password ← (objectAt (ascii "password") obj).bind valueToString
    return { username, password }
  else return {}

/-- `JsonToStruct<Credentials>`. The text reaches the parser as a C string. -/
def jsonToCredentials (env : Externals) (bodyStr : Bytes) : Except Exception (Option Credentials) :=
  match env.parse (cstr bodyStr) with
  | none => .ok none
  | some bodyJson => (valueToCredentials bodyJson).map some

structure RequestContext where
  route : Bytes := []
  token : Bytes := []
  body : Bytes := []
  deriving DecidableEq

/-- The two singletons: `CUsersData` and the handler's `request_context_`. -/
structure Handler where
  users : Storage := initial
  requestContext : RequestContext := {}
  deriving DecidableEq

/-- `route_method`, with the response it is given and the singletons it
reaches. -/
abbrev RouteMethod := Externals → Bytes → Handler → Bool × Bytes × Handler

/-- `LogoutUser` -/
def logoutUser : RouteMethod := fun _ response handler =>
  (true, response,
    { handler with users := disproveUser handler.requestContext.token handler.users })

/-- `SecretTest` -/
def secretTest : RouteMethod := fun _ _ handler => (true, ascii "secret method called", handler)

/-- `InfoUser` -/
def infoUser : RouteMethod := fun env _ handler =>
  (true, structToJsonUserInfo env (getUserData handler.requestContext.token handler.users), handler)

/-- `route_methods_` -/
def routeMethods : List (Bytes × RouteMethod) :=
  [(routeLogout, logoutUser), (routeSecret, secretTest), (routeInfo, infoUser)]

/-- `ExecuteRouteMethod` -/
def executeRouteMethod (env : Externals) (response : Bytes) (handler : Handler) :
    Except Exception (Bool × Bytes × Handler) :=
  match routeMethods.lookup handler.requestContext.route with
  | some method => .ok (method env response handler)
  | none => .error .outOfRange

/-- `LoginUser` -/
def loginUser (env : Externals) (now now' : TimePoint) (body response : Bytes) (users : Storage) :
    Except Exception (Status × Bytes × Storage) := do
  match ← jsonToCredentials env body with
  | some creds =>
      match authenticateUser env.hmac creds now now' users with
      | some (token, users) => return (.ok, structToJsonToken env token, users)
      | none => return (.unauthorized, response, users)
  | none => return (.badRequest, ascii "Invalid json", users)

def pathLogin : Bytes := ascii "/api/login"

/-- The request is answered by `LoginUser`. -/
def isLogin (request : Request) : Prop := request.method = .post ∧ request.target = pathLogin

instance (request : Request) : Decidable (isLogin request) := inferInstanceAs (Decidable (_ ∧ _))

/-- `std::string token(request["Authorization"])` -/
def authorization (request : Request) : Bytes := request.field (ascii "Authorization")

/-- `HandleApiRequest`. A login reads the clock twice, and any other request
at most once. -/
def handleApiRequest (env : Externals) (now now' : TimePoint) (request : Request) (response : Bytes)
    (handler : Handler) : Except Exception (Status × Bytes × Handler) := do
  let path := request.target
  let token := authorization request
  if isLogin request then
    let (status, response, users) ← loginUser env now now' request.body response handler.users
    return (status, response, { handler with users })
  if token = [] ∨ token = ascii "undefined" then
    return (.unauthorized, response, handler)
  let (valid, users) ← verifyToken env.hmac now token handler.users
  let handler := { handler with users }
  if !valid then
    return (.unauthorized, response, handler)
  if (routeMethods.lookup path).isNone then
    return (.badRequest, ascii "Method not found: " ++ path, handler)
  if !checkAccess token path users then
    return (.forbidden, response, handler)
  let handler := { handler with requestContext := { route := path, token, body := request.body } }
  let (done, response, handler) ← executeRouteMethod env response handler
  return (if done then .ok else .internalServerError, response, handler)

end Api

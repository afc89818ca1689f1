import GisService.Jwt.TokenShape

/-! `CUsersData`: the user table with the tokens given out so far. -/
namespace Users

open ByteString Cxx

structure Credentials where
  username : Bytes := []
  password : Bytes := []
  deriving DecidableEq

/-- `CUsersData::UserData` -/
structure UserData where
  isAdmin : Bool := false
  isUser : Bool := true
  firstLogin : Bool := false
  id : UInt32 := 0
  name : Bytes := []
  position : Bytes := []
  credentials : Credentials := {}
  routes : List Bytes := []
  tokens : List Bytes := []
  deriving DecidableEq

/-- `users_` -/
abbrev Storage := List UserData

def routeSettings : Bytes := ascii "/api/settings"
def routeLogout : Bytes := ascii "/api/logout"
def routeInfo : Bytes := ascii "/api/info"
def routeSecret : Bytes := ascii "/api/secret"

/-- The first record that the constructor stores. -/
def firstUser : UserData where
  name := ascii "Ivan Ivanovich"
  position := ascii "Developer"
  credentials := { username := ascii "admin", password := ascii "123" }
  isAdmin := true
  routes := [routeSettings, routeLogout, routeInfo, routeSecret]

/-- The second record is the first one edited, so the position stays. -/
def secondUser : UserData :=
  { firstUser with
    name := ascii "Gosha"
    credentials := { username := ascii "user", password := ascii "456" }
    isAdmin := false
    routes := [routeSettings, routeLogout, routeInfo] }

/-- The constructor. -/
def initial : Storage := [firstUser, secondUser]

/-- `AuthenticateUser`. The first user with these credentials gets the token
that is returned. -/
def authenticateUser (hmac : Bytes → Bytes) (credentials : Credentials) (now now' : TimePoint) :
    Storage → Option (Bytes × Storage)
  | [] => none
  | user :: users =>
      if user.credentials.username = credentials.username ∧
          user.credentials.password = credentials.password then
        let token := Jwt.createToken hmac credentials.username now now'
        some (token, { user with tokens := user.tokens ++ [token] } :: users)
      else
        (authenticateUser hmac credentials now now' users).map fun (token, users) =>
          (token, user :: users)

/-- `DisproveUser`: the first entry that equals the token is erased. -/
def disproveUser (token : Bytes) : Storage → Storage
  | [] => []
  | user :: users =>
      if token ∈ user.tokens then { user with tokens := user.tokens.erase token } :: users
      else user :: disproveUser token users

/-- The search that `TokenExist` and `GetUserData` share: some token of the
user contains the text. -/
def holds (token : Bytes) (user : UserData) : Bool :=
  user.tokens.any fun stored => (find token stored).isSome

/-- `GetUserData` -/
def getUserData (token : Bytes) (users : Storage) : UserData :=
  (users.find? (holds token)).getD {}

/-- `TokenExist` -/
def tokenExist (token : Bytes) (users : Storage) : Bool := users.any (holds token)

/-- `CheckAccess` -/
def checkAccess (token requestingRoute : Bytes) (users : Storage) : Bool :=
  (getUserData token users).routes.any (· = requestingRoute)

/-- `VerifyToken`. A token that is found but not valid is disproved. -/
def verifyToken (hmac : Bytes → Bytes) (time : TimePoint) (token : Bytes) (users : Storage) :
    Except Exception (Bool × Storage) :=
  if tokenExist token users then do
    let valid ← Jwt.verify hmac time token
    return (valid, if valid then users else disproveUser token users)
  else .ok (false, users)

end Users

import GisService.Api.Authorisation
import GisService.Data.JsonText

/-! The decision table of `LoginUser`, and the bodies on which it departs from
that table: JSON texts that are not credentials make it throw, and a NUL hides
the rest of the body from the parser. -/
namespace Api

open ByteString Cxx Http Users

/-- The credentials in a JSON value: an object whose members `username` and
`password` are strings. -/
def credentialsIn : Json → Option Credentials
  | .object members =>
      match Json.member? (ascii "username") members, Json.member? (ascii "password") members with
      | some (.string username), some (.string password) => some { username, password }
      | _, _ => none
  | _ => none

/-- A successful login of the first user with these credentials. Its record
gets one token more, and that token is returned. -/
def LogsIn (env : Externals) (now now' : TimePoint) (credentials : Credentials) (users : Storage)
    (result : Except Exception (Status × Bytes × Storage)) : Prop :=
  ∃ before user after, users = before ++ user :: after ∧ user.credentials = credentials ∧
    (∀ other ∈ before, other.credentials ≠ credentials) ∧
    result = .ok (.ok,
      env.serialize (.object [(ascii "token",
        .string (Jwt.createToken env.hmac credentials.username now now'))]),
      before ++ { user with tokens := user.tokens ++
        [Jwt.createToken env.hmac credentials.username now now'] } :: after)

/-- The decision table for the whole body. -/
def LoginTable (env : Externals) (now now' : TimePoint) (body : Bytes) (users : Storage)
    (result : Except Exception (Status × Bytes × Storage)) : Prop :=
  match env.parse body with
  | none => result = .ok (.badRequest, ascii "Invalid json", users)
  | some v =>
      match credentialsIn v with
      | none => result = .ok (.unauthorized, [], users)
      | some credentials =>
          (∃ user ∈ users, user.credentials = credentials) ∧
              LogsIn env now now' credentials users result ∨
            (∀ user ∈ users, user.credentials ≠ credentials) ∧
              result = .ok (.unauthorized, [], users)

variable {env : Externals}

/-- The conversion succeeds exactly on values with credentials. Everything else
throws, because the presence test in front of `at` is always passed. -/
theorem valueToCredentials_eq (v : Json) :
    (∃ credentials, credentialsIn v = some credentials ∧
        valueToCredentials v = .ok credentials) ∨
      credentialsIn v = none ∧ ∃ e, valueToCredentials v = .error e := by
  cases v with
  | object members =>
      cases hName : Json.member? (ascii "username") members with
      | none =>
          refine .inr ⟨by simp [credentialsIn, hName], .outOfRange, ?_⟩
          simp [valueToCredentials, asObject, findNotNull, objectAt, hName, bind, Except.bind]
      | some name =>
          cases name with
          | string username =>
              cases hWord : Json.member? (ascii "password") members with
              | none =>
                  refine .inr ⟨by simp [credentialsIn, hName, hWord], .outOfRange, ?_⟩
                  simp [valueToCredentials, asObject, findNotNull, objectAt, hName, hWord,
                    valueToString, bind, Except.bind]
              | some word =>
                  cases word with
                  | string password =>
                      refine .inl ⟨{ username, password }, by simp [credentialsIn, hName, hWord], ?_⟩
                      simp [valueToCredentials, asObject, findNotNull, objectAt, hName, hWord,
                        valueToString, bind, Except.bind, pure, Except.pure]
                  | null | bool | number | array | object =>
                      refine .inr ⟨by simp [credentialsIn, hName, hWord], .systemError, ?_⟩
                      simp [valueToCredentials, asObject, findNotNull, objectAt, hName, hWord,
                        valueToString, bind, Except.bind]
          | null | bool | number | array | object =>
              refine .inr ⟨by simp [credentialsIn, hName], .systemError, ?_⟩
              simp [valueToCredentials, asObject, findNotNull, objectAt, hName, valueToString, bind,
                Except.bind]
  | null | bool | number | string | array => exact .inr ⟨rfl, .systemError, rfl⟩

/-- A body that is not JSON is answered as such. -/
theorem loginUser_invalid {body : Bytes} (h : env.parse (cstr body) = none) (now now' : TimePoint)
    (users : Storage) :
    loginUser env now now' body [] users = .ok (.badRequest, ascii "Invalid json", users) := by
  simp [loginUser, jsonToCredentials, h, bind, Except.bind, pure, Except.pure]

/-- A body that is JSON but has no credentials makes the login throw. -/
theorem loginUser_throws {body : Bytes} {v : Json} (h : env.parse (cstr body) = some v)
    (hNone : credentialsIn v = none) (now now' : TimePoint) (users : Storage) :
    ∃ e, loginUser env now now' body [] users = .error e := by
  rcases valueToCredentials_eq v with ⟨credentials, hSome, -⟩ | ⟨-, e, hError⟩
  · simp [hNone] at hSome
  · exact ⟨e, by simp [loginUser, jsonToCredentials, h, hError, Except.map, bind, Except.bind]⟩

/-- With credentials in front of the first NUL the answer is that of
`AuthenticateUser`. -/
theorem loginUser_credentials {body : Bytes} {v : Json} (h : env.parse (cstr body) = some v)
    {credentials : Credentials} (hSome : credentialsIn v = some credentials)
    (now now' : TimePoint) (users : Storage) :
    (∃ user ∈ users, user.credentials = credentials) ∧
        LogsIn env now now' credentials users (loginUser env now now' body [] users) ∨
      (∀ user ∈ users, user.credentials ≠ credentials) ∧
        loginUser env now now' body [] users = .ok (.unauthorized, [], users) := by
  have hBody : jsonToCredentials env body = .ok (some credentials) := by
    rcases valueToCredentials_eq v with ⟨other, hOther, hOk⟩ | ⟨hNone, -⟩
    · obtain rfl := Option.some.inj (hSome.symm.trans hOther)
      simp [jsonToCredentials, h, hOk, Except.map]
    · simp [hSome] at hNone
  cases hUser : authenticateUser env.hmac credentials now now' users with
  | none =>
      refine .inr ⟨authenticateUser_eq_none hUser, ?_⟩
      simp [loginUser, hBody, hUser, bind, Except.bind, pure, Except.pure]
  | some result =>
      obtain ⟨token, users'⟩ := result
      obtain ⟨rfl, before, user, after, rfl, hCredentials, hBefore, rfl⟩ :=
        authenticateUser_eq_some hUser
      refine .inl ⟨⟨user, by simp, hCredentials⟩, before, user, after, rfl, hCredentials, hBefore,
        ?_⟩
      simp [loginUser, hBody, hUser, structToJsonToken, bind, Except.bind, pure, Except.pure]

/-- The body is read as the table reads it: it has no NUL and is either no JSON
text or one with credentials, or it has a NUL and the text in front of that is
no JSON text. -/
def ReadsWhole (env : Externals) (body : Bytes) : Prop :=
  (0 : UInt8) ∉ body ∧ (∀ v, env.parse body = some v → (credentialsIn v).isSome = true) ∨
    (0 : UInt8) ∈ body ∧ env.parse (cstr body) = none

/-- `LoginUser` follows its decision table exactly on these bodies, whatever the
user table is. JSON texts are taken to contain no NUL, which the standard
rules out. -/
theorem loginUser_table_iff (env : Externals) (now now' : TimePoint) (body : Bytes) (users : Storage)
    (hText : ∀ text v, env.parse text = some v → (0 : UInt8) ∉ text) :
    LoginTable env now now' body users (loginUser env now now' body [] users) ↔
      ReadsWhole env body := by
  by_cases hZero : (0 : UInt8) ∈ body
  · have hWhole : env.parse body = none := by
      cases hParse : env.parse body with
      | none => rfl
      | some v => exact absurd hZero (hText body v hParse)
    simp only [LoginTable, ReadsWhole, hWhole, hZero, not_true_eq_false, false_and, true_and, false_or]
    constructor
    · intro hTable
      cases hPrefix : env.parse (cstr body) with
      | none => rfl
      | some v =>
          cases hIn : credentialsIn v with
          | none =>
              obtain ⟨e, hError⟩ := loginUser_throws hPrefix hIn now now' users
              simp [hError] at hTable
          | some credentials =>
              rcases loginUser_credentials hPrefix hIn now now' users with
                ⟨-, before, user, after, -, -, -, hOk⟩ | ⟨-, hDenied⟩
              · simp [hOk] at hTable
              · simp [hDenied] at hTable
    · intro hPrefix
      exact loginUser_invalid hPrefix now now' users
  · have hSame : cstr body = body := cstr_eq_self hZero
    simp only [LoginTable, ReadsWhole, hZero, not_false_eq_true, true_and, false_and, or_false]
    cases hParse : env.parse body with
    | none =>
        simp only [reduceCtorEq, false_implies, implies_true, iff_true]
        exact loginUser_invalid (by rw [hSame, hParse]) now now' users
    | some v =>
        have hPrefix : env.parse (cstr body) = some v := by rw [hSame, hParse]
        simp only [Option.some.injEq, forall_eq']
        cases hIn : credentialsIn v with
        | none =>
            obtain ⟨e, hError⟩ := loginUser_throws hPrefix hIn now now' users
            simp [hError]
        | some credentials =>
            simp only [Option.isSome_some, iff_true]
            exact loginUser_credentials hPrefix hIn now now' users

/-- A body with the credentials of the second user, who gets a token. -/
theorem loginUser_table_sample :
    (LoginTable sampleEnv 0 0 sampleLogin.request.body initial
      (loginUser sampleEnv 0 0 sampleLogin.request.body [] initial) ↔
      ReadsWhole sampleEnv sampleLogin.request.body) ∧
    ReadsWhole sampleEnv sampleLogin.request.body :=
  ⟨loginUser_table_iff sampleEnv 0 0 sampleLogin.request.body initial
      fun _ _ => Json.zero_not_mem_of_parse,
    .inl ⟨by decide +kernel, by
      intro v hParse
      have hBody : (sampleEnv.parse sampleLogin.request.body).all
          (fun v => (credentialsIn v).isSome) = true := by decide +kernel
      rw [hParse] at hBody
      exact hBody⟩⟩

/-- An empty object makes `LoginUser` throw. -/
theorem loginUser_throws_on_empty_object :
    ¬ LoginTable sampleEnv 0 0 (ascii "\x7b\x7d") initial
      (loginUser sampleEnv 0 0 (ascii "\x7b\x7d") [] initial) := by
  have hParse : sampleEnv.parse (ascii "\x7b\x7d") = some (.object []) := rfl
  have hPrefix : sampleEnv.parse (cstr (ascii "\x7b\x7d")) = some (.object []) := rfl
  obtain ⟨e, hError⟩ := loginUser_throws hPrefix rfl 0 0 initial
  rw [LoginTable, hParse, hError]
  simp [credentialsIn, Json.member?]

end Api

import GisService.Api.Outcome
import GisService.Data.Runs

/-! Runs of requests, and the invariant that ties the token storage to the
logins of the run. -/
namespace Api

open ByteString Cxx Http Users

/-- A call together with the reply it got. -/
structure Event where
  call : Call
  reply : Reply
  deriving DecidableEq

/-- The request that the event answered. -/
abbrev Event.request (e : Event) : Request := e.call.request

abbrev Event.token (e : Event) : Bytes := e.call.token

def Step (env : Externals) (handler : Handler) (e : Event) (handler' : Handler) : Prop :=
  handle env e.call handler = (handler', e.reply)

/-- A run from the constructors' state, by any clients in any order. -/
abbrev Run (env : Externals) : List Event → Handler → Prop := Runs (Step env) {}

variable {env : Externals}

/-- A step of the handler has one of the outcomes. -/
theorem Step.outcome {handler handler' : Handler} {e : Event} (h : Step env handler e handler') :
    Outcome env e.call handler handler' e.reply := by
  have hOutcome := handle_outcome env e.call handler
  rwa [h] at hOutcome

theorem step_handle (env : Externals) (call : Call) (handler : Handler) :
    Step env handler ⟨call, (handle env call handler).2⟩ (handle env call handler).1 := rfl

/-- The event is a successful login with these credentials that returned this
token. -/
structure LoggedIn (env : Externals) (credentials : Credentials) (token : Bytes) (e : Event) :
    Prop where
  login : isLogin e.request
  body : jsonToCredentials env e.request.body = .ok (some credentials)
  token_eq : token = Jwt.createToken env.hmac credentials.username e.call.now e.call.now'
  reply : e.reply = .ok (.ok, env.serialize (.object [(ascii "token", .string token)]))

/-- What the token of a login states. -/
def Event.grant (e : Event) (credentials : Credentials) : Jwt.Grant :=
  .issue credentials.username e.call.now e.call.now'

/-- The token of a login is that of its grant. -/
theorem LoggedIn.token_grant {credentials : Credentials} {token : Bytes} {e : Event}
    (h : LoggedIn env credentials token e) : token = (e.grant credentials).token env.hmac := by
  rw [h.token_eq, Jwt.createToken_eq]
  rfl

/-- No request changes a record apart from its tokens, or takes away a token
that it does not carry. -/
theorem Outcome.kept {call : Call} {handler handler' : Handler} {reply : Reply}
    (h : Outcome env call handler handler' reply) :
    Kept call.token handler.users handler'.users := by
  cases h with
  | loggedIn hLogin hBody hUser => exact authenticateUser_kept _ hUser
  | wrongCredentials => exact .refl _ _
  | invalidJson => exact .refl _ _
  | loginThrew => exact .refl _ _
  | noToken => exact .refl _ _
  | unknownToken => exact .refl _ _
  | verifyThrew => exact .refl _ _
  | notValid => exact disproveUser_kept _ _
  | noMethod => exact .refl _ _
  | noAccess => exact .refl _ _
  | executed hAdmitted hPath hAccess hMethod =>
      rcases routeMethod_users hPath hMethod with ⟨-, hUsers⟩ | ⟨-, hUsers⟩
      · rw [hUsers]
        exact .refl _ _
      · rw [hUsers]
        exact disproveUser_kept _ _

/-- A relation between credentials and tokens survives a request if it holds of
the token that a login adds. -/
theorem Outcome.allTokens {call : Call} {handler handler' : Handler} {reply : Reply}
    (h : Outcome env call handler handler' reply) {P : Credentials → Bytes → Prop}
    (hTokens : AllTokens P handler.users)
    (hNew : ∀ credentials token, LoggedIn env credentials token ⟨call, reply⟩ →
      P credentials token) :
    AllTokens P handler'.users := by
  cases h with
  | loggedIn hLogin hBody hUser =>
      exact hTokens.authenticateUser hUser
        (hNew _ _ ⟨hLogin, hBody, (authenticateUser_eq_some hUser).1, rfl⟩)
  | wrongCredentials => exact hTokens
  | invalidJson => exact hTokens
  | loginThrew => exact hTokens
  | noToken => exact hTokens
  | unknownToken => exact hTokens
  | verifyThrew => exact hTokens
  | notValid => exact hTokens.disproveUser _
  | noMethod => exact hTokens
  | noAccess => exact hTokens
  | executed hAdmitted hPath hAccess hMethod =>
      rcases routeMethod_users hPath hMethod with ⟨-, hUsers⟩ | ⟨-, hUsers⟩
      · rw [hUsers]
        exact hTokens
      · rw [hUsers]
        exact hTokens.disproveUser _

/-- The records are those of the constructor but for their tokens, and every
stored token was returned to an earlier login of its user. -/
structure Consistent (env : Externals) (events : List Event) (handler : Handler) : Prop where
  profiles : handler.users.map UserData.profile = initial.map UserData.profile
  issued : AllTokens (fun credentials token => ∃ e ∈ events, LoggedIn env credentials token e)
    handler.users

/-- The invariant holds in every state that is reached. -/
theorem Run.consistent {events : List Event} {handler : Handler} (run : Run env events handler) :
    Consistent env events handler := by
  refine run.history (Consistent env) ⟨rfl, ?_⟩ ?_
  · intro user hUser token hToken
    simp only [initial, List.mem_cons, List.not_mem_nil, or_false] at hUser
    rcases hUser with rfl | rfl <;> simp [firstUser, secondUser] at hToken
  · intro events middle e finish hConsistent hStep
    refine ⟨hStep.outcome.kept.profiles.trans hConsistent.profiles, hStep.outcome.allTokens ?_ ?_⟩
    · intro user hUser token hToken
      obtain ⟨login, hMem, hLogin⟩ := hConsistent.issued user hUser token hToken
      exact ⟨login, List.mem_append_left _ hMem, hLogin⟩
    · intro credentials token hLogin
      exact ⟨e, by simp, hLogin⟩

/-- What a run stores was issued to the account that stores it. -/
theorem Consistent.owned {events : List Event} {handler : Handler}
    (h : Consistent env events handler) : Owned env.hmac handler.users := by
  refine ⟨?_, ?_⟩
  · have hUsernames (users : Storage) : users.map (fun user => user.credentials.username) =
        (users.map UserData.profile).map fun user => user.credentials.username := by
      rw [List.map_map]
      rfl
    rw [hUsernames, h.profiles]
    decide
  · intro user hUser token hToken
    obtain ⟨e, -, hLogin⟩ := h.issued user hUser token hToken
    exact ⟨e.grant user.credentials, rfl, hLogin.token_grant⟩

theorem Run.owned {events : List Event} {handler : Handler} (run : Run env events handler) :
    Owned env.hmac handler.users :=
  run.consistent.owned

end Api

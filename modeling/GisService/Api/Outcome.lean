import GisService.Api.Handler
import GisService.Users.Ownership

/-! Everything that one request can do. Each of the properties of sessions is a
case analysis over `Outcome`. -/
namespace Api

open ByteString Cxx Http Users

/-- A call of `HandleApiRequest`, with the readings of the clock that it takes.
Only a login takes the second one. -/
structure Call where
  request : Request
  now : TimePoint
  now' : TimePoint
  deriving DecidableEq

/-- A status with the response text, or an exception. -/
abbrev Reply := Except Exception (Status × Bytes)

/-- One call on the singletons, with an empty response string as
`handle_request` passes it. No exception leaves a partial change behind. -/
def handle (env : Externals) (call : Call) (handler : Handler) : Handler × Reply :=
  match handleApiRequest env call.now call.now' call.request [] handler with
  | .ok (status, response, handler) => (handler, .ok (status, response))
  | .error e => (handler, .error e)

/-- The token of a call. -/
abbrev Call.token (call : Call) : Bytes := authorization call.request

/-- The token passed the checks in front of the route methods. -/
structure Admitted (env : Externals) (call : Call) (handler : Handler) : Prop where
  notLogin : ¬ isLogin call.request
  present : ¬ (call.token = [] ∨ call.token = ascii "undefined")
  exist : tokenExist call.token handler.users = true
  verified : Jwt.verify env.hmac call.now call.token = .ok true

/-- The context that an admitted call leaves behind. -/
def Call.context (call : Call) : RequestContext where
  route := call.request.target
  token := call.token
  body := call.request.body

/-- The ways a call can end, with the state and the reply it leaves. -/
inductive Outcome (env : Externals) (call : Call) (handler : Handler) : Handler → Reply → Prop where
  | loggedIn {credentials : Credentials} {token : Bytes} {users : Storage}
      (hLogin : isLogin call.request)
      (hBody : jsonToCredentials env call.request.body = .ok (some credentials))
      (hUser : authenticateUser env.hmac credentials call.now call.now' handler.users =
        some (token, users)) :
      Outcome env call handler { handler with users } (.ok (.ok, structToJsonToken env token))
  | wrongCredentials {credentials : Credentials} (hLogin : isLogin call.request)
      (hBody : jsonToCredentials env call.request.body = .ok (some credentials))
      (hUser : authenticateUser env.hmac credentials call.now call.now' handler.users = none) :
      Outcome env call handler handler (.ok (.unauthorized, []))
  | invalidJson (hLogin : isLogin call.request)
      (hBody : jsonToCredentials env call.request.body = .ok none) :
      Outcome env call handler handler (.ok (.badRequest, ascii "Invalid json"))
  | loginThrew {e : Exception} (hLogin : isLogin call.request)
      (hBody : jsonToCredentials env call.request.body = .error e) :
      Outcome env call handler handler (.error e)
  | noToken (hOther : ¬ isLogin call.request)
      (hToken : call.token = [] ∨ call.token = ascii "undefined") :
      Outcome env call handler handler (.ok (.unauthorized, []))
  | unknownToken (hOther : ¬ isLogin call.request)
      (hPresent : ¬ (call.token = [] ∨ call.token = ascii "undefined"))
      (hExist : tokenExist call.token handler.users = false) :
      Outcome env call handler handler (.ok (.unauthorized, []))
  | verifyThrew {e : Exception} (hOther : ¬ isLogin call.request)
      (hPresent : ¬ (call.token = [] ∨ call.token = ascii "undefined"))
      (hExist : tokenExist call.token handler.users = true)
      (hVerify : Jwt.verify env.hmac call.now call.token = .error e) :
      Outcome env call handler handler (.error e)
  | notValid (hOther : ¬ isLogin call.request)
      (hPresent : ¬ (call.token = [] ∨ call.token = ascii "undefined"))
      (hExist : tokenExist call.token handler.users = true)
      (hVerify : Jwt.verify env.hmac call.now call.token = .ok false) :
      Outcome env call handler { handler with users := disproveUser call.token handler.users }
        (.ok (.unauthorized, []))
  | noMethod (hAdmitted : Admitted env call handler)
      (hPath : routeMethods.lookup call.request.target = none) :
      Outcome env call handler handler
        (.ok (.badRequest, ascii "Method not found: " ++ call.request.target))
  | noAccess {method : RouteMethod} (hAdmitted : Admitted env call handler)
      (hPath : routeMethods.lookup call.request.target = some method)
      (hAccess : checkAccess call.token call.request.target handler.users = false) :
      Outcome env call handler handler (.ok (.forbidden, []))
  | executed {method : RouteMethod} {response : Bytes} {final : Handler}
      (hAdmitted : Admitted env call handler)
      (hPath : routeMethods.lookup call.request.target = some method)
      (hAccess : checkAccess call.token call.request.target handler.users = true)
      (hMethod : method env [] { handler with requestContext := call.context } =
        (true, response, final)) :
      Outcome env call handler final (.ok (.ok, response))

/-- The methods behind the registered paths. -/
theorem lookup_routeMethods {path : Bytes} {method : RouteMethod}
    (h : routeMethods.lookup path = some method) :
    path = routeLogout ∧ method = logoutUser ∨ path = routeSecret ∧ method = secretTest ∨
      path = routeInfo ∧ method = infoUser := by
  simp only [routeMethods, List.lookup_cons, List.lookup_nil] at h
  split at h
  · next hPath => exact .inl ⟨beq_iff_eq.mp hPath, (Option.some.inj h).symm⟩
  split at h
  · next hPath => exact .inr (.inl ⟨beq_iff_eq.mp hPath, (Option.some.inj h).symm⟩)
  split at h
  · next hPath => exact .inr (.inr ⟨beq_iff_eq.mp hPath, (Option.some.inj h).symm⟩)
  · simp at h

/-- Every route method reports success. -/
theorem routeMethod_done {path : Bytes} {method : RouteMethod}
    (h : routeMethods.lookup path = some method) (env : Externals) (response : Bytes)
    (handler : Handler) : (method env response handler).1 = true := by
  rcases lookup_routeMethods h with ⟨-, rfl⟩ | ⟨-, rfl⟩ | ⟨-, rfl⟩ <;> rfl

/-- A route method changes the users only to log one out. -/
theorem routeMethod_users {path : Bytes} {method : RouteMethod}
    (h : routeMethods.lookup path = some method) {env : Externals} {response response' : Bytes}
    {handler final : Handler} {done : Bool}
    (hMethod : method env response handler = (done, response', final)) :
    path ≠ routeLogout ∧ final.users = handler.users ∨
      path = routeLogout ∧
        final.users = disproveUser handler.requestContext.token handler.users := by
  rcases lookup_routeMethods h with ⟨hPath, rfl⟩ | ⟨rfl, rfl⟩ | ⟨rfl, rfl⟩
  · obtain ⟨-, -, rfl⟩ := hMethod
    exact .inr ⟨hPath, rfl⟩
  · obtain ⟨-, -, rfl⟩ := hMethod
    exact .inl ⟨by decide, rfl⟩
  · obtain ⟨-, -, rfl⟩ := hMethod
    exact .inl ⟨by decide, rfl⟩

/-- Each outcome is what the code computes. -/
theorem Outcome.handle_eq {env : Externals} {call : Call} {handler handler' : Handler}
    {reply : Reply} (h : Outcome env call handler handler' reply) :
    handle env call handler = (handler', reply) := by
  cases h with
  | loggedIn hLogin hBody hUser =>
      simp [handle, handleApiRequest, hLogin, loginUser, hBody, hUser, bind, Except.bind, pure,
        Except.pure]
  | wrongCredentials hLogin hBody hUser =>
      simp [handle, handleApiRequest, hLogin, loginUser, hBody, hUser, bind, Except.bind, pure,
        Except.pure]
  | invalidJson hLogin hBody =>
      simp [handle, handleApiRequest, hLogin, loginUser, hBody, bind, Except.bind, pure, Except.pure]
  | loginThrew hLogin hBody =>
      simp [handle, handleApiRequest, hLogin, loginUser, hBody, bind, Except.bind]
  | noToken hOther hToken => simp [handle, handleApiRequest, hOther, hToken, pure, Except.pure]
  | unknownToken hOther hPresent hExist =>
      simp [handle, handleApiRequest, hOther, hPresent, verifyToken_absent hExist, bind, Except.bind,
        pure, Except.pure]
  | verifyThrew hOther hPresent hExist hThrew =>
      simp [handle, handleApiRequest, hOther, hPresent, verifyToken_error hExist hThrew, bind,
        Except.bind]
  | notValid hOther hPresent hExist hFailed =>
      simp [handle, handleApiRequest, hOther, hPresent, verifyToken_ok hExist hFailed, bind,
        Except.bind, pure, Except.pure]
  | noMethod hAdmitted hPath =>
      simp [handle, handleApiRequest, hAdmitted.notLogin, hAdmitted.present,
        verifyToken_ok hAdmitted.exist hAdmitted.verified, hPath, bind, Except.bind, pure,
        Except.pure]
  | noAccess hAdmitted hPath hAccess =>
      simp [handle, handleApiRequest, hAdmitted.notLogin, hAdmitted.present,
        verifyToken_ok hAdmitted.exist hAdmitted.verified, hPath, hAccess, bind, Except.bind, pure,
        Except.pure]
  | @executed method response _ hAdmitted hPath hAccess hMethod =>
      have hExecute : executeRouteMethod env []
          { handler with requestContext := call.context } = .ok (true, response, handler') := by
        have hRoute : routeMethods.lookup call.context.route = some method := hPath
        rw [executeRouteMethod]
        dsimp only
        rw [hRoute]
        exact congrArg _ hMethod
      simp only [Call.context] at hExecute
      simp [handle, handleApiRequest, hAdmitted.notLogin, hAdmitted.present,
        verifyToken_ok hAdmitted.exist hAdmitted.verified, hPath, hAccess, hExecute, bind,
        Except.bind, pure, Except.pure]

theorem exists_outcome_of_admitted {env : Externals} {call : Call} {handler : Handler}
    (hAdmitted : Admitted env call handler) :
    ∃ handler' reply, Outcome env call handler handler' reply := by
  cases hPath : routeMethods.lookup call.request.target with
  | none => exact ⟨_, _, .noMethod hAdmitted hPath⟩
  | some method =>
      cases hAccess : checkAccess call.token call.request.target handler.users with
      | false => exact ⟨_, _, .noAccess hAdmitted hPath hAccess⟩
      | true =>
          have hDone := routeMethod_done hPath env [] { handler with requestContext := call.context }
          exact ⟨_, _, .executed hAdmitted hPath hAccess (Prod.ext hDone rfl)⟩

/-- No way to end is missing from the list. -/
theorem exists_outcome (env : Externals) (call : Call) (handler : Handler) :
    ∃ handler' reply, Outcome env call handler handler' reply := by
  by_cases hLogin : isLogin call.request
  · cases hBody : jsonToCredentials env call.request.body with
    | error e => exact ⟨_, _, .loginThrew hLogin hBody⟩
    | ok parsed =>
        cases parsed with
        | none => exact ⟨_, _, .invalidJson hLogin hBody⟩
        | some credentials =>
            cases hUser : authenticateUser env.hmac credentials call.now call.now' handler.users with
            | none => exact ⟨_, _, .wrongCredentials hLogin hBody hUser⟩
            | some result => exact ⟨_, _, .loggedIn hLogin hBody hUser⟩
  by_cases hToken : call.token = [] ∨ call.token = ascii "undefined"
  · exact ⟨_, _, .noToken hLogin hToken⟩
  cases hExist : tokenExist call.token handler.users with
  | false => exact ⟨_, _, .unknownToken hLogin hToken hExist⟩
  | true =>
      cases hVerify : Jwt.verify env.hmac call.now call.token with
      | error e => exact ⟨_, _, .verifyThrew hLogin hToken hExist hVerify⟩
      | ok valid =>
          cases valid with
          | false => exact ⟨_, _, .notValid hLogin hToken hExist hVerify⟩
          | true => exact exists_outcome_of_admitted ⟨hLogin, hToken, hExist, hVerify⟩

/-- A call on the given singletons ends in one of the ways listed. -/
theorem handle_outcome (env : Externals) (call : Call) (handler : Handler) :
    Outcome env call handler (handle env call handler).1 (handle env call handler).2 := by
  obtain ⟨handler', reply, h⟩ := exists_outcome env call handler
  rw [h.handle_eq]
  exact h

end Api

import GisService.Api.Sessions

/-! Who gets through. A request is authorised by the complete token of a live
login and by nothing less, a login stays good until its logout or its expiry,
and a logout ends it if the token is stored once. -/
namespace Api

open ByteString Cxx Http Users

variable {env : Externals} {handler handler' : Handler} {events : List Event}

/-- The status of an admitted request, by its path and the user's routes. -/
def routeStatus (user : UserData) (path : Bytes) : Status :=
  if (routeMethods.lookup path).isNone then .badRequest
  else if user.routes.contains path then .ok
  else .forbidden

/-- Behind the check of the token nothing is answered unauthorized. -/
theorem routeStatus_ne_unauthorized (user : UserData) (path : Bytes) :
    routeStatus user path ≠ .unauthorized := by
  unfold routeStatus
  split
  · simp
  · split <;> simp

/-- An account may use a path that is one of its routes. -/
theorem checkAccess_iff {token path : Bytes} {users : Storage} :
    checkAccess token path users = true ↔ path ∈ (getUserData token users).routes := by
  simp [checkAccess]

/-- An admitted request is answered by its path alone. -/
theorem Outcome.status_of_admitted {call : Call} {reply : Reply}
    (h : Outcome env call handler handler' reply) (hAdmitted : Admitted env call handler) :
    ∃ response, reply =
      .ok (routeStatus (getUserData call.token handler.users) call.request.target, response) := by
  cases h with
  | loggedIn hLogin => exact absurd hLogin hAdmitted.notLogin
  | wrongCredentials hLogin => exact absurd hLogin hAdmitted.notLogin
  | invalidJson hLogin => exact absurd hLogin hAdmitted.notLogin
  | loginThrew hLogin => exact absurd hLogin hAdmitted.notLogin
  | noToken hOther hToken => exact absurd hToken hAdmitted.present
  | unknownToken hOther hPresent hExist => simp [hAdmitted.exist] at hExist
  | verifyThrew hOther hPresent hExist hVerify => simp [hAdmitted.verified] at hVerify
  | notValid hOther hPresent hExist hVerify => simp [hAdmitted.verified] at hVerify
  | noMethod _ hPath => exact ⟨_, by rw [routeStatus, hPath]; rfl⟩
  | noAccess _ hPath hAccess =>
      have hRoute : call.request.target ∉ (getUserData call.token handler.users).routes := by
        rw [← checkAccess_iff, hAccess]
        simp
      exact ⟨[], by simp [routeStatus, hPath, hRoute]⟩
  | @executed method response final _ hPath hAccess hMethod =>
      exact ⟨response, by simp [routeStatus, hPath, checkAccess_iff.mp hAccess]⟩

/-- An admitted request changes the users only to log one out. -/
theorem Outcome.users_of_admitted {call : Call} {reply : Reply}
    (h : Outcome env call handler handler' reply) (hAdmitted : Admitted env call handler)
    (hPath : call.request.target ≠ routeLogout) : handler'.users = handler.users := by
  cases h with
  | loggedIn hLogin => exact absurd hLogin hAdmitted.notLogin
  | wrongCredentials => rfl
  | invalidJson => rfl
  | loginThrew => rfl
  | noToken => rfl
  | unknownToken => rfl
  | verifyThrew => rfl
  | notValid hOther hPresent hExist hVerify => simp [hAdmitted.verified] at hVerify
  | noMethod => rfl
  | noAccess => rfl
  | executed _ hLookup hAccess hMethod =>
      rcases routeMethod_users hLookup hMethod with ⟨-, hUsers⟩ | ⟨hLogout, -⟩
      · exact hUsers
      · exact absurd hLogout hPath

/-- Whoever is admitted carries the token of an earlier login, and the clock
lies between the two times of that token. -/
theorem Consistent.admitted (h : Consistent env events handler) {call : Call}
    (hAdmitted : Admitted env call handler) :
    ∃ user ∈ handler.users, call.token ∈ user.tokens ∧ ∃ login ∈ events,
      LoggedIn env user.credentials call.token login ∧
        (login.grant user.credentials).Valid call.now := by
  obtain ⟨user, hUser, hToken, grant, -, hGrant, hValid⟩ :=
    h.owned.verified hAdmitted.exist hAdmitted.verified
  obtain ⟨login, hMem, hLogin⟩ := h.issued user hUser call.token hToken
  obtain rfl := Jwt.Grant.token_injective env.hmac (hGrant.symm.trans hLogin.token_grant)
  exact ⟨user, hUser, hToken, login, hMem, hLogin, hValid⟩

/-- A stored token is admitted within its two times. -/
theorem admitted_of_stored {call : Call} (hOther : ¬ isLogin call.request) {user : UserData}
    (hUser : user ∈ handler.users) (hToken : call.token ∈ user.tokens) {grant : Jwt.Grant}
    (hGrant : call.token = grant.token env.hmac) (hValid : grant.Valid call.now) :
    Admitted env call handler where
  notLogin := hOther
  present := by
    have hDot : Jwt.dot ∈ call.token := by
      rw [hGrant]
      exact grant.dot_mem_token env.hmac
    rintro (hEmpty | hUndefined)
    · simp [hEmpty] at hDot
    · rw [hUndefined] at hDot
      exact absurd hDot (by decide)
  exist := tokenExist_iff.mpr ⟨user, hUser, call.token, hToken, List.infix_refl _⟩
  verified := by rw [hGrant, Jwt.verify_token, decide_eq_true hValid]

/-- A stored token executes the methods on its user's routes. -/
theorem step_of_stored {call : Call} (hOwned : Owned env.hmac handler.users)
    (hOther : ¬ isLogin call.request) {user : UserData} (hUser : user ∈ handler.users)
    (hToken : call.token ∈ user.tokens) {grant : Jwt.Grant}
    (hGrant : call.token = grant.token env.hmac) (hValid : grant.Valid call.now)
    (hRoute : call.request.target ∈ user.routes) {method : RouteMethod} {response : Bytes}
    {final : Handler} (hPath : routeMethods.lookup call.request.target = some method)
    (hMethod : method env [] { handler with requestContext := call.context } =
      (true, response, final)) :
    Step env handler ⟨call, .ok (.ok, response)⟩ final := by
  have hAdmitted := admitted_of_stored hOther hUser hToken hGrant hValid
  have hAccess : checkAccess call.token call.request.target handler.users = true := by
    rw [checkAccess_iff, hOwned.getUserData_eq hUser hToken]
    exact hRoute
  exact (Outcome.executed hAdmitted hPath hAccess hMethod).handle_eq

/-- A request other than a login that is answered `ok` carries the complete
token of an earlier login. The login's user still stores the token, the clock
lies between the token's times, the path is one of the user's routes, and the
substring lookups find this user and no other. -/
theorem ok_request_carries_live_token (env : Externals) {events : List Event}
    {handler handler' : Handler} {e : Event} {response : Bytes} (run : Run env events handler)
    (hStep : Step env handler e handler') (hOther : ¬ isLogin e.request)
    (hOk : e.reply = .ok (.ok, response)) :
    ∃ user ∈ handler.users, ∃ login ∈ events, LoggedIn env user.credentials e.token login ∧
      e.token ∈ user.tokens ∧ (login.grant user.credentials).Valid e.call.now ∧
      e.request.target ∈ user.routes ∧ getUserData e.token handler.users = user ∧
      (∀ other ∈ handler.users, holds e.token other = true → other = user) ∧
      (e.request.target = routeInfo → response = structToJsonUserInfo env user) := by
  have hOutcome := hStep.outcome
  rw [hOk] at hOutcome
  cases hOutcome with
  | loggedIn hLogin => exact absurd hLogin hOther
  | @executed method response final hAdmitted hPath hAccess hMethod =>
      obtain ⟨user, hUser, hToken, login, hMem, hLogin, hValid⟩ := run.consistent.admitted hAdmitted
      have hData := run.owned.getUserData_eq hUser hToken
      refine ⟨user, hUser, login, hMem, hLogin, hToken, hValid, ?_, hData,
        fun other hMemOther hHolds => run.owned.owner_unique hUser hMemOther hToken hHolds, ?_⟩
      · rw [← hData]
        exact checkAccess_iff.mp hAccess
      · intro hInfo
        rcases lookup_routeMethods hPath with ⟨hLogout, -⟩ | ⟨hSecret, -⟩ | ⟨-, rfl⟩
        · rw [hInfo] at hLogout
          exact absurd hLogout (by decide)
        · rw [hInfo] at hSecret
          exact absurd hSecret (by decide)
        · obtain ⟨-, rfl, -⟩ := hMethod
          exact congrArg _ hData

/-- The HMAC is the one of the service's secret over the signing input of one login:
that of the second user in the second 1700000000. -/
def sampleEnv : Externals where
  hmac _ := [111, 20, 238, 107, 207, 104, 142, 153, 8, 84, 13, 102, 67, 54, 107, 151,
    143, 87, 57, 84, 251, 144, 69, 222, 70, 51, 175, 38, 52, 138, 33, 82]
  parse := Json.parse
  serialize := Json.write

def sampleLoginCall : Call where
  request :=
    { method := .post, target := pathLogin,
      body := ascii "\x7b\"username\":\"user\",\"password\":\"456\"\x7d" }
  now := 1700000000000000000
  now' := 1700000000000000000

def sampleToken : Bytes :=
  Jwt.createToken sampleEnv.hmac (ascii "user") sampleLoginCall.now sampleLoginCall.now'

def sampleLogin : Event where
  call := sampleLoginCall
  reply := .ok (.ok, sampleEnv.serialize (.object [(ascii "token", .string sampleToken)]))

/-- The second user stores the given tokens. -/
def handlerStoring (tokens : List Bytes) (requestContext : RequestContext) : Handler where
  users := [firstUser, { secondUser with tokens }]
  requestContext

/-- The state after the login. -/
def sampleHandler : Handler := handlerStoring [sampleToken] {}

theorem loggedIn_sample : LoggedIn sampleEnv secondUser.credentials sampleToken sampleLogin where
  login := by decide
  body := by decide +kernel
  token_eq := rfl
  reply := rfl

theorem step_sampleLogin : Step sampleEnv {} sampleLogin sampleHandler := by
  have hUser : authenticateUser sampleEnv.hmac secondUser.credentials sampleLoginCall.now
      sampleLoginCall.now' initial = some (sampleToken, sampleHandler.users) := rfl
  have hOutcome : Outcome sampleEnv sampleLogin.call {} sampleHandler sampleLogin.reply :=
    .loggedIn loggedIn_sample.login loggedIn_sample.body hUser
  exact hOutcome.handle_eq

/-- A run of this one login. -/
theorem run_sampleLogin : Run sampleEnv [sampleLogin] sampleHandler := Runs.single step_sampleLogin

/-- A request with the token, thirty seconds after the login. -/
def sampleCall (method : Verb) (target : Bytes) : Call where
  request := { method, target, fields := [(ascii "authorization", sampleToken)] }
  now := 1700000030000000000
  now' := 1700000030000000000

/-- In a state that owns its tokens, the token executes the second user's
methods. -/
theorem step_sampleCall {tokens : List Bytes} {context : RequestContext} {method : Verb}
    {target response : Bytes} {final : Handler} {routeMethod : RouteMethod}
    (hOwned : Owned sampleEnv.hmac (handlerStoring tokens context).users)
    (hTokens : sampleToken ∈ tokens) (hOther : ¬ isLogin (sampleCall method target).request)
    (hRoute : target ∈ secondUser.routes)
    (hPath : routeMethods.lookup target = some routeMethod)
    (hMethod : routeMethod sampleEnv [] (handlerStoring tokens (sampleCall method target).context) =
      (true, response, final)) :
    Step sampleEnv (handlerStoring tokens context)
      ⟨sampleCall method target, .ok (.ok, response)⟩ final := by
  have hValid : (sampleLogin.grant secondUser.credentials).Valid 1700000030000000000 := by
    decide
  have hUser : { secondUser with tokens } ∈ (handlerStoring tokens context).users := by
    simp [handlerStoring]
  exact step_of_stored hOwned hOther hUser hTokens loggedIn_sample.token_grant hValid hRoute hPath
    hMethod

def sampleInfo : Event where
  call := sampleCall .get routeInfo
  reply := .ok (.ok, structToJsonUserInfo sampleEnv { secondUser with tokens := [sampleToken] })

theorem ok_request_sample :
    ∃ user ∈ sampleHandler.users, ∃ login ∈ [sampleLogin],
      LoggedIn sampleEnv user.credentials sampleInfo.token login ∧
      sampleInfo.token ∈ user.tokens ∧ (login.grant user.credentials).Valid sampleInfo.call.now ∧
      sampleInfo.request.target ∈ user.routes ∧
      getUserData sampleInfo.token sampleHandler.users = user ∧
      (∀ other ∈ sampleHandler.users, holds sampleInfo.token other = true → other = user) ∧
      (sampleInfo.request.target = routeInfo →
        structToJsonUserInfo sampleEnv { secondUser with tokens := [sampleToken] } =
          structToJsonUserInfo sampleEnv user) := by
  have hData : getUserData sampleToken sampleHandler.users =
      { secondUser with tokens := [sampleToken] } :=
    run_sampleLogin.owned.getUserData_eq (by simp [sampleHandler, handlerStoring]) (by simp)
  have hMethod : infoUser sampleEnv [] (handlerStoring [sampleToken] sampleInfo.call.context) =
      (true, structToJsonUserInfo sampleEnv { secondUser with tokens := [sampleToken] },
        handlerStoring [sampleToken] sampleInfo.call.context) := by
    rw [← hData]
    rfl
  have hStep : Step sampleEnv sampleHandler sampleInfo
      (handlerStoring [sampleToken] sampleInfo.call.context) :=
    step_sampleCall run_sampleLogin.owned (by simp) (by decide) (by decide) rfl hMethod
  exact ok_request_carries_live_token sampleEnv run_sampleLogin hStep (by decide) rfl

/-- Some record with this profile stores the token. -/
def StoredFor (profile : UserData) (token : Bytes) (users : Storage) : Prop :=
  ∃ user ∈ users, user.profile = profile ∧ token ∈ user.tokens

/-- Another token may be taken away. -/
theorem StoredFor.of_kept {profile : UserData} {token other : Bytes} {users users' : Storage}
    (h : StoredFor profile token users) (hKept : Kept other users users') (hOther : token ≠ other) :
    StoredFor profile token users' := by
  obtain ⟨user, hUser, hProfile, hToken⟩ := h
  obtain ⟨user', hUser', hSame, hToken'⟩ := hKept.mem hOther hUser hToken
  exact ⟨user', hUser', hSame.trans hProfile, hToken'⟩

/-- A request takes a stored token away only if it carries the token and either
logs out or comes outside of the token's times. -/
theorem Outcome.storedFor {call : Call} {reply : Reply}
    (h : Outcome env call handler handler' reply) {profile : UserData} {grant : Jwt.Grant}
    (hStored : StoredFor profile (grant.token env.hmac) handler.users)
    (hCarried : ¬ isLogin call.request → call.token = grant.token env.hmac →
      call.request.target ≠ routeLogout ∧ grant.Valid call.now) :
    StoredFor profile (grant.token env.hmac) handler'.users := by
  by_cases hToken : call.token = grant.token env.hmac
  · by_cases hLogin : isLogin call.request
    · -- A login only ever adds a token, whatever its own header carries.
      have hNonempty : grant.token env.hmac ≠ [] :=
        List.ne_nil_of_mem (grant.dot_mem_token env.hmac)
      cases h with
      | loggedIn _ _ hUser => exact hStored.of_kept (authenticateUser_kept [] hUser) hNonempty
      | wrongCredentials => exact hStored
      | invalidJson => exact hStored
      | loginThrew => exact hStored
      | noToken hOther => exact absurd hLogin hOther
      | unknownToken hOther => exact absurd hLogin hOther
      | verifyThrew hOther => exact absurd hLogin hOther
      | notValid hOther => exact absurd hLogin hOther
      | noMethod hAdmitted => exact absurd hLogin hAdmitted.notLogin
      | noAccess hAdmitted => exact absurd hLogin hAdmitted.notLogin
      | executed hAdmitted => exact absurd hLogin hAdmitted.notLogin
    · obtain ⟨hPath, hValid⟩ := hCarried hLogin hToken
      obtain ⟨user, hUser, hProfile, hMem⟩ := hStored
      have hAdmitted := admitted_of_stored hLogin hUser (hToken ▸ hMem) hToken hValid
      rw [h.users_of_admitted hAdmitted hPath]
      exact ⟨user, hUser, hProfile, hMem⟩
  · exact hStored.of_kept h.kept (Ne.symm hToken)

/-- The step of a login stores its token for a user with the credentials. -/
theorem LoggedIn.stored {credentials : Credentials} {token : Bytes} {login : Event}
    (h : LoggedIn env credentials token login) (hStep : Step env handler login handler') :
    ∃ user ∈ handler'.users, user.credentials = credentials ∧ token ∈ user.tokens := by
  have hOutcome := hStep.outcome
  have hReply := h.reply
  generalize login.reply = reply at hOutcome hReply
  cases hOutcome with
  | @loggedIn _ stored users hLogin hBody hUser =>
      obtain rfl := Option.some.inj (Except.ok.inj (hBody.symm.trans h.body))
      obtain ⟨hToken, before, user, after, -, hCredentials, -, rfl⟩ := authenticateUser_eq_some hUser
      refine ⟨{ user with tokens := user.tokens ++ [stored] }, by simp, hCredentials, ?_⟩
      rw [h.token_eq, hToken]
      simp
  | wrongCredentials => simp at hReply
  | invalidJson => simp at hReply
  | loginThrew => simp at hReply
  | noToken hOther => exact absurd h.login hOther
  | unknownToken hOther => exact absurd h.login hOther
  | verifyThrew hOther => exact absurd h.login hOther
  | notValid hOther => exact absurd h.login hOther
  | noMethod hAdmitted => exact absurd h.login hAdmitted.notLogin
  | noAccess hAdmitted => exact absurd h.login hAdmitted.notLogin
  | executed hAdmitted => exact absurd h.login hAdmitted.notLogin

/-- After a login, its token is answered by the path alone, as long as no logout
has carried it and every request that did came within its times, whatever
else happened. No request at all changes a record apart from its tokens, or
removes a token that it does not carry. -/
theorem session_survives (env : Externals) {events : List Event} {handler : Handler}
    (run : Run env events handler) :
    (∀ before login after credentials token, events = before ++ login :: after →
      LoggedIn env credentials token login →
      (∀ e ∈ after, ¬ isLogin e.request → e.token = token →
        e.request.target ≠ routeLogout ∧ (login.grant credentials).Valid e.call.now) →
      ∃ user ∈ handler.users, user.credentials = credentials ∧
        ∀ call : Call, ¬ isLogin call.request → call.token = token →
          (login.grant credentials).Valid call.now →
          ∃ response, (handle env call handler).2 =
            .ok (routeStatus user call.request.target, response)) ∧
    ∀ call : Call, Kept call.token handler.users (handle env call handler).1.users := by
  refine ⟨?_, fun call => (handle_outcome env call handler).kept⟩
  rintro before login after credentials token rfl hLogin hAfter
  obtain ⟨middle, hBefore, hRest⟩ := Runs.split run
  obtain ⟨next, hStep, hAfterRun⟩ := Runs.first_step hRest
  obtain ⟨user, hUser, rfl, hToken⟩ := hLogin.stored hStep
  have hGrant := hLogin.token_grant
  have hStored : StoredFor user.profile ((login.grant user.credentials).token env.hmac)
      handler.users := by
    refine hAfterRun.invariant (fun handler => StoredFor user.profile _ handler.users) hAfter
      ⟨user, hUser, rfl, hGrant ▸ hToken⟩ ?_
    intro middle e finish hAllowed hStored hStep
    refine hStep.outcome.storedFor hStored fun hOther hCarried => ?_
    exact hAllowed hOther (hCarried.trans hGrant.symm)
  obtain ⟨owner, hOwner, hProfile, hMem⟩ := hStored
  have hCredentials : owner.credentials = user.credentials :=
    congrArg (fun record => record.credentials) hProfile
  refine ⟨owner, hOwner, hCredentials, fun call hOther hCarried hValid => ?_⟩
  rw [← hGrant, ← hCarried] at hMem
  have hAdmitted := admitted_of_stored hOther hOwner hMem (hCarried.trans hGrant) hValid
  have hStatus := (handle_outcome env call handler).status_of_admitted hAdmitted
  rwa [Run.owned run |>.getUserData_eq hOwner hMem] at hStatus

/-- A failed login of the other user. -/
def sampleFailure : Event where
  call :=
    { request :=
        { method := .post, target := pathLogin,
          body := ascii "\x7b\"username\":\"admin\",\"password\":\"\"\x7d" },
      now := 1700000010000000000, now' := 1700000010000000000 }
  reply := .ok (.unauthorized, [])

/-- The session of the second user outlives it. -/
theorem session_survives_sample :
    ∃ user ∈ sampleHandler.users, user.credentials = secondUser.credentials ∧
      ∀ call : Call, ¬ isLogin call.request → call.token = sampleToken →
        (sampleLogin.grant secondUser.credentials).Valid call.now →
        ∃ response, (handle sampleEnv call sampleHandler).2 =
          .ok (routeStatus user call.request.target, response) := by
  have hFailure : Step sampleEnv sampleHandler sampleFailure sampleHandler := by
    have hLogin : isLogin sampleFailure.request := by decide
    have hBody : jsonToCredentials sampleEnv sampleFailure.request.body =
        .ok (some { username := ascii "admin", password := [] }) := by decide +kernel
    exact (Outcome.wrongCredentials hLogin hBody rfl).handle_eq
  have run : Run sampleEnv ([] ++ sampleLogin :: [sampleFailure]) sampleHandler :=
    run_sampleLogin.snoc hFailure
  refine (session_survives sampleEnv run).1 [] sampleLogin [sampleFailure] _ _ rfl loggedIn_sample ?_
  intro e hMem hOther
  obtain rfl := List.mem_singleton.mp hMem
  exact absurd (by decide) hOther

/-- How often a token is stored. -/
def copies (token : Bytes) (users : Storage) : Nat :=
  (users.flatMap UserData.tokens).count token

/-- A token has a copy exactly if some record stores it. -/
theorem copies_pos_iff {token : Bytes} {users : Storage} :
    0 < copies token users ↔ ∃ user ∈ users, token ∈ user.tokens := by
  rw [copies, List.count_pos_iff, List.mem_flatMap]

/-- A logout takes one copy away. -/
theorem copies_disproveUser (token : Bytes) (users : Storage) :
    copies token (disproveUser token users) = copies token users - 1 := by
  by_cases hStored : ∃ user ∈ users, token ∈ user.tokens
  · obtain ⟨before, user, after, rfl, hMem, -, hEq⟩ := disproveUser_eq hStored
    have hPos : 0 < user.tokens.count token := List.count_pos_iff.mpr hMem
    simp only [hEq, copies, List.flatMap_append, List.flatMap_cons, List.count_append,
      List.count_erase_self]
    omega
  · rw [disproveUser_eq_self fun user hUser hToken => hStored ⟨user, hUser, hToken⟩]
    have hNone : copies token users = 0 := by
      by_contra hNe
      exact hStored (copies_pos_iff.mp (Nat.pos_of_ne_zero hNe))
    omega

/-- The readings of the clock that the event took. -/
def Event.readings (e : Event) : List TimePoint :=
  if isLogin e.request then [e.call.now, e.call.now'] else [e.call.now]

/-- The clock never goes back. -/
def ClockMonotone (events : List Event) : Prop := (events.flatMap Event.readings).Pairwise (· ≤ ·)

/-- A call that reads the clock once can be repeated at the same reading. -/
theorem ClockMonotone.repeat_call {last : Event} (h : ClockMonotone (events ++ [last]))
    (hOther : ¬ isLogin last.request) (reply : Reply) :
    ClockMonotone (events ++ [last] ++ [⟨last.call, reply⟩]) := by
  have hLast : last.readings = [last.call.now] := if_neg hOther
  have hAgain : Event.readings ⟨last.call, reply⟩ = [last.call.now] := if_neg hOther
  unfold ClockMonotone at h ⊢
  rw [List.flatMap_append, List.flatMap_singleton, hLast] at h
  rw [List.flatMap_append, List.flatMap_append, List.flatMap_singleton, List.flatMap_singleton,
    hLast, hAgain, List.pairwise_append]
  refine ⟨h, List.pairwise_singleton _ _, ?_⟩
  intro reading hReading reading' hReading'
  obtain rfl := List.mem_singleton.mp hReading'
  rcases List.mem_append.mp hReading with hEarlier | hSame
  · exact (List.pairwise_append.mp h).2.2 reading hEarlier _ (by simp)
  · rw [List.mem_singleton.mp hSame]
    exact Int64.le_refl _

/-- An issued token that is not stored is answered `unauthorized`. -/
theorem Outcome.unauthorized_of_not_stored {call : Call} {reply : Reply}
    (h : Outcome env call handler handler' reply) (hOwned : Owned env.hmac handler.users)
    (hOther : ¬ isLogin call.request) {grant : Jwt.Grant}
    (hGrant : call.token = grant.token env.hmac) (hNone : copies call.token handler.users = 0) :
    ∃ response, reply = .ok (.unauthorized, response) := by
  have hAbsent : tokenExist call.token handler.users ≠ true := by
    intro hExist
    obtain ⟨user, hUser, hHolds⟩ := List.any_eq_true.mp hExist
    rw [hGrant, hOwned.holds_iff_mem hUser, ← hGrant] at hHolds
    have := copies_pos_iff.mpr ⟨user, hUser, hHolds⟩
    omega
  cases h with
  | loggedIn hLogin => exact absurd hLogin hOther
  | wrongCredentials hLogin => exact absurd hLogin hOther
  | invalidJson hLogin => exact absurd hLogin hOther
  | loginThrew hLogin => exact absurd hLogin hOther
  | noToken => exact ⟨[], rfl⟩
  | unknownToken => exact ⟨[], rfl⟩
  | verifyThrew _ _ hExist => exact absurd hExist hAbsent
  | notValid _ _ hExist => exact absurd hExist hAbsent
  | noMethod hAdmitted => exact absurd hAdmitted.exist hAbsent
  | noAccess hAdmitted => exact absurd hAdmitted.exist hAbsent
  | executed hAdmitted => exact absurd hAdmitted.exist hAbsent

/-- A logout that was answered `ok` has removed one copy of its token. -/
theorem Outcome.logged_out {call : Call} {response : Bytes}
    (h : Outcome env call handler handler' (.ok (.ok, response)))
    (hPath : call.request.target = routeLogout) :
    Admitted env call handler ∧ handler'.users = disproveUser call.token handler.users := by
  have hOther : ¬ isLogin call.request := by
    intro hLogin
    exact absurd (hPath.symm.trans hLogin.2) (by decide)
  cases h with
  | loggedIn hLogin => exact absurd hLogin hOther
  | executed hAdmitted hLookup hAccess hMethod =>
      refine ⟨hAdmitted, ?_⟩
      rcases routeMethod_users hLookup hMethod with ⟨hOtherPath, -⟩ | ⟨-, hUsers⟩
      · exact absurd hPath hOtherPath
      · exact hUsers

/-- After the logout, which ended in `handler'`, every request with its token
is answered `unauthorized` until a login returns the same token again. -/
def Revoked (env : Externals) (events : List Event) (logout : Event) (handler' : Handler) : Prop :=
  ∀ later final e final', Runs (Step env) handler' later final → Step env final e final' →
    ClockMonotone (events ++ [logout] ++ later ++ [e]) →
    (∀ login ∈ later, ∀ credentials, ¬ LoggedIn env credentials logout.token login) →
    ¬ isLogin e.request → e.token = logout.token →
    ∃ response, e.reply = .ok (.unauthorized, response)

/-- A logout revokes its token if and only if the token was stored once. -/
theorem logout_revokes_iff (env : Externals) {events : List Event} {handler handler' : Handler}
    {logout : Event} {response : Bytes} (run : Run env events handler)
    (hStep : Step env handler logout handler') (hClock : ClockMonotone (events ++ [logout]))
    (hPath : logout.request.target = routeLogout) (hOk : logout.reply = .ok (.ok, response)) :
    Revoked env events logout handler' ↔ copies logout.token handler.users = 1 := by
  have hOutcome := hStep.outcome
  rw [hOk] at hOutcome
  obtain ⟨hAdmitted, hUsers⟩ := hOutcome.logged_out hPath
  obtain ⟨user, hUser, hToken, login, -, hLogin, hValid⟩ := run.consistent.admitted hAdmitted
  have hGrant := hLogin.token_grant
  have hCopies : copies logout.token handler'.users = copies logout.token handler.users - 1 := by
    rw [hUsers, copies_disproveUser]
  have hPos : 0 < copies logout.token handler.users := copies_pos_iff.mpr ⟨user, hUser, hToken⟩
  constructor
  · -- A second copy admits the same request once more.
    intro hRevoked
    by_contra hNe
    have hLeft : 0 < copies logout.token handler'.users := by omega
    obtain ⟨other, hOther, hMem⟩ := copies_pos_iff.mp hLeft
    have hNotLogin := hAdmitted.notLogin
    have hAgain : Admitted env logout.call handler' :=
      admitted_of_stored hNotLogin hOther hMem hGrant hValid
    have hOrder : ClockMonotone (events ++ [logout] ++ [] ++
        [⟨logout.call, (handle env logout.call handler').2⟩]) := by
      rw [List.append_nil]
      exact hClock.repeat_call hNotLogin _
    obtain ⟨text, hReply⟩ := hRevoked [] handler' ⟨logout.call, (handle env logout.call handler').2⟩
      _ .nil (step_handle env logout.call handler') hOrder (by simp) hNotLogin rfl
    obtain ⟨other, hStatus⟩ :=
      (handle_outcome env logout.call handler').status_of_admitted hAgain
    rw [hStatus] at hReply
    simp only [Except.ok.injEq, Prod.mk.injEq] at hReply
    exact routeStatus_ne_unauthorized _ _ hReply.1
  · intro hOnce later final e final' hLater hLast _ hNoLogin hOther hCarried
    have hNone : AllTokens (fun _ token => token ≠ logout.token) handler'.users := by
      intro user hUser token hMem hEq
      rw [hEq] at hMem
      have := copies_pos_iff.mpr ⟨user, hUser, hMem⟩
      omega
    have hStill : AllTokens (fun _ token => token ≠ logout.token) final.users := by
      refine hLater.invariant (fun handler => AllTokens _ handler.users) hNoLogin hNone ?_
      intro middle label finish hAllowed hTokens hStep
      refine hStep.outcome.allTokens hTokens fun credentials token hNew hEq => ?_
      exact hAllowed credentials (hEq ▸ hNew)
    have hZero : copies e.token final.users = 0 := by
      by_contra hNe
      obtain ⟨user, hUser, hMem⟩ := copies_pos_iff.mp (Nat.pos_of_ne_zero hNe)
      exact hStill user hUser _ hMem hCarried
    have hFinal : Run env (events ++ [logout] ++ later) final := (Runs.snoc run hStep).trans hLater
    exact hLast.outcome.unauthorized_of_not_stored hFinal.owned hOther (hCarried.trans hGrant) hZero

def sampleLogout : Event where
  call := sampleCall .post routeLogout
  reply := .ok (.ok, [])

/-- A logout erases the first copy of the token. -/
theorem logout_sample (tokens : List Bytes) :
    logoutUser sampleEnv [] (handlerStoring (sampleToken :: tokens) sampleLogout.call.context) =
      (true, [], handlerStoring tokens sampleLogout.call.context) := by
  have hToken : sampleLogout.call.context.token = sampleToken := rfl
  simp [logoutUser, handlerStoring, disproveUser, firstUser, secondUser, hToken]

theorem logout_revokes_sample :
    Revoked sampleEnv [sampleLogin] sampleLogout
        (handlerStoring [] sampleLogout.call.context) ↔
      copies sampleLogout.token sampleHandler.users = 1 := by
  have hStep : Step sampleEnv sampleHandler sampleLogout
      (handlerStoring [] sampleLogout.call.context) :=
    step_sampleCall run_sampleLogin.owned (by simp) (by decide) (by decide) rfl (logout_sample [])
  have hClock : ClockMonotone ([sampleLogin] ++ [sampleLogout]) := by
    unfold ClockMonotone
    decide
  exact logout_revokes_iff sampleEnv run_sampleLogin hStep hClock rfl rfl

/-- The same credentials again, a fifth of a second later. -/
def sampleSecondLogin : Event where
  call := { sampleLoginCall with now := 1700000000200000000, now' := 1700000000200000000 }
  reply := sampleLogin.reply

/-- The token is stored twice. -/
def twiceHandler : Handler := handlerStoring [sampleToken, sampleToken] {}

/-- Two logins within one second return one token and store it twice, and a
logout leaves the second copy behind. -/
theorem second_login_not_revoked :
    Run sampleEnv [sampleLogin, sampleSecondLogin] twiceHandler ∧
      Step sampleEnv twiceHandler sampleLogout
        (handlerStoring [sampleToken] sampleLogout.call.context) ∧
      ClockMonotone ([sampleLogin, sampleSecondLogin] ++ [sampleLogout]) ∧
      sampleLogout.request.target = routeLogout ∧ sampleLogout.reply = .ok (.ok, []) ∧
      ¬ Revoked sampleEnv [sampleLogin, sampleSecondLogin] sampleLogout
        (handlerStoring [sampleToken] sampleLogout.call.context) := by
  have hSecond : Step sampleEnv sampleHandler sampleSecondLogin twiceHandler := by
    have hSame : Jwt.createToken sampleEnv.hmac (ascii "user") sampleSecondLogin.call.now
        sampleSecondLogin.call.now' = sampleToken := by
      rw [sampleToken, Jwt.createToken_eq, Jwt.createToken_eq]
      congr 1
    have hUser : authenticateUser sampleEnv.hmac secondUser.credentials sampleSecondLogin.call.now
        sampleSecondLogin.call.now' sampleHandler.users =
          some (Jwt.createToken sampleEnv.hmac (ascii "user") sampleSecondLogin.call.now
            sampleSecondLogin.call.now', [firstUser, { secondUser with tokens := [sampleToken,
              Jwt.createToken sampleEnv.hmac (ascii "user") sampleSecondLogin.call.now
                sampleSecondLogin.call.now'] }]) := rfl
    rw [hSame] at hUser
    have hOutcome : Outcome sampleEnv sampleSecondLogin.call sampleHandler twiceHandler
        sampleSecondLogin.reply := .loggedIn loggedIn_sample.login loggedIn_sample.body hUser
    exact hOutcome.handle_eq
  have run : Run sampleEnv [sampleLogin, sampleSecondLogin] twiceHandler :=
    run_sampleLogin.snoc hSecond
  have hLogout : Step sampleEnv twiceHandler sampleLogout
      (handlerStoring [sampleToken] sampleLogout.call.context) :=
    step_sampleCall run.owned (by simp) (by decide) (by decide) rfl (logout_sample [sampleToken])
  have hClock : ClockMonotone ([sampleLogin, sampleSecondLogin] ++ [sampleLogout]) := by
    unfold ClockMonotone
    decide
  refine ⟨run, hLogout, hClock, rfl, rfl, fun hRevoked => ?_⟩
  have hAgain : Step sampleEnv (handlerStoring [sampleToken] sampleLogout.call.context) sampleLogout
      (handlerStoring [] sampleLogout.call.context) :=
    step_sampleCall (Run.owned (run.snoc hLogout)) (by simp) (by decide) (by decide) rfl
      (logout_sample [])
  obtain ⟨text, hReply⟩ := hRevoked [] _ sampleLogout _ .nil hAgain
    (by rw [List.append_nil]; exact hClock.repeat_call (by decide) _) (by simp) (by decide) rfl
  simp [sampleLogout] at hReply

end Api

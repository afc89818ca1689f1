import GisService.Api.Authorisation
import Mathlib.Data.Multiset.AddSub
import Mathlib.Data.Multiset.Filter

/-! What the service is for: a table of open sessions, without token texts,
substring searches and the verifier. `HandleApiRequest` refines it. -/
namespace Api

open ByteString Cxx Http Users

/-- The text that goes with the status of an admitted request. -/
def routeText (env : Externals) (account : UserData) (path : Bytes) : Bytes :=
  match routeStatus account path with
  | .ok =>
      if path = routeLogout then []
      else if path = routeSecret then ascii "secret method called"
      else structToJsonUserInfo env account
  | .badRequest => ascii "Method not found: " ++ path
  | _ => []

/-- The session that a login opens. -/
def Call.session (call : Call) (account : UserData) : Jwt.Grant :=
  .issue account.credentials.username call.now call.now'

/-- The call carries the complete token of this session. -/
def Call.Carries (env : Externals) (call : Call) (g : Jwt.Grant) : Prop :=
  ¬ isLogin call.request ∧ call.token = g.token env.hmac

/-- One request on the sessions that are open. A session can be open several
times. -/
inductive SessionStep (env : Externals) (table : Multiset Jwt.Grant) :
    Event → Multiset Jwt.Grant → Prop where
  | opened {call : Call} {account : UserData} (hLogin : isLogin call.request)
      (hAccount : account ∈ initial)
      (hBody : jsonToCredentials env call.request.body = .ok (some account.credentials)) :
      SessionStep env table
        ⟨call, .ok (.ok, env.serialize (.object [(ascii "token",
          .string ((call.session account).token env.hmac))]))⟩
        (call.session account ::ₘ table)
  | refused {call : Call} {credentials : Credentials} (hLogin : isLogin call.request)
      (hBody : jsonToCredentials env call.request.body = .ok (some credentials))
      (hNone : ∀ account ∈ initial, account.credentials ≠ credentials) :
      SessionStep env table ⟨call, .ok (.unauthorized, [])⟩ table
  | malformed {call : Call} (hLogin : isLogin call.request)
      (hBody : jsonToCredentials env call.request.body = .ok none) :
      SessionStep env table ⟨call, .ok (.badRequest, ascii "Invalid json")⟩ table
  | loginFailed {call : Call} {e : Exception} (hLogin : isLogin call.request)
      (hBody : jsonToCredentials env call.request.body = .error e) :
      SessionStep env table ⟨call, .error e⟩ table
  | served {call : Call} {g : Jwt.Grant} {account : UserData} (hOpen : g ∈ table)
      (hCarries : call.Carries env g) (hValid : g.Valid call.now) (hAccount : account ∈ initial)
      (hOwner : g.username = account.credentials.username) :
      SessionStep env table
        ⟨call, .ok (routeStatus account call.request.target,
          routeText env account call.request.target)⟩
        (if call.request.target = routeLogout then table.erase g else table)
  | expired {call : Call} {g : Jwt.Grant} (hOpen : g ∈ table) (hCarries : call.Carries env g)
      (hInvalid : ¬ g.Valid call.now) :
      SessionStep env table ⟨call, .ok (.unauthorized, [])⟩ (table.erase g)
  | unknown {call : Call} (hOther : ¬ isLogin call.request)
      (hUnknown : ∀ g ∈ table, ¬ call.Carries env g) :
      SessionStep env table ⟨call, .ok (.unauthorized, [])⟩ table
  | fragment {call : Call} {e : Exception} (hOther : ¬ isLogin call.request)
      (hUnknown : ∀ g ∈ table, ¬ call.Carries env g)
      (hPart : ∃ g ∈ table, call.token <:+: g.token env.hmac) :
      SessionStep env table ⟨call, .error e⟩ table

/-- The tokens of the sessions that a user has open. -/
def tokensOf (hmac : Bytes → Bytes) (table : Multiset Jwt.Grant) (username : Bytes) :
    Multiset Bytes :=
  (table.filter fun g => g.username = username).map fun g => g.token hmac

/-- Each record of the storage is an account, with the tokens of its sessions. -/
structure Represents (hmac : Bytes → Bytes) (users : Storage) (table : Multiset Jwt.Grant) :
    Prop where
  profiles : users.map UserData.profile = initial.map UserData.profile
  sessions : ∀ user ∈ users,
    (user.tokens : Multiset Bytes) = tokensOf hmac table user.credentials.username
  owners : ∀ g ∈ table, ∃ user ∈ users, g.username = user.credentials.username

section Tokens
variable {hmac : Bytes → Bytes} {table : Multiset Jwt.Grant} {username : Bytes} {g : Jwt.Grant}

/-- A token is one of its owner's, and of nobody else. -/
theorem token_mem_tokensOf :
    g.token hmac ∈ tokensOf hmac table username ↔ g ∈ table ∧ g.username = username := by
  rw [tokensOf, Multiset.mem_map]
  constructor
  · rintro ⟨other, hMem, hToken⟩
    rw [← Jwt.Grant.token_injective hmac hToken]
    exact Multiset.mem_filter.mp hMem
  · intro hMem
    exact ⟨g, Multiset.mem_filter.mpr hMem, rfl⟩

/-- Another session adds its token to its owner's. -/
theorem tokensOf_cons_self :
    tokensOf hmac (g ::ₘ table) g.username = g.token hmac ::ₘ tokensOf hmac table g.username := by
  simp [tokensOf]

/-- Another session adds no token to those of anyone else. -/
theorem tokensOf_cons_of_ne (h : g.username ≠ username) :
    tokensOf hmac (g ::ₘ table) username = tokensOf hmac table username := by
  simp [tokensOf, h]

end Tokens

theorem usernames_initial : (initial.map fun user => user.credentials.username).Nodup := by decide

namespace Represents
variable {hmac : Bytes → Bytes} {users : Storage} {table : Multiset Jwt.Grant}

/-- At the start nobody stores a token, and no session is open. -/
theorem initial : Represents hmac initial 0 where
  profiles := rfl
  sessions := by
    intro user hUser
    simp only [Users.initial, List.mem_cons, List.not_mem_nil, or_false] at hUser
    rcases hUser with rfl | rfl <;> rfl
  owners := by simp

theorem usernames (h : Represents hmac users table) :
    (users.map fun user => user.credentials.username).Nodup := by
  have hProfiles (users : Storage) : users.map (fun user => user.credentials.username) =
      (users.map UserData.profile).map fun user => user.credentials.username := by
    rw [List.map_map]
    rfl
  rw [hProfiles, h.profiles, ← hProfiles]
  exact usernames_initial

/-- The account behind a record. -/
theorem account (h : Represents hmac users table) {user : UserData} (hUser : user ∈ users) :
    ∃ account ∈ Users.initial, user.profile = account.profile := by
  have hMem : user.profile ∈ users.map UserData.profile := List.mem_map_of_mem hUser
  rw [h.profiles] at hMem
  obtain ⟨account, hAccount, hProfile⟩ := List.mem_map.mp hMem
  exact ⟨account, hAccount, hProfile.symm⟩

/-- The record of an account. -/
theorem record (h : Represents hmac users table) {account : UserData}
    (hAccount : account ∈ Users.initial) : ∃ user ∈ users, user.profile = account.profile := by
  have hMem : account.profile ∈ Users.initial.map UserData.profile := List.mem_map_of_mem hAccount
  rw [← h.profiles] at hMem
  exact List.mem_map.mp hMem

/-- A record stores the tokens of its owner's open sessions. -/
theorem mem_tokens (h : Represents hmac users table) {user : UserData} (hUser : user ∈ users)
    {g : Jwt.Grant} :
    g.token hmac ∈ user.tokens ↔ g ∈ table ∧ g.username = user.credentials.username := by
  have hMem : g.token hmac ∈ (user.tokens : Multiset Bytes) ↔ _ := Multiset.mem_coe
  rw [← hMem, h.sessions user hUser]
  exact token_mem_tokensOf

/-- Every stored text is the token of an open session. -/
theorem session (h : Represents hmac users table) {user : UserData} (hUser : user ∈ users)
    {token : Bytes} (hToken : token ∈ user.tokens) :
    ∃ g ∈ table, g.username = user.credentials.username ∧ token = g.token hmac := by
  rw [← Multiset.mem_coe, h.sessions user hUser, tokensOf, Multiset.mem_map] at hToken
  obtain ⟨g, hMem, rfl⟩ := hToken
  obtain ⟨hOpen, hOwner⟩ := Multiset.mem_filter.mp hMem
  exact ⟨g, hOpen, hOwner, rfl⟩

/-- A token is stored as often as its session is open. -/
theorem count_tokens (h : Represents hmac users table) {user : UserData} (hUser : user ∈ users)
    {g : Jwt.Grant} (hOwner : user.credentials.username = g.username) :
    user.tokens.count (g.token hmac) = table.count g := by
  have hInjective : Function.Injective fun g : Jwt.Grant => g.token hmac :=
    fun _ _ hToken => Jwt.Grant.token_injective hmac hToken
  have hList : user.tokens.count (g.token hmac) =
      (user.tokens : Multiset Bytes).count (g.token hmac) := by
    rw [Multiset.coe_count, lawful_beq_subsingleton instBEqOfDecidableEq List.instBEq]
  rw [hList, h.sessions user hUser, tokensOf, hOwner,
    Multiset.count_map_eq_count' _ _ hInjective]
  exact Multiset.count_filter_of_pos rfl

/-- The storage determines the sessions. -/
theorem unique (h : Represents hmac users table) {table' : Multiset Jwt.Grant}
    (h' : Represents hmac users table') : table' = table := by
  ext g
  by_cases hOwner : ∃ user ∈ users, user.credentials.username = g.username
  · obtain ⟨user, hUser, hName⟩ := hOwner
    rw [← h.count_tokens hUser hName, ← h'.count_tokens hUser hName]
  · have hNone {sessions : Multiset Jwt.Grant} (hSessions : Represents hmac users sessions) :
        sessions.count g = 0 := by
      refine Multiset.count_eq_zero.mpr fun hOpen => hOwner ?_
      obtain ⟨user, hUser, hName⟩ := hSessions.owners g hOpen
      exact ⟨user, hUser, hName.symm⟩
    rw [hNone h, hNone h']

/-- What is stored was issued to the account that stores it. -/
theorem owned (h : Represents hmac users table) : Owned hmac users where
  usernames := h.usernames
  issued := by
    intro user hUser token hToken
    obtain ⟨g, -, hOwner, hGrant⟩ := h.session hUser hToken
    exact ⟨g, hOwner, hGrant⟩

/-- Giving one record other tokens, when the sessions of the others stay. -/
theorem replace {before after : Storage} {user : UserData} {tokens : List Bytes}
    {table' : Multiset Jwt.Grant} (h : Represents hmac (before ++ user :: after) table)
    (hTokens : (tokens : Multiset Bytes) = tokensOf hmac table' user.credentials.username)
    (hOthers : ∀ username ≠ user.credentials.username,
      tokensOf hmac table' username = tokensOf hmac table username)
    (hOwners : ∀ g ∈ table', g ∈ table ∨ g.username = user.credentials.username) :
    Represents hmac (before ++ { user with tokens } :: after) table' := by
  have hNodup := h.usernames
  rw [List.map_append, List.map_cons, List.nodup_middle, List.nodup_cons, ← List.map_append]
    at hNodup
  have hOther : ∀ other ∈ before ++ after,
      other.credentials.username ≠ user.credentials.username :=
    fun other hMem hSame => hNodup.1 (hSame ▸ List.mem_map_of_mem hMem)
  refine ⟨?_, ?_, ?_⟩
  · rw [← h.profiles, List.map_append, List.map_append, List.map_cons, List.map_cons]
    rfl
  · intro owner hMem
    rw [List.mem_append, List.mem_cons, or_left_comm, ← List.mem_append] at hMem
    rcases hMem with rfl | hMem
    · exact hTokens
    · rw [hOthers _ (hOther owner hMem)]
      refine h.sessions owner ?_
      rw [List.mem_append, List.mem_cons, or_left_comm, ← List.mem_append]
      exact .inr hMem
  · intro g hMem
    rcases hOwners g hMem with hOld | hOwner
    · obtain ⟨owner, hMemOwner, hOwner⟩ := h.owners g hOld
      rw [List.mem_append, List.mem_cons, or_left_comm, ← List.mem_append] at hMemOwner
      rcases hMemOwner with rfl | hMemOwner
      · exact ⟨{ owner with tokens }, by simp, hOwner⟩
      · refine ⟨owner, ?_, hOwner⟩
        rw [List.mem_append, List.mem_cons, or_left_comm, ← List.mem_append]
        exact .inr hMemOwner
    · exact ⟨{ user with tokens }, by simp, hOwner⟩

/-- A login opens a session. -/
theorem authenticateUser (h : Represents hmac users table) {credentials : Credentials}
    {now now' : TimePoint} {users' : Storage} {token : Bytes}
    (hLogin : authenticateUser hmac credentials now now' users = some (token, users')) :
    Represents hmac users' (Jwt.Grant.issue credentials.username now now' ::ₘ table) := by
  obtain ⟨hToken, before, user, after, rfl, rfl, -, rfl⟩ := authenticateUser_eq_some hLogin
  have hGrant : token =
      (Jwt.Grant.issue user.credentials.username now now').token hmac := by
    rw [hToken, Jwt.createToken_eq]
  refine h.replace ?_ ?_ ?_
  · have hSelf : tokensOf hmac (Jwt.Grant.issue user.credentials.username now now' ::ₘ table)
        user.credentials.username = token ::ₘ tokensOf hmac table user.credentials.username := by
      rw [hGrant]
      exact tokensOf_cons_self
    rw [hSelf, ← Multiset.coe_add, h.sessions user (by simp), Multiset.coe_singleton,
      Multiset.add_comm, Multiset.singleton_add]
  · intro username hNe
    exact tokensOf_cons_of_ne (Ne.symm hNe)
  · intro g hMem
    rcases Multiset.mem_cons.mp hMem with rfl | hOld
    · exact .inr rfl
    · exact .inl hOld

/-- Disproving the token of an open session closes it once. -/
theorem disproveUser_open (h : Represents hmac users table) {g : Jwt.Grant} (hOpen : g ∈ table) :
    Represents hmac (disproveUser (g.token hmac) users) (table.erase g) := by
  obtain ⟨owner, hOwner, hName⟩ := h.owners g hOpen
  have hStored : ∃ user ∈ users, g.token hmac ∈ user.tokens :=
    ⟨owner, hOwner, (h.mem_tokens hOwner).mpr ⟨hOpen, hName⟩⟩
  obtain ⟨before, user, after, rfl, hToken, -, hEq⟩ := disproveUser_eq hStored
  obtain ⟨-, hUsername⟩ := (h.mem_tokens (by simp)).mp hToken
  obtain ⟨rest, rfl⟩ := Multiset.exists_cons_of_mem hOpen
  rw [hEq, Multiset.erase_cons_head]
  refine h.replace ?_ ?_ ?_
  · have hErase : (user.tokens : Multiset Bytes) =
        g.token hmac ::ₘ (user.tokens.erase (g.token hmac) : Multiset Bytes) :=
      Multiset.coe_eq_coe.mpr (List.perm_cons_erase hToken)
    have hCons := h.sessions user (by simp)
    rw [hErase, ← hUsername, tokensOf_cons_self] at hCons
    rw [← hUsername]
    exact (Multiset.cons_inj_right _).mp hCons
  · intro username hNe
    exact (tokensOf_cons_of_ne (hUsername ▸ Ne.symm hNe)).symm
  · intro other hMem
    exact .inl (Multiset.mem_cons_of_mem hMem)

end Represents

section Admitted
variable {env : Externals} {handler handler' : Handler} {call : Call} {reply : Reply}

/-- A request that is admitted is answered for its account and path. -/
theorem Outcome.reply_of_admitted (h : Outcome env call handler handler' reply)
    (hAdmitted : Admitted env call handler) :
    reply = .ok (routeStatus (getUserData call.token handler.users) call.request.target,
      routeText env (getUserData call.token handler.users) call.request.target) := by
  cases h with
  | loggedIn hLogin => exact absurd hLogin hAdmitted.notLogin
  | wrongCredentials hLogin => exact absurd hLogin hAdmitted.notLogin
  | invalidJson hLogin => exact absurd hLogin hAdmitted.notLogin
  | loginThrew hLogin => exact absurd hLogin hAdmitted.notLogin
  | noToken hOther hToken => exact absurd hToken hAdmitted.present
  | unknownToken hOther hPresent hExist => simp [hAdmitted.exist] at hExist
  | verifyThrew hOther hPresent hExist hVerify => simp [hAdmitted.verified] at hVerify
  | notValid hOther hPresent hExist hVerify => simp [hAdmitted.verified] at hVerify
  | noMethod _ hPath => simp [routeText, routeStatus, hPath]
  | noAccess _ hPath hAccess =>
      have hRoute : call.request.target ∉ (getUserData call.token handler.users).routes := by
        rw [← checkAccess_iff, hAccess]
        simp
      simp [routeText, routeStatus, hPath, hRoute]
  | @executed method response final _ hPath hAccess hMethod =>
      have hStatus :
          routeStatus (getUserData call.token handler.users) call.request.target = .ok := by
        simp [routeStatus, hPath, checkAccess_iff.mp hAccess]
      have hText : response =
          routeText env (getUserData call.token handler.users) call.request.target := by
        rw [routeText, hStatus]
        rcases lookup_routeMethods hPath with ⟨hLogout, rfl⟩ | ⟨hSecret, rfl⟩ | ⟨hInfo, rfl⟩
        · obtain ⟨-, rfl, -⟩ := hMethod
          simp [hLogout]
        · obtain ⟨-, rfl, -⟩ := hMethod
          rw [hSecret]
          rfl
        · obtain ⟨-, rfl, -⟩ := hMethod
          rw [hInfo]
          rfl
      rw [hStatus, hText]

/-- An admitted logout on the user's routes disproves its token. -/
theorem Outcome.users_of_logout (h : Outcome env call handler handler' reply)
    (hAdmitted : Admitted env call handler) (hPath : call.request.target = routeLogout)
    (hRoute : routeLogout ∈ (getUserData call.token handler.users).routes) :
    handler'.users = disproveUser call.token handler.users := by
  have hReply := h.reply_of_admitted hAdmitted
  have hStatus : routeStatus (getUserData call.token handler.users) call.request.target = .ok := by
    have hLookup : (routeMethods.lookup routeLogout).isNone = false := rfl
    simp [routeStatus, hPath, hLookup, hRoute]
  rw [hStatus] at hReply
  subst hReply
  exact (h.logged_out hPath).2

end Admitted

theorem logout_mem_routes : ∀ account ∈ initial, routeLogout ∈ account.routes := by decide

/-- What is served depends on the account alone, not on the tokens. -/
theorem routeStatus_congr {user account : UserData} (h : user.profile = account.profile)
    (path : Bytes) : routeStatus user path = routeStatus account path := by
  have hRoutes : user.routes = account.routes := congrArg (fun record => record.routes) h
  rw [routeStatus, routeStatus, hRoutes]

/-- The answer does not show the tokens of a record. -/
theorem routeText_congr (env : Externals) {user account : UserData}
    (h : user.profile = account.profile) (path : Bytes) :
    routeText env user path = routeText env account path := by
  have hInfo : structToJsonUserInfo env user.profile = structToJsonUserInfo env account.profile :=
    congrArg (structToJsonUserInfo env) h
  have hSame : structToJsonUserInfo env user = structToJsonUserInfo env account := hInfo
  rw [routeText, routeText, routeStatus_congr h, hSame]

section Refinement
variable {env : Externals} {handler handler' : Handler} {table : Multiset Jwt.Grant} {call : Call}
  {reply : Reply}

/-- A token that no record stores is that of no open session. -/
theorem Represents.unknown (h : Represents env.hmac handler.users table)
    (hNone : ∀ user ∈ handler.users, call.token ∉ user.tokens) :
    ∀ g ∈ table, ¬ call.Carries env g := by
  rintro g hOpen ⟨-, hToken⟩
  obtain ⟨user, hUser, hOwner⟩ := h.owners g hOpen
  exact hNone user hUser (hToken ▸ (h.mem_tokens hUser).mpr ⟨hOpen, hOwner⟩)

/-- A token in front of the storage's search that is not found. -/
theorem Represents.unknown_of_not_exist (h : Represents env.hmac handler.users table)
    (hExist : tokenExist call.token handler.users = false) :
    ∀ g ∈ table, ¬ call.Carries env g := by
  refine h.unknown fun user hUser hToken => ?_
  have hFound := tokenExist_iff.mpr ⟨user, hUser, call.token, hToken, List.infix_refl _⟩
  simp [hExist] at hFound

/-- The text of no token. -/
theorem not_carries_of_no_token (hToken : call.token = [] ∨ call.token = ascii "undefined")
    (g : Jwt.Grant) : ¬ call.Carries env g := by
  rintro ⟨-, hGrant⟩
  have hDot : Jwt.dot ∈ call.token := hGrant ▸ g.dot_mem_token env.hmac
  rcases hToken with hEmpty | hUndefined
  · simp [hEmpty] at hDot
  · rw [hUndefined] at hDot
    exact absurd hDot (by decide)

/-- A call that is admitted carries an open session within its times. -/
theorem Represents.admitted (h : Represents env.hmac handler.users table)
    (hAdmitted : Admitted env call handler) :
    ∃ user ∈ handler.users, ∃ g ∈ table, call.Carries env g ∧ g.Valid call.now ∧
      g.username = user.credentials.username ∧ getUserData call.token handler.users = user := by
  obtain ⟨user, hUser, hToken, g, -, hGrant, hValid⟩ :=
    h.owned.verified hAdmitted.exist hAdmitted.verified
  obtain ⟨hOpen, hOwner⟩ := (h.mem_tokens hUser).mp (hGrant ▸ hToken)
  exact ⟨user, hUser, g, hOpen, ⟨hAdmitted.notLogin, hGrant⟩, hValid, hOwner,
    h.owned.getUserData_eq hUser hToken⟩

/-- An admitted request is a step of the table, which only a logout changes. -/
theorem Outcome.refines_of_admitted (hOutcome : Outcome env call handler handler' reply)
    (h : Represents env.hmac handler.users table) (hAdmitted : Admitted env call handler) :
    ∃ table', SessionStep env table ⟨call, reply⟩ table' ∧
      Represents env.hmac handler'.users table' := by
  obtain ⟨user, hUser, g, hOpen, hCarries, hValid, hOwner, hData⟩ := h.admitted hAdmitted
  obtain ⟨account, hAccount, hProfile⟩ := h.account hUser
  have hCredentials : user.credentials = account.credentials :=
    congrArg (fun record => record.credentials) hProfile
  have hReply := hOutcome.reply_of_admitted hAdmitted
  rw [hData, routeStatus_congr hProfile, routeText_congr env hProfile] at hReply
  rw [hReply]
  refine ⟨_, .served hOpen hCarries hValid hAccount (hCredentials ▸ hOwner), ?_⟩
  split
  · next hPath =>
      have hRoutes : user.routes = account.routes := congrArg (fun record => record.routes) hProfile
      have hRoute : routeLogout ∈ (getUserData call.token handler.users).routes := by
        rw [hData, hRoutes]
        exact logout_mem_routes account hAccount
      rw [hOutcome.users_of_logout hAdmitted hPath hRoute, hCarries.2]
      exact h.disproveUser_open hOpen
  · next hPath =>
      rw [hOutcome.users_of_admitted hAdmitted hPath]
      exact h

/-- A text that the storage finds and the verifier does not accept is either an
open session outside of its times, or part of a token and no session. -/
theorem Represents.not_accepted (h : Represents env.hmac handler.users table)
    (hExist : tokenExist call.token handler.users = true) (hOther : ¬ isLogin call.request)
    (hVerify : Jwt.verify env.hmac call.now call.token ≠ .ok true) :
    (∃ g ∈ table, call.Carries env g ∧ ¬ g.Valid call.now ∧
        Jwt.verify env.hmac call.now call.token = .ok false) ∨
      (∀ user ∈ handler.users, call.token ∉ user.tokens) ∧
        ∃ g ∈ table, call.token <:+: g.token env.hmac := by
  by_cases hStored : ∃ user ∈ handler.users, call.token ∈ user.tokens
  · obtain ⟨user, hUser, hToken⟩ := hStored
    obtain ⟨g, hOpen, -, hGrant⟩ := h.session hUser hToken
    rw [hGrant, Jwt.verify_token] at hVerify
    have hInvalid : ¬ g.Valid call.now := fun hValid => hVerify (by rw [decide_eq_true hValid])
    refine .inl ⟨g, hOpen, ⟨hOther, hGrant⟩, hInvalid, ?_⟩
    rw [hGrant, Jwt.verify_token, decide_eq_false hInvalid]
  · obtain ⟨user, hUser, stored, hToken, hInfix⟩ := tokenExist_iff.mp hExist
    obtain ⟨g, hOpen, -, rfl⟩ := h.session hUser hToken
    exact .inr ⟨fun user hUser hToken => hStored ⟨user, hUser, hToken⟩, g, hOpen, hInfix⟩

/-- Each way a request can end is a step of the table. -/
theorem Outcome.refines (hOutcome : Outcome env call handler handler' reply)
    (h : Represents env.hmac handler.users table) :
    ∃ table', SessionStep env table ⟨call, reply⟩ table' ∧
      Represents env.hmac handler'.users table' := by
  have hAdmittedStep := hOutcome.refines_of_admitted h
  cases hOutcome with
  | @loggedIn credentials token users hLogin hBody hUser =>
      obtain ⟨hToken, before, user, after, hUsers, rfl, -, -⟩ := authenticateUser_eq_some hUser
      obtain ⟨account, hAccount, hProfile⟩ := h.account (by simp [hUsers] : user ∈ handler.users)
      have hCredentials : user.credentials = account.credentials :=
        congrArg (fun record => record.credentials) hProfile
      have hSession := h.authenticateUser hUser
      rw [Jwt.createToken_eq] at hToken
      rw [hToken]
      rw [hCredentials] at hBody hSession ⊢
      exact ⟨_, .opened hLogin hAccount hBody, hSession⟩
  | @wrongCredentials credentials hLogin hBody hUser =>
      refine ⟨table, .refused hLogin hBody fun account hAccount hSame => ?_, h⟩
      obtain ⟨user, hMem, hProfile⟩ := h.record hAccount
      have hCredentials : user.credentials = account.credentials :=
        congrArg (fun record => record.credentials) hProfile
      exact authenticateUser_eq_none hUser user hMem (hCredentials.trans hSame)
  | invalidJson hLogin hBody => exact ⟨table, .malformed hLogin hBody, h⟩
  | loginThrew hLogin hBody => exact ⟨table, .loginFailed hLogin hBody, h⟩
  | noToken hOther hToken =>
      exact ⟨table, .unknown hOther fun g _ => not_carries_of_no_token hToken g, h⟩
  | unknownToken hOther _ hExist =>
      exact ⟨table, .unknown hOther (h.unknown_of_not_exist hExist), h⟩
  | verifyThrew hOther _ hExist hVerify =>
      rcases h.not_accepted hExist hOther (by simp [hVerify]) with
        ⟨g, -, -, -, hFalse⟩ | ⟨hNone, hPart⟩
      · simp [hVerify] at hFalse
      · exact ⟨table, .fragment hOther (h.unknown hNone) hPart, h⟩
  | notValid hOther _ hExist hVerify =>
      rcases h.not_accepted hExist hOther (by simp [hVerify]) with
        ⟨g, hOpen, hCarries, hInvalid, -⟩ | ⟨hNone, -⟩
      · refine ⟨table.erase g, .expired hOpen hCarries hInvalid, ?_⟩
        dsimp only
        rw [hCarries.2]
        exact h.disproveUser_open hOpen
      · refine ⟨table, .unknown hOther (h.unknown hNone), ?_⟩
        dsimp only
        rw [disproveUser_eq_self hNone]
        exact h
  | noMethod hAdmitted => exact hAdmittedStep hAdmitted
  | noAccess hAdmitted => exact hAdmittedStep hAdmitted
  | executed hAdmitted => exact hAdmittedStep hAdmitted

/-- The run of the table that a run of requests simulates. -/
theorem Run.represents {events : List Event} {handler : Handler} (run : Run env events handler) :
    ∃ table, Runs (SessionStep env) 0 events table ∧
      Represents env.hmac handler.users table := by
  have hStart : Represents env.hmac ({} : Handler).users 0 := Represents.initial
  have hSimulation : ∃ table, Runs (SessionStep env) 0 (events.filterMap some) table ∧
      Represents env.hmac handler.users table := by
    refine run.simulate (fun handler table => Represents env.hmac handler.users table) some hStart
      (by simp) ?_
    rintro handler table e e' handler' ⟨⟩ h hStep
    exact hStep.outcome.refines h
  rwa [List.filterMap_some] at hSimulation

/-- Every run of requests is a run of the table with the same replies, and the
storage at its end holds the tokens of exactly the sessions that are open. -/
theorem run_refines_table (env : Externals) {events : List Event} {handler : Handler}
    (run : Run env events handler) :
    ∃ table, Runs (SessionStep env) 0 events table ∧ Represents env.hmac handler.users table ∧
      ∀ table', Represents env.hmac handler.users table' → table' = table := by
  obtain ⟨table, hTable, h⟩ := run.represents
  exact ⟨table, hTable, h, fun _ h' => h.unique h'⟩

theorem run_refines_sample : ∃ table, Runs (SessionStep sampleEnv) 0 [sampleLogin] table ∧
    Represents sampleEnv.hmac sampleHandler.users table ∧
      ∀ table', Represents sampleEnv.hmac sampleHandler.users table' → table' = table :=
  run_refines_table sampleEnv run_sampleLogin

/-- The number of open sessions of a grant, after one more request. A login
that succeeds at the grant's times adds one. A request with the token takes one
away if it is a logout or comes outside of these times. -/
def tally (env : Externals) (g : Jwt.Grant) (n : Nat) (call : Call) : Nat :=
  if isLogin call.request then
    match jsonToCredentials env call.request.body with
    | .ok (some credentials) =>
        if (∃ account ∈ initial, account.credentials = credentials) ∧
            Jwt.Grant.issue credentials.username call.now call.now' = g then n + 1
        else n
    | _ => n
  else if call.token = g.token env.hmac ∧ (¬ g.Valid call.now ∨ call.request.target = routeLogout)
    then n - 1
  else n

/-- A login counts for the grant that it issues. -/
theorem tally_of_login (hLogin : isLogin call.request) {credentials : Credentials}
    (hBody : jsonToCredentials env call.request.body = .ok (some credentials)) (g : Jwt.Grant)
    (n : Nat) :
    tally env g n call = if (∃ account ∈ initial, account.credentials = credentials) ∧
      Jwt.Grant.issue credentials.username call.now call.now' = g then n + 1 else n := by
  rw [tally, if_pos hLogin, hBody]

/-- A request with the token counts if it takes the token away. -/
theorem tally_of_carries {g : Jwt.Grant} (h : call.Carries env g) (n : Nat) : tally env g n call =
    if ¬ g.Valid call.now ∨ call.request.target = routeLogout then n - 1 else n := by
  rw [tally, if_neg h.1]
  simp only [h.2, true_and]

/-- Other requests do not count. -/
theorem tally_of_not_carries {g : Jwt.Grant} (hOther : ¬ isLogin call.request)
    (h : ¬ call.Carries env g) (n : Nat) : tally env g n call = n := by
  rw [tally, if_neg hOther, if_neg fun hTally => h ⟨hOther, hTally.1⟩]

/-- Carrying the token of one session is carrying that of no other. -/
theorem Call.Carries.eq {g g' : Jwt.Grant} (h : call.Carries env g) (h' : call.Carries env g') :
    g' = g := Jwt.Grant.token_injective env.hmac (h'.2.symm.trans h.2)

/-- Closing a session that the call carries. -/
theorem count_erase_of_carries {g' : Jwt.Grant} (hCarries : call.Carries env g')
    (hCloses : ¬ g'.Valid call.now ∨ call.request.target = routeLogout) (g : Jwt.Grant) :
    (table.erase g').count g = tally env g (table.count g) call := by
  by_cases hSame : g' = g
  · subst hSame
    rw [tally_of_carries hCarries, if_pos hCloses, Multiset.count_erase_self]
  · rw [tally_of_not_carries hCarries.1 fun h => hSame (h.eq hCarries),
      Multiset.count_erase_of_ne (Ne.symm hSame)]

/-- The table counts as the tally does. -/
theorem SessionStep.count {e : Event} {table' : Multiset Jwt.Grant}
    (h : SessionStep env table e table') (g : Jwt.Grant) :
    table'.count g = tally env g (table.count g) e.call := by
  cases h with
  | @opened call account hLogin hAccount hBody =>
      rw [tally_of_login hLogin hBody, Multiset.count_cons]
      by_cases hSame : g = call.session account
      · subst hSame
        rw [if_pos rfl, if_pos ⟨⟨account, hAccount, rfl⟩, rfl⟩]
      · rw [if_neg hSame, if_neg fun hTally => hSame hTally.2.symm]
        rfl
  | refused hLogin hBody hNone =>
      rw [tally_of_login hLogin hBody, if_neg]
      rintro ⟨⟨account, hAccount, hSame⟩, -⟩
      exact hNone account hAccount hSame
  | malformed hLogin hBody => rw [tally, if_pos hLogin, hBody]
  | loginFailed hLogin hBody => rw [tally, if_pos hLogin, hBody]
  | @served call g' account hOpen hCarries hValid hAccount hOwner =>
      by_cases hPath : call.request.target = routeLogout
      · rw [if_pos hPath]
        exact count_erase_of_carries hCarries (.inr hPath) g
      · rw [if_neg hPath]
        by_cases hSame : g' = g
        · subst hSame
          rw [tally_of_carries hCarries, if_neg (by simp [hValid, hPath])]
        · rw [tally_of_not_carries hCarries.1 fun h => hSame (h.eq hCarries)]
  | expired hOpen hCarries hInvalid => exact count_erase_of_carries hCarries (.inl hInvalid) g
  | @unknown call hOther hUnknown | @fragment call e hOther hUnknown hPart =>
      by_cases hCarries : call.Carries env g
      · have hNone : table.count g = 0 :=
          Multiset.count_eq_zero.mpr fun hOpen => hUnknown g hOpen hCarries
        rw [tally_of_carries hCarries, hNone]
        split <;> rfl
      · rw [tally_of_not_carries hOther hCarries]

/-- Requests and clock readings alone say how many sessions are open. -/
theorem count_of_run {events : List Event} (run : Runs (SessionStep env) 0 events table)
    (g : Jwt.Grant) : table.count g = events.foldl (fun n e => tally env g n e.call) 0 := by
  refine run.history (fun events table =>
    table.count g = events.foldl (fun n e => tally env g n e.call) 0) (Multiset.count_zero g) ?_
  intro events middle e finish hCount hStep
  rw [List.foldl_append, List.foldl_cons, List.foldl_nil, ← hCount, hStep.count g]

/-- A complete token is refused exactly if its session is not open or its times
do not fit. -/
theorem SessionStep.unauthorized_iff {table' : Multiset Jwt.Grant}
    (h : SessionStep env table ⟨call, reply⟩ table') {g : Jwt.Grant}
    (hCarries : call.Carries env g) :
    reply = .ok (.unauthorized, []) ↔ ¬ (0 < table.count g ∧ g.Valid call.now) := by
  rw [Multiset.count_pos]
  cases h with
  | opened hLogin => exact absurd hLogin hCarries.1
  | refused hLogin => exact absurd hLogin hCarries.1
  | malformed hLogin => exact absurd hLogin hCarries.1
  | loginFailed hLogin => exact absurd hLogin hCarries.1
  | @served _ g' account hOpen hCarries' hValid hAccount hOwner =>
      obtain rfl := hCarries.eq hCarries'
      refine iff_of_false (fun hReply => ?_) (not_not.mpr ⟨hOpen, hValid⟩)
      simp only [Except.ok.injEq, Prod.mk.injEq] at hReply
      exact routeStatus_ne_unauthorized _ _ hReply.1
  | expired hOpen hCarries' hInvalid =>
      obtain rfl := hCarries.eq hCarries'
      exact iff_of_true rfl fun hBoth => hInvalid hBoth.2
  | unknown hOther hUnknown => exact iff_of_true rfl fun hBoth => hUnknown g hBoth.1 hCarries
  | fragment hOther hUnknown hPart =>
      obtain ⟨g', hOpen, hInfix⟩ := hPart
      rw [hCarries.2] at hInfix
      obtain rfl := Jwt.Grant.eq_of_token_infix env.hmac hInfix
      exact absurd hCarries (hUnknown g hOpen)

/-- The history of requests decides how often a token is stored, and with that
whether a request that carries it gets through. -/
theorem stored_count (env : Externals) {events : List Event} {handler : Handler}
    (run : Run env events handler) (g : Jwt.Grant) :
    (∀ user ∈ handler.users, user.credentials.username = g.username →
      user.tokens.count (g.token env.hmac) = events.foldl (fun n e => tally env g n e.call) 0) ∧
    (∀ user ∈ handler.users, user.credentials.username ≠ g.username →
      g.token env.hmac ∉ user.tokens) ∧
    ∀ call : Call, call.Carries env g →
      ((handle env call handler).2 = .ok (.unauthorized, []) ↔
        ¬ (0 < events.foldl (fun n e => tally env g n e.call) 0 ∧ g.Valid call.now)) := by
  obtain ⟨table, hTable, h⟩ := run.represents
  rw [← count_of_run hTable g]
  refine ⟨fun user hUser hOwner => h.count_tokens hUser hOwner, fun user hUser hOther hToken => ?_,
    fun call hCarries => ?_⟩
  · obtain ⟨grant, hOwner, hSame⟩ := run.owned.issued user hUser _ hToken
    have hGrant : grant = g := Jwt.Grant.eq_of_token_infix env.hmac (hSame ▸ List.infix_refl _)
    exact hOther (by rw [← hOwner, hGrant])
  · obtain ⟨table', hStep, -⟩ := (handle_outcome env call handler).refines h
    exact hStep.unauthorized_iff hCarries

/-- The session of the second user is stored once after his login. -/
theorem stored_count_sample :
    (∀ user ∈ sampleHandler.users, user.credentials.username = ascii "user" →
      user.tokens.count sampleToken = 1) ∧
    (∀ user ∈ sampleHandler.users, user.credentials.username ≠ ascii "user" →
      sampleToken ∉ user.tokens) ∧
    ∀ call : Call, call.Carries sampleEnv (sampleLogin.grant secondUser.credentials) →
      ((handle sampleEnv call sampleHandler).2 = .ok (.unauthorized, []) ↔
        ¬ (0 < 1 ∧ (sampleLogin.grant secondUser.credentials).Valid call.now)) := by
  have hTally : [sampleLogin].foldl (fun n e =>
      tally sampleEnv (sampleLogin.grant secondUser.credentials) n e.call) 0 = 1 := by
    rw [List.foldl_cons, List.foldl_nil, tally_of_login loggedIn_sample.login loggedIn_sample.body]
    exact if_pos ⟨⟨secondUser, by simp [initial], rfl⟩, rfl⟩
  have hToken : sampleToken = (sampleLogin.grant secondUser.credentials).token sampleEnv.hmac :=
    loggedIn_sample.token_grant
  have hCount := stored_count sampleEnv run_sampleLogin (sampleLogin.grant secondUser.credentials)
  rw [hTally, ← hToken] at hCount
  exact hCount

end Refinement

end Api

import GisService.Api.Authorisation
import GisService.Http.Session

/-! Which tokens make a request fail. The storage lets fragments of tokens pass
to the decoder, which throws on most of them, and nothing on the way out of
`handle_request` catches. -/
namespace Api

open ByteString Cxx Http Users

/-- Texts that get an answer: none, the word `undefined`, what no stored token
contains, and a stored token whose signature is cut to a possible length. -/
def SafeToken (users : Storage) (token : Bytes) : Prop :=
  token = [] ∨ token = ascii "undefined" ∨
    (∀ user ∈ users, ∀ stored ∈ user.tokens, ¬ token <:+: stored) ∨
    ∃ user ∈ users, ∃ stored ∈ user.tokens, Jwt.CutSignature stored token

variable {env : Externals} {handler handler' : Handler}

/-- Verification of a text that the storage finds returns exactly on cuts of
stored tokens. -/
theorem verify_isOk_iff_cut (hOwned : Owned env.hmac handler.users) (time : TimePoint)
    {token : Bytes} (hExist : tokenExist token handler.users = true) :
    (Jwt.verify env.hmac time token).isOk = true ↔
      ∃ user ∈ handler.users, ∃ stored ∈ user.tokens, Jwt.CutSignature stored token := by
  constructor
  · intro hOk
    obtain ⟨user, hUser, stored, hStored, hInfix⟩ := tokenExist_iff.mp hExist
    obtain ⟨grant, -, rfl⟩ := hOwned.issued user hUser stored hStored
    exact ⟨user, hUser, _, hStored, (Jwt.verify_isOk_iff env.hmac time hInfix).mp hOk⟩
  · rintro ⟨user, hUser, stored, hStored, hCut⟩
    obtain ⟨grant, -, rfl⟩ := hOwned.issued user hUser stored hStored
    exact (Jwt.verify_isOk_iff env.hmac time hCut.1.isInfix).mpr hCut

/-- A found token is safe exactly if its verification returns. -/
theorem safeToken_iff (hOwned : Owned env.hmac handler.users) (time : TimePoint) {token : Bytes}
    (hPresent : ¬ (token = [] ∨ token = ascii "undefined"))
    (hExist : tokenExist token handler.users = true) :
    SafeToken handler.users token ↔ (Jwt.verify env.hmac time token).isOk = true := by
  obtain ⟨hEmpty, hUndefined⟩ := not_or.mp hPresent
  obtain ⟨user, hUser, stored, hStored, hInfix⟩ := tokenExist_iff.mp hExist
  rw [verify_isOk_iff_cut hOwned time hExist, SafeToken]
  constructor
  · rintro (h | h | h | h)
    · exact absurd h hEmpty
    · exact absurd h hUndefined
    · exact absurd hInfix (h user hUser stored hStored)
    · exact h
  · exact fun h => .inr (.inr (.inr h))

/-- A request returns exactly if its token is safe to look at. -/
theorem Outcome.isOk_iff {call : Call} {reply : Reply} (h : Outcome env call handler handler' reply)
    (hOwned : Owned env.hmac handler.users) (hOther : ¬ isLogin call.request) :
    reply.isOk = true ↔ SafeToken handler.users call.token := by
  have hAdmits (hAdmitted : Admitted env call handler) : SafeToken handler.users call.token := by
    rw [safeToken_iff hOwned call.now hAdmitted.present hAdmitted.exist, hAdmitted.verified]
    rfl
  cases h with
  | loggedIn hLogin => exact absurd hLogin hOther
  | wrongCredentials hLogin => exact absurd hLogin hOther
  | invalidJson hLogin => exact absurd hLogin hOther
  | loginThrew hLogin => exact absurd hLogin hOther
  | noToken _ hToken => exact iff_of_true rfl (hToken.elim .inl fun h => .inr (.inl h))
  | unknownToken _ hPresent hExist =>
      refine iff_of_true rfl (.inr (.inr (.inl fun user hUser stored hStored hInfix => ?_)))
      have hFound := tokenExist_iff.mpr ⟨user, hUser, stored, hStored, hInfix⟩
      simp [hExist] at hFound
  | verifyThrew _ hPresent hExist hVerify =>
      rw [safeToken_iff hOwned call.now hPresent hExist, hVerify]
      exact Iff.rfl
  | notValid _ hPresent hExist hVerify =>
      rw [safeToken_iff hOwned call.now hPresent hExist, hVerify]
      exact Iff.rfl
  | noMethod hAdmitted => exact iff_of_true rfl (hAdmits hAdmitted)
  | noAccess hAdmitted => exact iff_of_true rfl (hAdmits hAdmitted)
  | executed hAdmitted => exact iff_of_true rfl (hAdmits hAdmitted)

/-- A response is sent exactly if the call has returned. -/
theorem handleApi_sends_once_iff (server : Server) (request : Request) (reply : Reply) :
    (handleApi server request reply).1.length = 1 ↔ reply.isOk = true := by
  cases reply with
  | error e => simp [handleApi]
  | ok result =>
      obtain ⟨status, respBody⟩ := result
      cases status <;> exact iff_of_true rfl rfl

/-- In every reachable state, a request other than a login gets a status exactly
if its token is safe, and then `handle_request` sends exactly one response. -/
theorem handle_returns_iff (env : Externals) {events : List Event} {handler : Handler}
    (run : Run env events handler) (call : Call) (hOther : ¬ isLogin call.request) :
    ((handle env call handler).2.isOk = true ↔ SafeToken handler.users call.token) ∧
      ∀ server openFile, ReachesApi call.request →
        ((handleRequest server ⟨call.request, openFile, (handle env call handler).2⟩).1.length = 1 ↔
          SafeToken handler.users call.token) := by
  have hReturns := (handle_outcome env call handler).isOk_iff run.owned hOther
  refine ⟨hReturns, fun server openFile hApi => ?_⟩
  rw [← hReturns, ← handleApi_sends_once_iff server call.request]
  exact Iff.of_eq (congrArg (fun handled : Handled => handled.1.length = 1) (handleRequest_api hApi))

/-- A request whose token is a single dot. -/
def dotCall : Call where
  request :=
    { method := .get, target := routeInfo, fields := [(ascii "Authorization", [Jwt.dot])] }
  now := 1700000030000000000
  now' := 1700000030000000000

theorem handle_returns_sample :
    ((handle sampleEnv dotCall sampleHandler).2.isOk = true ↔
        SafeToken sampleHandler.users dotCall.token) ∧
      ∀ server openFile, ReachesApi dotCall.request →
        ((handleRequest server ⟨dotCall.request, openFile,
            (handle sampleEnv dotCall sampleHandler).2⟩).1.length = 1 ↔
          SafeToken sampleHandler.users dotCall.token) :=
  handle_returns_iff sampleEnv run_sampleLogin dotCall (by decide)

/-- A single dot is a substring of the stored token, and its empty parts decode
to no JSON. -/
theorem dot_token_throws :
    Run sampleEnv [sampleLogin] sampleHandler ∧ ¬ isLogin dotCall.request ∧
      (handle sampleEnv dotCall sampleHandler).2 = .error .invalidArgument ∧
      (handleRequest sampleServer ⟨dotCall.request, fun _ => .noSuchFileOrDirectory,
        (handle sampleEnv dotCall sampleHandler).2⟩).1 = [] := by
  have hExist : tokenExist dotCall.token sampleHandler.users = true := by
    have hDot : Jwt.dot ∈ sampleToken := by
      rw [loggedIn_sample.token_grant]
      exact Jwt.Grant.dot_mem_token _ _
    obtain ⟨before, after, hSplit⟩ := List.append_of_mem hDot
    exact tokenExist_iff.mpr ⟨{ secondUser with tokens := [sampleToken] },
      by simp [sampleHandler, handlerStoring], sampleToken, by simp, before, after, by
        rw [hSplit]
        simp [dotCall, authorization, Request.field, iequals]⟩
  have hOutcome : Outcome sampleEnv dotCall sampleHandler sampleHandler (.error .invalidArgument) :=
    .verifyThrew (by decide) (by decide) hExist (by decide +kernel)
  rw [hOutcome.handle_eq]
  exact ⟨run_sampleLogin, by decide, rfl, by decide +kernel⟩

end Api

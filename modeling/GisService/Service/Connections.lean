import GisService.Api.Login
import GisService.Api.Totality
import GisService.Data.Interleaving

/-! The HTTP server as a whole: any number of connections, each with a session
of its own, on one `CAPIHandler`. The threads of the `io_context` may run the
handlers of different sessions in any order. -/
namespace Service

open ByteString Cxx Http HttpHead Api

/-- What a session is waiting for, or that `handle_request` is running. -/
inductive Stage where
  | idle
  | reading
  | handling (request : Request)
  | writing
  | closed

structure Session where
  stage : Stage := .idle
  connection : Connection := {}

/-- The singletons, as long as no exception has left `io_context::run`. -/
inductive Process where
  | running (handler : Handler)
  | terminated

/-- What happens on one connection. Handling a request may include a call of
`HandleApiRequest`. -/
inductive Action where
  | accepted
  | read (request : Request)
  | readFailed
  | answered (x : Exchange) (event : Option Event)
  | threw (x : Exchange) (event : Option Event)
  | wrote
  | writeFailed

/-- `handle_request` calls `HandleApiRequest` or looks at files. The call holds
the mutex of the handler from beginning to end. -/
inductive Handles (env : Externals) (handler : Handler) (x : Exchange) :
    Option Event → Handler → Prop where
  | files (h : ¬ ReachesApi x.request) : Handles env handler x none handler
  | api {e : Event} {handler' : Handler} (h : ReachesApi x.request)
      (hRequest : e.request = x.request) (hReply : e.reply = x.api)
      (hStep : Step env handler e handler') : Handles env handler x (some e) handler'

/-- One move of one session. Both kinds of read error end it. After a response
`on_write` closes the connection or reads on, as the response says. -/
inductive Move (env : Externals) (codec : Codec) (server : Server) :
    Process × Session → Action → Process × Session → Prop where
  | accepted {handler : Handler} {c : Connection} :
      Move env codec server (.running handler, ⟨.idle, c⟩) .accepted
        (.running handler, ⟨.reading, c⟩)
  | read {handler : Handler} {c : Connection} (request : Request) :
      Move env codec server (.running handler, ⟨.reading, c⟩) (.read request)
        (.running handler, ⟨.handling request, c⟩)
  | readFailed {handler : Handler} {c : Connection} :
      Move env codec server (.running handler, ⟨.reading, c⟩) .readFailed
        (.running handler, ⟨.closed, c⟩)
  | answered {handler handler' : Handler} {c : Connection} {x : Exchange} {event : Option Event}
      {response : Response} (hHandles : Handles env handler x event handler')
      (hSent : handleRequest server x = ([response], none)) :
      Move env codec server (.running handler, ⟨.handling x.request, c⟩) (.answered x event)
        (.running handler', ⟨.writing,
          { written := c.written ++ wire codec response, isOpen := response.head.keepAlive }⟩)
  | threw {handler handler' : Handler} {c : Connection} {x : Exchange} {event : Option Event}
      {e : Exception} (hHandles : Handles env handler x event handler')
      (hThrew : handleRequest server x = ([], some e)) :
      Move env codec server (.running handler, ⟨.handling x.request, c⟩) (.threw x event)
        (.terminated, ⟨.handling x.request, c⟩)
  | wrote {handler : Handler} {c : Connection} :
      Move env codec server (.running handler, ⟨.writing, c⟩) .wrote
        (.running handler, ⟨if c.isOpen then .reading else .closed, c⟩)
  | writeFailed {handler : Handler} {c : Connection} :
      Move env codec server (.running handler, ⟨.writing, c⟩) .writeFailed
        (.running handler, ⟨.closed, c⟩)

section
variable {I : Type} [DecidableEq I]

/-- A run of the server from its start, with connections numbered by `I`. -/
abbrev ServerRun (env : Externals) (codec : Codec) (server : Server) :
    List (I × Action) → Process × (I → Session) → Prop :=
  Runs (Interleaved (Move env codec server)) (.running {}, fun _ => {})

end

def Action.event? : Action → Option Event
  | .answered _ event => event
  | .threw _ event => event
  | _ => none

def Action.exchange? : Action → Option Exchange
  | .answered x _ => some x
  | _ => none

def Action.request? : Action → Option Request
  | .read request => some request
  | _ => none

section
variable {I : Type} [DecidableEq I]

/-- The calls of `HandleApiRequest` by all connections, in the order of the
mutex. -/
def apiEvents (labels : List (I × Action)) : List Event :=
  labels.filterMap fun label => label.2.event?

/-- The requests answered on one connection. -/
def exchangesOf (i : I) (labels : List (I × Action)) : List Exchange :=
  (labelsOf i labels).filterMap Action.exchange?

/-- The requests read on one connection. -/
def requestsOf (i : I) (labels : List (I × Action)) : List Request :=
  (labelsOf i labels).filterMap Action.request?

end

/-- The request that is being handled. -/
def Session.pending (session : Session) : List Request :=
  match session.stage with
  | .handling request => [request]
  | _ => []

variable {env : Externals} {codec : Codec} {server : Server}

/-- The connection can still be read from, unless a response has closed it. -/
def Session.Open (session : Session) : Prop :=
  session.stage ≠ .writing → session.stage ≠ .closed → session.connection.isOpen = true

/-- What one session does to its connection, it does by answering. -/
theorem Move.serves {p p' : Process} {session session' : Session} {a : Action}
    (h : Move env codec server (p, session) a (p', session')) (hOpen : session.Open) :
    session'.Open ∧ match a.exchange? with
      | none => session'.connection = session.connection
      | some x => Serve codec server session.connection x session'.connection := by
  cases h with
  | accepted => exact ⟨fun _ _ => hOpen nofun nofun, rfl⟩
  | read request => exact ⟨fun _ _ => hOpen nofun nofun, rfl⟩
  | readFailed => exact ⟨fun _ hClosed => absurd rfl hClosed, rfl⟩
  | @answered handler handler' c x event response hHandles hSent =>
      exact ⟨fun hWriting => absurd rfl hWriting, hOpen nofun nofun, response, hSent, rfl⟩
  | threw => exact ⟨fun _ _ => hOpen nofun nofun, rfl⟩
  | @wrote handler c =>
      refine ⟨fun _ hClosed => ?_, rfl⟩
      dsimp only at hClosed ⊢
      by_contra hNot
      exact hClosed (if_neg hNot)
  | writeFailed => exact ⟨fun _ hClosed => absurd rfl hClosed, rfl⟩

/-- A move reads a request, answers the one that is being handled, or leaves the
requests alone. -/
theorem Move.pending {p p' : Process} {session session' : Session} {a : Action}
    (h : Move env codec server (p, session) a (p', session')) :
    session.pending ++ a.request?.toList =
      a.exchange?.toList.map Exchange.request ++ session'.pending := by
  cases h with
  | @wrote handler c =>
      obtain ⟨written, isOpen⟩ := c
      cases isOpen <;> rfl
  | accepted => rfl
  | read => rfl
  | readFailed => rfl
  | answered => rfl
  | threw => rfl
  | writeFailed => rfl

section
variable {I : Type} [DecidableEq I] {labels : List (I × Action)}
  {finish : Process × (I → Session)}

/-- Each connection is served as if it were alone. -/
theorem connection_run (run : ServerRun env codec server labels finish) (i : I) :
    Runs (Serve codec server) {} (exchangesOf i labels) (finish.2 i).connection := by
  have hSimulation : ∃ c, Runs (Serve codec server) {} (exchangesOf i labels) c ∧
      (finish.2 i).Open ∧ (finish.2 i).connection = c := by
    refine (Interleaved.component run i).simulate
      (fun session c => session.Open ∧ session.connection = c) Action.exchange?
      ⟨fun _ _ => rfl, rfl⟩ ?_ ?_
    · rintro session c a session' hSilent ⟨hOpen, rfl⟩ ⟨p, p', hMove⟩
      have hServes := hMove.serves hOpen
      rw [hSilent] at hServes
      exact hServes
    · rintro session c a x session' hVisible ⟨hOpen, rfl⟩ ⟨p, p', hMove⟩
      have hServes := hMove.serves hOpen
      rw [hVisible] at hServes
      exact ⟨session'.connection, hServes.2, hServes.1, rfl⟩
  obtain ⟨c, hRun, -, rfl⟩ := hSimulation
  exact hRun

/-- The requests read on a connection are those answered and at most one more. -/
theorem requests_of_run (run : ServerRun env codec server labels finish) (i : I) :
    requestsOf i labels = (exchangesOf i labels).map Exchange.request ++ (finish.2 i).pending := by
  refine (Interleaved.component run i).history (fun actions session =>
    actions.filterMap Action.request? =
      (actions.filterMap Action.exchange?).map Exchange.request ++ session.pending) rfl ?_
  rintro actions session a session' hRequests ⟨p, p', hMove⟩
  have hPending := hMove.pending
  have hSingle {β : Type} (f : Action → Option β) : [a].filterMap f = (f a).toList := by
    cases h : f a <;> simp [h]
  rw [List.filterMap_append, List.filterMap_append, hRequests, hSingle, hSingle, List.map_append,
    List.append_assoc, hPending, List.append_assoc]

end

/-- Away from the API one response is sent. -/
theorem handleRequest_files (server : Server) {x : Exchange} (h : ¬ ReachesApi x.request) :
    ∃ response, handleRequest server x = ([response], none) := by
  have hFile (result : OpenResult) (found : Bytes → Response) :
      ∃ response, withFile server x.request result found = ([response], none) := by
    cases result with
    | opened contents => exact ⟨_, rfl⟩
    | noSuchFileOrDirectory => exact ⟨_, rfl⟩
    | failed message => exact ⟨_, rfl⟩
  simp only [handleRequest]
  split
  · exact ⟨_, rfl⟩
  split
  · exact ⟨_, rfl⟩
  next hKnown hLegal =>
  split
  · exact hFile _ _
  next hHead =>
  split
  · exact ⟨_, rfl⟩
  next hOptions =>
  split
  · exact hFile _ _
  next hGet =>
  refine absurd ⟨by simpa using hLegal, ?_⟩ h
  cases hMethod : x.request.method with
  | get => exact .inr ⟨rfl, by simpa [hMethod] using hGet⟩
  | head => exact absurd hMethod hHead
  | post => exact .inl rfl
  | options => exact absurd hMethod hOptions
  | other name => simp [knownMethod, hMethod] at hKnown

/-- One call of the API is answered unless it ends in an exception. -/
theorem handleApi_isOk (server : Server) (request : Request) (reply : Reply) :
    (∃ response, handleApi server request reply = ([response], none) ∧ reply.isOk = true) ∨
      ∃ e, handleApi server request reply = ([], some e) ∧ reply.isOk = false := by
  cases reply with
  | error e => exact .inr ⟨e, rfl, rfl⟩
  | ok result =>
      obtain ⟨status, text⟩ := result
      cases status <;> exact .inl ⟨_, rfl, rfl⟩

/-- What was answered got a status. -/
theorem Handles.isOk_of_sent {handler handler' : Handler} {x : Exchange} {e : Event}
    {response : Response} (h : Handles env handler x (some e) handler')
    (hSent : handleRequest server x = ([response], none)) : e.reply.isOk = true := by
  cases h with
  | api hApi hRequest hReply hStep =>
      rw [handleRequest_api hApi] at hSent
      rcases handleApi_isOk server x.request x.api with ⟨_, -, hOk⟩ | ⟨_, hThrew, -⟩
      · rw [hReply]
        exact hOk
      · rw [hThrew] at hSent
        simp at hSent

/-- What threw was a call of the API. -/
theorem Handles.event_of_threw {handler handler' : Handler} {x : Exchange} {event : Option Event}
    {exception : Exception} (h : Handles env handler x event handler')
    (hThrew : handleRequest server x = ([], some exception)) :
    ∃ e, event = some e ∧ e.reply.isOk = false := by
  cases h with
  | files hFiles =>
      obtain ⟨response, hSent⟩ := handleRequest_files server hFiles
      rw [hSent] at hThrew
      simp at hThrew
  | @api e _ hApi hRequest hReply hStep =>
      rw [handleRequest_api hApi] at hThrew
      refine ⟨e, rfl, ?_⟩
      rcases handleApi_isOk server x.request x.api with ⟨_, hSent, -⟩ | ⟨_, -, hOk⟩
      · rw [hSent] at hThrew
        simp at hThrew
      · rw [hReply]
        exact hOk

/-- A move of any session calls the API once or not at all. An exception stops
the process. -/
theorem Move.api {p p' : Process} {session session' : Session} {a : Action}
    (h : Move env codec server (p, session) a (p', session')) :
    ∃ handler, p = .running handler ∧ match a.event? with
      | none => p' = .running handler
      | some e => ∃ handler', Step env handler e handler' ∧
          p' = if e.reply.isOk then .running handler' else .terminated := by
  cases h with
  | @answered handler handler' c x event response hHandles hSent =>
      refine ⟨handler, rfl, ?_⟩
      cases hEvent : event with
      | none =>
          subst hEvent
          cases hHandles with
          | files => rfl
      | some e =>
          subst hEvent
          have hOk := hHandles.isOk_of_sent hSent
          cases hHandles with
          | api hApi hRequest hReply hStep => exact ⟨handler', hStep, (if_pos hOk).symm⟩
  | @threw handler handler' c x event e hHandles hThrew =>
      refine ⟨handler, rfl, ?_⟩
      obtain ⟨event, rfl, hNotOk⟩ := hHandles.event_of_threw hThrew
      cases hHandles with
      | api hApi hRequest hReply hStep => exact ⟨handler', hStep, by simp [hNotOk]⟩
  | accepted => exact ⟨_, rfl, rfl⟩
  | read => exact ⟨_, rfl, rfl⟩
  | readFailed => exact ⟨_, rfl, rfl⟩
  | wrote => exact ⟨_, rfl, rfl⟩
  | writeFailed => exact ⟨_, rfl, rfl⟩

section
variable {I : Type} [DecidableEq I] {labels : List (I × Action)}
  {finish : Process × (I → Session)}

/-- The calls of all connections are one run of the API. The process has its
last state, or a call has stopped it. -/
theorem api_run (run : ServerRun env codec server labels finish) :
    ∃ handler, Run env (apiEvents labels) handler ∧
      ((∀ e ∈ apiEvents labels, e.reply.isOk = true) ∧ finish.1 = .running handler ∨
        (∃ e ∈ apiEvents labels, e.reply.isOk = false) ∧ finish.1 = .terminated) := by
  refine run.history (fun labels finish => ∃ handler, Run env (apiEvents labels) handler ∧
      ((∀ e ∈ apiEvents labels, e.reply.isOk = true) ∧ finish.1 = .running handler ∨
        (∃ e ∈ apiEvents labels, e.reply.isOk = false) ∧ finish.1 = .terminated))
    ⟨{}, .nil, .inl ⟨by simp [apiEvents], rfl⟩⟩ ?_
  rintro labels middle label finish ⟨handler, hRun, hProcess⟩ hStep
  cases hStep with
  | @move p p' sessions i a session' hMove =>
      obtain ⟨current, rfl, hApi⟩ := hMove.api
      obtain ⟨hOk, hCurrent⟩ : (∀ e ∈ apiEvents labels, e.reply.isOk = true) ∧
          Process.running current = .running handler := by simpa using hProcess
      obtain rfl := Process.running.inj hCurrent
      have hSnoc : apiEvents (labels ++ [(i, a)]) = apiEvents labels ++ a.event?.toList := by
        rw [apiEvents, List.filterMap_append, apiEvents]
        cases hEvent : a.event? <;> simp [hEvent]
      rw [hSnoc]
      cases hEvent : a.event? with
      | none =>
          rw [hEvent] at hApi
          refine ⟨current, ?_, .inl ⟨?_, hApi⟩⟩
          · simpa using hRun
          · simpa using hOk
      | some e =>
          rw [hEvent] at hApi
          obtain ⟨handler', hCall, hNext⟩ := hApi
          refine ⟨handler', hRun.snoc hCall, ?_⟩
          cases hReply : e.reply.isOk with
          | true =>
              rw [hReply] at hNext
              refine .inl ⟨fun event hMem => ?_, hNext⟩
              rcases List.mem_append.mp hMem with hOld | hNew
              · exact hOk event hOld
              · rw [List.mem_singleton.mp hNew]
                exact hReply
          | false =>
              rw [hReply] at hNext
              exact .inr ⟨⟨e, by simp, hReply⟩, hNext⟩

/-- Before each move the process was running, in the state that the calls so far
had left. -/
theorem move_of_run (run : ServerRun env codec server labels finish)
    {before after : List (I × Action)} {i : I} {a : Action}
    (hLabels : labels = before ++ (i, a) :: after) :
    ∃ handler, Run env (apiEvents before) handler ∧ (∀ e ∈ apiEvents before, e.reply.isOk = true) ∧
      ∃ session p' session',
        Move env codec server (.running handler, session) a (p', session') := by
  subst hLabels
  obtain ⟨middle, hBefore, hRest⟩ := run.split
  obtain ⟨next, hStep, -⟩ := hRest.first_step
  obtain ⟨handler, hRun, hProcess⟩ := api_run hBefore
  cases hStep with
  | @move p p' sessions i a session' hMove =>
      obtain ⟨current, rfl, -⟩ := hMove.api
      obtain ⟨hOk, hCurrent⟩ : (∀ e ∈ apiEvents before, e.reply.isOk = true) ∧
          Process.running current = .running handler := by simpa using hProcess
      obtain rfl := Process.running.inj hCurrent
      exact ⟨current, hRun, hOk, sessions i, p', session', hMove⟩

/-- An answer was given in the state of its moment. -/
theorem handles_of_run (run : ServerRun env codec server labels finish)
    {before after : List (I × Action)} {i : I} {x : Exchange} {event : Option Event}
    (hLabels : labels = before ++ (i, .answered x event) :: after) :
    ∃ handler handler' response, Run env (apiEvents before) handler ∧
      Handles env handler x event handler' ∧ handleRequest server x = ([response], none) := by
  obtain ⟨handler, hRun, -, session, p', session', hMove⟩ := move_of_run run hLabels
  cases hMove with
  | answered hHandles hSent => exact ⟨_, _, _, hRun, hHandles, hSent⟩

end

/-- A call of the API as it reaches `handle_request`. -/
def callExchange (e : Event) : Exchange where
  request := e.request
  openFile _ := .noSuchFileOrDirectory
  api := e.reply

def beforeInfo : List (Bool × Action) :=
  [(false, .accepted), (false, .read sampleLogin.request), (true, .accepted),
    (true, .read sampleInfo.request), (false, .answered (callExchange sampleLogin) sampleLogin)]

/-- The second user logs in on one connection and asks for its record on the other. -/
def sampleLabels : List (Bool × Action) :=
  beforeInfo ++ [(true, .answered (callExchange sampleInfo) sampleInfo)]

/-- A call of the API that succeeds is answered. -/
theorem move_answered {handler handler' : Handler} {c : Connection} {e : Event} {text : Bytes}
    (hApi : ReachesApi e.request) (hReply : e.reply = .ok (.ok, text))
    (hStep : Step env handler e handler') :
    Move env codec server (.running handler, ⟨.handling e.request, c⟩)
      (.answered (callExchange e) (some e)) (.running handler', ⟨.writing,
        { written := c.written ++ wire codec (apiResponse e.request text),
          isOpen := (apiResponse e.request text).head.keepAlive }⟩) := by
  have hSent : handleRequest server (callExchange e) = ([apiResponse e.request text], none) := by
    have hApi' : ReachesApi (callExchange e).request := hApi
    rw [handleRequest_api hApi', callExchange, hReply]
    rfl
  exact .answered (.api hApi rfl rfl hStep) hSent

/-- A move of one connection is a step of the server. -/
theorem Session.moves {I : Type} [DecidableEq I] {labels : List (I × Action)}
    {finish : Process × (I → Session)} (run : ServerRun env codec server labels finish) (i : I)
    {p : Process} {session : Session} {a : Action}
    (hMove : Move env codec server (finish.1, finish.2 i) a (p, session)) :
    ServerRun env codec server (labels ++ [(i, a)]) (p, Function.update finish.2 i session) :=
  run.snoc (.move hMove)

theorem step_sampleInfo : Step sampleEnv sampleHandler sampleInfo
    (handlerStoring [sampleToken] sampleInfo.call.context) := by
  have hData : Users.getUserData sampleToken sampleHandler.users =
      { Users.secondUser with tokens := [sampleToken] } :=
    run_sampleLogin.owned.getUserData_eq (by simp [sampleHandler, handlerStoring]) (by simp)
  have hMethod : infoUser sampleEnv [] (handlerStoring [sampleToken] sampleInfo.call.context) =
      (true, structToJsonUserInfo sampleEnv { Users.secondUser with tokens := [sampleToken] },
        handlerStoring [sampleToken] sampleInfo.call.context) := by
    rw [← hData]
    rfl
  exact step_sampleCall run_sampleLogin.owned (by simp) (by decide) (by decide) rfl hMethod

/-- The labels are those of a run of the server. -/
theorem run_sampleLabels :
    ∃ finish, ServerRun sampleEnv http1 sampleServer sampleLabels finish := by
  have hAccepted : ServerRun sampleEnv http1 sampleServer [(false, .accepted)] _ :=
    Session.moves .nil false .accepted
  have hRead := Session.moves hAccepted false (.read sampleLogin.request)
  have hOther := Session.moves hRead true .accepted
  have hAsked := Session.moves hOther true (.read sampleInfo.request)
  have hLogin := Session.moves hAsked false (move_answered (by decide) rfl step_sampleLogin)
  exact ⟨_, Session.moves hLogin true (move_answered (by decide) rfl step_sampleInfo)⟩

section
variable {I : Type} [DecidableEq I] {labels : List (I × Action)}
  {finish : Process × (I → Session)}

/-- Whatever the order in which the connections are handled, the calls of the
API are one run of it, and each connection gets the answers to its own requests
in order, with the outcomes of its own calls. -/
theorem requests_serialized (env : Externals) (codec : Codec) (server : Server)
    (run : ServerRun env codec server labels finish) :
    (∃ handler, Run env (apiEvents labels) handler ∧
      (finish.1 = .running handler ∨ finish.1 = .terminated)) ∧
    (∀ i, Runs (Serve codec server) {} (exchangesOf i labels) (finish.2 i).connection ∧
      requestsOf i labels =
        (exchangesOf i labels).map Exchange.request ++ (finish.2 i).pending) ∧
    ∀ i x event, (i, Action.answered x event) ∈ labels →
      (event = none ↔ ¬ ReachesApi x.request) ∧
        ∀ e, event = some e → e.request = x.request ∧ e.reply = x.api := by
  refine ⟨?_, fun i => ⟨connection_run run i, requests_of_run run i⟩, ?_⟩
  · obtain ⟨handler, hRun, hProcess⟩ := api_run run
    exact ⟨handler, hRun, hProcess.imp And.right And.right⟩
  · intro i x event hMem
    obtain ⟨before, after, hLabels⟩ := List.append_of_mem hMem
    obtain ⟨handler, handler', response, -, hHandles, -⟩ := handles_of_run run hLabels
    cases hHandles with
    | files hFiles => exact ⟨iff_of_true rfl hFiles, nofun⟩
    | api hApi hRequest hReply hStep =>
        refine ⟨iff_of_false nofun (not_not.mpr hApi), ?_⟩
        rintro e ⟨⟩
        exact ⟨hRequest, hReply⟩

theorem requests_serialized_sample : ∃ finish : Process × (Bool → Session),
    (∃ handler, Run sampleEnv (apiEvents sampleLabels) handler ∧
      (finish.1 = .running handler ∨ finish.1 = .terminated)) ∧
    (∀ i, Runs (Serve http1 sampleServer) {} (exchangesOf i sampleLabels) (finish.2 i).connection ∧
      requestsOf i sampleLabels =
        (exchangesOf i sampleLabels).map Exchange.request ++ (finish.2 i).pending) ∧
    ∀ i x event, (i, Action.answered x event) ∈ sampleLabels →
      (event = none ↔ ¬ ReachesApi x.request) ∧
        ∀ e, event = some e → e.request = x.request ∧ e.reply = x.api := by
  obtain ⟨finish, run⟩ := run_sampleLabels
  exact ⟨finish, requests_serialized sampleEnv http1 sampleServer run⟩

/-- A call of the API that got a status was answered on some connection. -/
theorem answered_of_event (run : ServerRun env codec server labels finish) {e : Event}
    (hMem : e ∈ apiEvents labels) (hOk : e.reply.isOk = true) :
    ∃ j x, (j, Action.answered x (some e)) ∈ labels := by
  obtain ⟨⟨j, a⟩, hLabel, hEvent⟩ := List.mem_filterMap.mp hMem
  obtain ⟨before, after, hLabels⟩ := List.append_of_mem hLabel
  cases a with
  | answered x event =>
      obtain rfl : event = some e := hEvent
      exact ⟨j, x, hLabel⟩
  | threw x event =>
      obtain rfl : event = some e := hEvent
      obtain ⟨handler, -, -, session, p', session', hMove⟩ := move_of_run run hLabels
      cases hMove with
      | threw hHandles hThrew =>
          obtain ⟨other, hSame, hNotOk⟩ := hHandles.event_of_threw hThrew
          obtain rfl := Option.some.inj hSame
          simp [hOk] at hNotOk
  | accepted => simp [Action.event?] at hEvent
  | read request => simp [Action.event?] at hEvent
  | readFailed => simp [Action.event?] at hEvent
  | wrote => simp [Action.event?] at hEvent
  | writeFailed => simp [Action.event?] at hEvent

/-- Among the responses of the API, only those of its successful calls have the
code 200. -/
theorem reply_of_ok_code {request : Request} {reply : Reply} {response : Response}
    (hSent : handleApi server request reply = ([response], none))
    (hCode : response.head.code = 200) :
    ∃ text, reply = .ok (.ok, text) ∧ response = apiResponse request text := by
  cases reply with
  | error e => simp [handleApi] at hSent
  | ok result =>
      obtain ⟨status, text⟩ := result
      cases status with
      | ok =>
          refine ⟨text, rfl, ?_⟩
          simpa [handleApi, send] using hSent.symm
      | unauthorized | forbidden | notFound | badRequest | created | internalServerError | other =>
          simp only [handleApi, send, Prod.mk.injEq, List.cons.injEq, and_true] at hSent
          subst hSent
          simp [unauthorized, forbidden, notFound, badRequest, serverError, errorResponse,
            Response.preparePayload, Status.code] at hCode

/-- Every record is a record of the constructor with the same credentials and
the same routes. -/
theorem initial_of_mem {events : List Event} {handler : Handler} (run : Run env events handler)
    {user : Users.UserData} (hUser : user ∈ handler.users) :
    ∃ first ∈ Users.initial, first.credentials = user.credentials ∧ first.routes = user.routes := by
  have hProfile : user.profile ∈ Users.initial.map Users.UserData.profile := by
    rw [← run.consistent.profiles]
    exact List.mem_map_of_mem hUser
  obtain ⟨first, hFirst, hSame⟩ := List.mem_map.mp hProfile
  exact ⟨first, hFirst, congrArg (fun record => record.credentials) hSame,
    congrArg (fun record => record.routes) hSame⟩

/-- A call other than a login that got `ok` carried the token of an earlier
login. -/
theorem login_of_ok {events : List Event} {handler handler' : Handler} {e : Event}
    {text : Bytes} (hRun : Run env events handler) (hStep : Step env handler e handler')
    (hOther : ¬ isLogin e.request) (hOk : e.reply = .ok (.ok, text)) :
    ∃ user ∈ handler.users, ∃ login ∈ events, LoggedIn env user.credentials e.token login ∧
      e.request.target ∈ user.routes ∧ (login.grant user.credentials).Valid e.call.now := by
  have hOutcome := hStep.outcome
  rw [hOk] at hOutcome
  cases hOutcome with
  | loggedIn hLogin => exact absurd hLogin hOther
  | executed hAdmitted hPath hAccess hMethod =>
      obtain ⟨user, hUser, hToken, login, hMem, hLogin, hValid⟩ :=
        hRun.consistent.admitted hAdmitted
      refine ⟨user, hUser, login, hMem, hLogin, ?_, hValid⟩
      rw [← hRun.owned.getUserData_eq hUser hToken]
      exact checkAccess_iff.mp hAccess

/-- What the connection of a login got. -/
theorem sent_of_login (run : ServerRun env codec server labels finish) {j : I} {x : Exchange}
    {login : Event} {credentials : Users.Credentials} {token : Bytes}
    (hMem : (j, Action.answered x (some login)) ∈ labels)
    (hLogin : LoggedIn env credentials token login) :
    handleRequest server x = ([apiResponse x.request
      (env.serialize (.object [(ascii "token", .string token)]))], none) := by
  obtain ⟨before, after, hLabels⟩ := List.append_of_mem hMem
  obtain ⟨handler, handler', response, -, hHandles, -⟩ := handles_of_run run hLabels
  cases hHandles with
  | api hApi hRequest hReply hStep =>
      rw [handleRequest_api hApi, ← hReply, hLogin.reply]
      rfl

/-- Code 200 on a path of the API, other than for a login, means that the
request carries the token which a login sent out before, on this or any other
connection. The account may use the path, and the clock lies between the times
of the token. -/
theorem ok_response_follows_login (env : Externals) (codec : Codec) (server : Server)
    (run : ServerRun env codec server labels finish) {before after : List (I × Action)} {i : I}
    {x : Exchange} {event : Option Event} {response : Response}
    (hLabels : labels = before ++ (i, .answered x event) :: after)
    (hApi : ReachesApi x.request) (hOther : ¬ isLogin x.request)
    (hSent : handleRequest server x = ([response], none)) (hCode : response.head.code = 200) :
    ∃ e, event = some e ∧ e.request = x.request ∧
      ∃ j login x', (j, Action.answered x' (some login)) ∈ before ∧
      ∃ user ∈ Users.initial, LoggedIn env user.credentials e.token login ∧
        handleRequest server x' = ([apiResponse x'.request
          (env.serialize (.object [(ascii "token", .string e.token)]))], none) ∧
        x.request.target ∈ user.routes ∧ (login.grant user.credentials).Valid e.call.now := by
  obtain ⟨handler, handler', other, hRun, hHandles, -⟩ := handles_of_run run hLabels
  cases hHandles with
  | files hFiles => exact absurd hApi hFiles
  | @api e _ _ hRequest hReply hStep =>
      rw [handleRequest_api hApi] at hSent
      obtain ⟨text, hOk, -⟩ := reply_of_ok_code hSent hCode
      have hNotLogin : ¬ isLogin e.request := by rwa [hRequest]
      obtain ⟨user, hUser, login, hMem, hLogin, hRoute, hValid⟩ :=
        login_of_ok hRun hStep hNotLogin (hReply.trans hOk)
      obtain ⟨first, hFirst, hCredentials, hRoutes⟩ := initial_of_mem hRun hUser
      subst hLabels
      obtain ⟨middle, hBefore, -⟩ := run.split
      have hLoginOk : login.reply.isOk = true := by
        rw [hLogin.reply]
        rfl
      obtain ⟨j, x', hAnswered⟩ := answered_of_event hBefore hMem hLoginOk
      refine ⟨e, rfl, hRequest, j, login, x', hAnswered, first, hFirst, ?_, ?_, ?_, ?_⟩
      · rwa [hCredentials]
      · exact sent_of_login hBefore hAnswered hLogin
      · rwa [hRoutes, ← hRequest]
      · rwa [hCredentials]

theorem ok_response_sample :
    ∃ e, some sampleInfo = some e ∧ e.request = (callExchange sampleInfo).request ∧
      ∃ j login x', (j, Action.answered x' (some login)) ∈ beforeInfo ∧
      ∃ user ∈ Users.initial, LoggedIn sampleEnv user.credentials e.token login ∧
        handleRequest sampleServer x' = ([apiResponse x'.request
          (sampleEnv.serialize (.object [(ascii "token", .string e.token)]))], none) ∧
        (callExchange sampleInfo).request.target ∈ user.routes ∧
        (login.grant user.credentials).Valid e.call.now := by
  obtain ⟨finish, run⟩ := run_sampleLabels
  have hApi : ReachesApi (callExchange sampleInfo).request := by decide
  exact ok_response_follows_login sampleEnv http1 sampleServer run rfl hApi (by decide)
    (handleRequest_api hApi) rfl

/-- The conversion of a login's body throws exactly on JSON texts without
credentials. -/
theorem jsonToCredentials_throws_iff (env : Externals) (body : Bytes) :
    (jsonToCredentials env body).isOk = false ↔
      ∃ v, env.parse (cstr body) = some v ∧ credentialsIn v = none := by
  cases hParse : env.parse (cstr body) with
  | none => simp [jsonToCredentials, hParse, Except.isOk, Except.toBool]
  | some v =>
      rcases valueToCredentials_eq v with ⟨credentials, hSome, hOk⟩ | ⟨hNone, e, hError⟩
      · simp [jsonToCredentials, hParse, hOk, hSome, Except.map, Except.isOk, Except.toBool]
      · simp [jsonToCredentials, hParse, hError, hNone, Except.map, Except.isOk, Except.toBool]

end

/-- The calls that nothing catches: a login whose body is a JSON text without
credentials, and any other request whose token is not safe. -/
def Crashes (env : Externals) (handler : Handler) (call : Call) : Prop :=
  if isLogin call.request then
    ∃ v, env.parse (cstr call.request.body) = some v ∧ credentialsIn v = none
  else ¬ SafeToken handler.users call.token

/-- In a state that is reached, a call crashes exactly if an exception leaves it. -/
theorem crashes_iff {events : List Event} {handler handler' : Handler} {e : Event}
    (run : Run env events handler) (hStep : Step env handler e handler') :
    Crashes env handler e.call ↔ e.reply.isOk = false := by
  have hOutcome := hStep.outcome
  unfold Crashes
  split
  next hLogin =>
    rw [← jsonToCredentials_throws_iff]
    generalize e.reply = reply at hOutcome
    cases hOutcome with
    | loggedIn _ hBody => exact iff_of_false (by rw [hBody]; nofun) nofun
    | wrongCredentials _ hBody => exact iff_of_false (by rw [hBody]; nofun) nofun
    | invalidJson _ hBody => exact iff_of_false (by rw [hBody]; nofun) nofun
    | loginThrew _ hBody => exact iff_of_true (by rw [hBody]; rfl) rfl
    | noToken hOther => exact absurd hLogin hOther
    | unknownToken hOther => exact absurd hLogin hOther
    | verifyThrew hOther => exact absurd hLogin hOther
    | notValid hOther => exact absurd hLogin hOther
    | noMethod hAdmitted => exact absurd hLogin hAdmitted.notLogin
    | noAccess hAdmitted => exact absurd hLogin hAdmitted.notLogin
    | executed hAdmitted => exact absurd hLogin hAdmitted.notLogin
  next hOther =>
    rw [← hOutcome.isOk_iff run.owned hOther, Bool.not_eq_true]

section
variable {I : Type} [DecidableEq I] {labels : List (I × Action)}
  {finish : Process × (I → Session)}

/-- The last move of a run, with the call that it made. -/
theorem last_call {before : List (I × Action)} {i : I} {a : Action} {e : Event}
    (run : ServerRun env codec server (before ++ [(i, a)]) finish) (hEvent : a.event? = some e) :
    ∃ handler handler', Run env (apiEvents before) handler ∧ Step env handler e handler' ∧
      finish.1 = if e.reply.isOk then .running handler' else .terminated := by
  obtain ⟨middle, hBefore, hStep⟩ := run.last_step
  obtain ⟨handler, hRun, hProcess⟩ := api_run hBefore
  cases hStep with
  | @move p p' sessions _ _ session' hMove =>
      obtain ⟨current, rfl, hApi⟩ := hMove.api
      rw [hEvent] at hApi
      obtain ⟨handler', hCall, hNext⟩ := hApi
      obtain ⟨-, hCurrent⟩ : (∀ e ∈ apiEvents before, e.reply.isOk = true) ∧
          Process.running current = .running handler := by simpa using hProcess
      obtain rfl := Process.running.inj hCurrent
      exact ⟨current, handler', hRun, hCall, hNext⟩

/-- The calls determine the state of the API. -/
theorem handler_unique {events : List Event} {handler handler' : Handler}
    (run : Run env events handler) (run' : Run env events handler') : handler = handler' :=
  run.unique (fun _ _ _ _ h h' => congrArg Prod.fst (h.symm.trans h')) run'

/-- A call that crashes is the end of the process. -/
theorem terminated_of_crash {before : List (I × Action)} {i : I} {a : Action} {e : Event}
    {handler : Handler} (run : ServerRun env codec server (before ++ [(i, a)]) finish)
    (hEvent : a.event? = some e) (hRun : Run env (apiEvents before) handler)
    (hCrash : Crashes env handler e.call) : finish.1 = .terminated := by
  obtain ⟨current, handler', hCurrent, hStep, hNext⟩ := last_call run hEvent
  obtain rfl := handler_unique hRun hCurrent
  rw [(crashes_iff hRun hStep).mp hCrash] at hNext
  exact hNext

/-- A process that is gone has crashed in its last call. -/
theorem crash_of_terminated (run : ServerRun env codec server labels finish)
    (hEnd : finish.1 = .terminated) :
    ∃ before i a e handler, labels = before ++ [(i, a)] ∧ a.event? = some e ∧
      Run env (apiEvents before) handler ∧ Crashes env handler e.call := by
  rcases List.eq_nil_or_concat labels with rfl | ⟨before, ⟨i, a⟩, rfl⟩
  · rw [run.eq_of_nil] at hEnd
    simp at hEnd
  rw [List.concat_eq_append] at run ⊢
  cases hEvent : a.event? with
  | none =>
      obtain ⟨middle, -, hStep⟩ := run.last_step
      cases hStep with
      | move hMove =>
          obtain ⟨current, -, hApi⟩ := hMove.api
          rw [hEvent] at hApi
          simp [hApi] at hEnd
  | some e =>
      obtain ⟨handler, handler', hRun, hStep, hNext⟩ := last_call run hEvent
      refine ⟨before, i, a, e, handler, rfl, hEvent, hRun, (crashes_iff hRun hStep).mpr ?_⟩
      rw [hEnd] at hNext
      by_contra hNot
      have hOk : e.reply.isOk = true := by simpa using hNot
      simp [hOk] at hNext

/-- The process ends exactly with a call that crashes, made by any connection in
the state that the calls of all connections before it had left. Nothing happens
afterwards. -/
theorem terminated_iff (env : Externals) (codec : Codec) (server : Server)
    (run : ServerRun env codec server labels finish) :
    (finish.1 = .terminated ↔ ∃ before i a e handler, labels = before ++ [(i, a)] ∧
      a.event? = some e ∧ Run env (apiEvents before) handler ∧ Crashes env handler e.call) ∧
    ∀ before i a after e handler, labels = before ++ (i, a) :: after → a.event? = some e →
      Run env (apiEvents before) handler → Crashes env handler e.call → after = [] := by
  refine ⟨⟨crash_of_terminated run, ?_⟩, ?_⟩
  · rintro ⟨before, i, a, e, handler, rfl, hEvent, hRun, hCrash⟩
    exact terminated_of_crash run hEvent hRun hCrash
  · rintro before i a after e handler rfl hEvent hRun hCrash
    rw [List.append_cons] at run
    obtain ⟨middle, hBefore, hAfter⟩ := run.split
    have hEnd := terminated_of_crash hBefore hEvent hRun hCrash
    cases after with
    | nil => rfl
    | cons label after =>
        obtain ⟨next, hStep, -⟩ := hAfter.first_step
        cases hStep with
        | move hMove =>
            obtain ⟨current, hRunning, -⟩ := hMove.api
            simp [hRunning] at hEnd

end

/-- A login whose body is a number. -/
def sampleCrash : Event where
  call :=
    { request := { method := .post, target := pathLogin, body := ascii "1" }, now := 0, now' := 0 }
  reply := .error .systemError

def crashLabels : List (Bool × Action) :=
  [(false, .accepted), (false, .read sampleCrash.request),
    (false, .threw (callExchange sampleCrash) sampleCrash)]

/-- A run up to a call with a token that is no more than a dot. -/
theorem run_crashLabels :
    ∃ finish, ServerRun sampleEnv http1 sampleServer crashLabels finish := by
  have hApi : ReachesApi (callExchange sampleCrash).request := by decide
  have hOutcome : Outcome sampleEnv sampleCrash.call {} {} sampleCrash.reply :=
    .loginThrew (by decide) (by decide +kernel)
  have hAccepted : ServerRun sampleEnv http1 sampleServer [(false, .accepted)] _ :=
    Session.moves .nil false .accepted
  have hRead := Session.moves hAccepted false (.read sampleCrash.request)
  exact ⟨_, Session.moves hRead false
    (.threw (.api hApi rfl rfl hOutcome.handle_eq) (handleRequest_api hApi))⟩

theorem terminated_sample : ∃ finish : Process × (Bool → Session),
    (finish.1 = .terminated ↔ ∃ before i a e handler, crashLabels = before ++ [(i, a)] ∧
      a.event? = some e ∧ Run sampleEnv (apiEvents before) handler ∧
        Crashes sampleEnv handler e.call) ∧
    ∀ before i a after e handler, crashLabels = before ++ (i, a) :: after → a.event? = some e →
      Run sampleEnv (apiEvents before) handler → Crashes sampleEnv handler e.call → after = [] := by
  obtain ⟨finish, run⟩ := run_crashLabels
  exact ⟨finish, terminated_iff sampleEnv http1 sampleServer run⟩

end Service

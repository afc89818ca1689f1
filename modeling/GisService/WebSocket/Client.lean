import GisService.Data.Decimal
import GisService.WebSocket.Echo

/-! The other `CWSSession`, which sends one message and logs the answer, and a
client and a server session at the two ends of one connection. -/
namespace WebSocket.Client

open ByteString

/-- An asynchronous operation of the client. -/
inductive Operation where
  | resolve (host port : Bytes)
  | connect
  | handshake (host : Bytes)
  | write (payload : Bytes)
  | read (buffer : Bytes)
  | close
  deriving DecidableEq

/-- The members that the handlers use, and the lines of `DLOG(INFO)` and of
`std::cerr`. -/
structure CWSSession where
  host : Bytes := []
  text : Bytes := []
  buffer : Bytes := []
  log : List Bytes := []
  cerr : List (Bytes × ErrorCode) := []
  deriving DecidableEq

abbrev Handled := CWSSession × Option Operation

def fail (ec : ErrorCode) (what : Bytes) (client : CWSSession) : Handled :=
  ({ client with cerr := client.cerr ++ [(what, ec)] }, none)

/-- The three texts arrive as C strings. -/
def run (host port text : Bytes) (client : CWSSession) : Handled :=
  ({ client with host := cstr host, text := cstr text }, some (.resolve (cstr host) (cstr port)))

def onResolve (ec : Option ErrorCode) (client : CWSSession) : Handled :=
  match ec with
  | some ec => fail ec (ascii "resolve") client
  | none => (client, some .connect)

def onConnect (ec : Option ErrorCode) (port : Nat) (client : CWSSession) : Handled :=
  match ec with
  | some ec => fail ec (ascii "connect") client
  | none =>
      let host := client.host ++ 58 :: Decimal.print port
      ({ client with host }, some (.handshake host))

def sendLine (text : Bytes) : Bytes := ascii "send: " ++ text
def recvLine (text : Bytes) : Bytes := ascii "recv: " ++ text

def onHandshake (ec : Option ErrorCode) (client : CWSSession) : Handled :=
  match ec with
  | some ec => fail ec (ascii "handshake") client
  | none => ({ client with log := client.log ++ [sendLine client.text] }, some (.write client.text))

def onWrite (ec : Option ErrorCode) (client : CWSSession) : Handled :=
  match ec with
  | some ec => fail ec (ascii "write") client
  | none => (client, some (.read client.buffer))

def onRead (ec : Option ErrorCode) (client : CWSSession) : Handled :=
  match ec with
  | some ec => fail ec (ascii "read") client
  | none => (client, some .close)

def onClose (ec : Option ErrorCode) (client : CWSSession) : Handled :=
  match ec with
  | some ec => fail ec (ascii "close") client
  | none => ({ client with log := client.log ++ [recvLine client.buffer] }, none)

/-- The connection: messages on their way, each with its type, how far the
opening and the closing handshake are, and whether the server's stream has
failed. -/
structure Link where
  requested : Bool := false
  upgraded : Bool := false
  toServer : List (Bytes × Bool) := []
  toClient : List (Bytes × Bool) := []
  closing : Bool := false
  closed : Bool := false
  failed : Bool := false

structure System where
  client : CWSSession
  started : Option Operation
  server : State := {}
  link : Link := {}

/-- `spawn_client`, towards a session that waits in `async_accept`. -/
def System.spawned (host port data : Bytes) : System where
  client := (run host port data {}).1
  started := (run host port data {}).2

/-- The client's handler has run. -/
def System.handled (sys : System) (handled : Handled) (link : Link) : System :=
  { sys with client := handled.1, started := handled.2, link }

inductive Label where
  | resolved (ec : Option ErrorCode)
  | connected (ec : Option ErrorCode) (port : Nat)
  | handshaken (ec : Option ErrorCode)
  | wrote (ec : Option ErrorCode)
  | received (ec : Option ErrorCode) (bytes : Bytes)
  | closed (ec : Option ErrorCode)
  | server (e : Event)

/-- What the end of an operation of the server does to the connection. The answer
to the handshake and a message may arrive also if their writing fails, but a
stream that has failed does not write any more. Texts of any bytes and length
pass: one that is not UTF-8, or longer than `read_message_max`, is not made to fail. -/
inductive Transfers (server : State) (link : Link) : Event → Link → Prop where
  | accepted {started : Option WebSocket.Operation} (ec : Option ErrorCode) (upgraded : Bool)
      (hRequest : upgraded = true → link.requested = true) (hUp : ec = none → upgraded = true) :
      Transfers server link ⟨.accepted ec, started⟩ { link with upgraded }
  | read {started : Option WebSocket.Operation} {received : Bytes} {isText : Bool}
      {rest : List (Bytes × Bool)} (h : link.toServer = (received, isText) :: rest) :
      Transfers server link ⟨.read none received isText, started⟩ { link with toServer := rest }
  | closed {started : Option WebSocket.Operation} {isText : Bool} (hClosing : link.closing = true)
      (hNone : link.toServer = []) :
      Transfers server link ⟨.read (some .closed) [] isText, started⟩ { link with closed := true }
  | readFailed {started : Option WebSocket.Operation} (code : Nat) (received : Bytes)
      (isText : Bool) :
      Transfers server link ⟨.read (some (.other code)) received isText, started⟩
        { link with failed := true }
  | wrote {started : Option WebSocket.Operation} {payload : Bytes} {text : Bool}
      (h : .write payload text ∈ server.outstanding) (hUp : link.failed = false) :
      Transfers server link ⟨.written none, started⟩
        { link with toClient := link.toClient ++ [(payload, text)] }
  | writeFailed {started : Option WebSocket.Operation} {payload : Bytes} {text : Bool}
      (ec : ErrorCode) (arrives : Bool) (h : .write payload text ∈ server.outstanding)
      (hUp : arrives = true → link.failed = false) :
      Transfers server link ⟨.written (some ec), started⟩
        { link with
          toClient := link.toClient ++ if arrives then [(payload, text)] else []
          failed := true }

/-- An operation of one end completes, and its handler runs. Every operation can
fail. A message whose write fails may arrive all the same, and a read that fails
may leave bytes behind and may send a close to the server. -/
inductive Step : System → Label → System → Prop where
  | resolved {sys : System} {host port : Bytes} (ec : Option ErrorCode)
      (h : sys.started = some (.resolve host port)) :
      Step sys (.resolved ec) (sys.handled (onResolve ec sys.client) sys.link)
  | connected {sys : System} (ec : Option ErrorCode) (port : Nat)
      (h : sys.started = some .connect) :
      Step sys (.connected ec port) (sys.handled (onConnect ec port sys.client)
        { sys.link with requested := ec.isNone })
  | handshaken {sys : System} {host : Bytes} (ec : Option ErrorCode)
      (h : sys.started = some (.handshake host)) (hUp : ec = none → sys.link.upgraded = true) :
      Step sys (.handshaken ec) (sys.handled (onHandshake ec sys.client) sys.link)
  | wrote {sys : System} {payload : Bytes} (h : sys.started = some (.write payload)) :
      Step sys (.wrote none) (sys.handled (onWrite none sys.client)
        { sys.link with toServer := sys.link.toServer ++ [(payload, true)] })
  | writeFailed {sys : System} {payload : Bytes} (ec : ErrorCode) (arrives : Bool)
      (h : sys.started = some (.write payload)) :
      Step sys (.wrote (some ec)) (sys.handled (onWrite (some ec) sys.client)
        { sys.link with
          toServer := sys.link.toServer ++ if arrives then [(payload, true)] else [] })
  | received {sys : System} {buffer bytes : Bytes} {isText : Bool} {rest : List (Bytes × Bool)}
      (h : sys.started = some (.read buffer))
      (hMessage : sys.link.toClient = (bytes, isText) :: rest) :
      Step sys (.received none bytes)
        (sys.handled (onRead none { sys.client with buffer := sys.client.buffer ++ bytes })
          { sys.link with toClient := rest, closing := true })
  | readFailed {sys : System} {buffer : Bytes} (ec : ErrorCode) (bytes : Bytes) (closes : Bool)
      (h : sys.started = some (.read buffer)) :
      Step sys (.received (some ec) bytes)
        (sys.handled (onRead (some ec) { sys.client with buffer := sys.client.buffer ++ bytes })
          { sys.link with closing := sys.link.closing || closes })
  | closed {sys : System} (ec : Option ErrorCode) (h : sys.started = some .close)
      (hReply : ec = none → sys.link.closed = true) :
      Step sys (.closed ec) (sys.handled (onClose ec sys.client) sys.link)
  | server {sys : System} {e : Event} {server : State} {link : Link}
      (hStep : WebSocket.Step sys.server e server) (hLink : Transfers sys.server sys.link e link) :
      Step sys (.server e) { sys with server, link }

/-- The message that the server has read. -/
def Label.message? : Label → Option (Bytes × Bool)
  | .server e => e.message?
  | _ => none

/-- The messages that the server has read, in order. -/
def messages (labels : List Label) : List (Bytes × Bool) := labels.filterMap Label.message?

/-- What an outstanding operation says about the client. The server has been
sent `sent`, and `got` of it has been read. -/
inductive Stage (text : Bytes) (sent got : List (Bytes × Bool)) (client : CWSSession) :
    Option Operation → Prop where
  | resolving {host port : Bytes} (hLog : client.log = []) (hBuffer : client.buffer = [])
      (hSent : sent = []) : Stage text sent got client (some (.resolve host port))
  | connecting (hLog : client.log = []) (hBuffer : client.buffer = []) (hSent : sent = []) :
      Stage text sent got client (some .connect)
  | handshaking {host : Bytes} (hLog : client.log = []) (hBuffer : client.buffer = [])
      (hSent : sent = []) : Stage text sent got client (some (.handshake host))
  | writing (hLog : client.log = [sendLine text]) (hBuffer : client.buffer = [])
      (hSent : sent = []) : Stage text sent got client (some (.write text))
  | reading (hLog : client.log = [sendLine text]) (hBuffer : client.buffer = []) :
      Stage text sent got client (some (.read []))
  | closing (hLog : client.log = [sendLine text]) (hBuffer : client.buffer = text)
      (hGot : got ≠ []) : Stage text sent got client (some .close)
  | failed (hLog : client.log <+: [sendLine text]) : Stage text sent got client none
  | done (hLog : client.log = [sendLine text, recvLine text]) (hGot : got ≠ []) :
      Stage text sent got client none

/-- Only the client's text is ever on its way, at most once in each direction,
and only when the server has read it does an answer come back. -/
structure Safe (text : Bytes) (labels : List Label) (sys : System) : Prop where
  ready : sys.server.Ready
  own : sys.client.text = text
  order : messages labels ++ sys.link.toServer <+: [(text, true)]
  answers : ∀ m ∈ sys.link.toClient, m = (text, true) ∧ messages labels ≠ []
  echoing : ∀ payload isText, .write payload isText ∈ sys.server.outstanding →
    sys.link.failed = true ∨ (payload, isText) = (text, true) ∧ messages labels ≠ []
  stage : Stage text (messages labels ++ sys.link.toServer) (messages labels) sys.client sys.started

variable {text : Bytes} {labels : List Label} {sys sys' : System}

theorem messages_snoc (labels : List Label) (label : Label) :
    messages (labels ++ [label]) = messages labels ++ label.message?.toList := by
  rw [messages, List.filterMap_append, messages]
  cases h : label.message? <;> simp [h]

theorem safe_spawned (host port data : Bytes) : Safe (cstr data) [] (.spawned host port data) where
  ready := ready_start
  own := rfl
  order := List.nil_prefix
  answers := nofun
  echoing := by simp [System.spawned]
  stage := .resolving rfl rfl rfl

/-- The server's part of a step leaves the client alone. -/
theorem Stage.of_server {sent got got' : List (Bytes × Bool)} {client : CWSSession}
    {started : Option Operation} (h : Stage text sent got client started)
    (hGot : got ≠ [] → got' ≠ []) : Stage text sent got' client started := by
  cases h with
  | resolving hLog hBuffer hSent => exact .resolving hLog hBuffer hSent
  | connecting hLog hBuffer hSent => exact .connecting hLog hBuffer hSent
  | handshaking hLog hBuffer hSent => exact .handshaking hLog hBuffer hSent
  | writing hLog hBuffer hSent => exact .writing hLog hBuffer hSent
  | reading hLog hBuffer => exact .reading hLog hBuffer
  | closing hLog hBuffer h => exact .closing hLog hBuffer (hGot h)
  | failed hLog => exact .failed hLog
  | done hLog h => exact .done hLog (hGot h)

/-- Only a read leads to a write, of what it has read. -/
theorem read_of_write {e : Event} {server : State} {payload : Bytes} {isText : Bool}
    (h : Effect e server) (hMem : .write payload isText ∈ server.outstanding) :
    ∃ ec, ec ≠ some .closed ∧ e.completion = .read ec payload isText := by
  cases h with
  | stopped hNone => simp [hNone] at hMem
  | reading _ hRead => simp [hRead] at hMem
  | @writing _ ec received isText' hEc _ hWrite =>
      obtain ⟨rfl, rfl⟩ : payload = received ∧ isText = isText' := by simpa [hWrite] using hMem
      exact ⟨ec, hEc, rfl⟩

/-- A completion at the server that brings no message. -/
theorem Safe.silent {e : Event} {server : State} {link : Link} (h : Safe text labels sys)
    (hMessage : e.message? = none) (hReady : server.Ready)
    (hToServer : link.toServer = sys.link.toServer)
    (hAnswers : ∀ m ∈ link.toClient, m = (text, true) ∧ messages labels ≠ [])
    (hEchoing : ∀ payload isText, .write payload isText ∈ server.outstanding →
      link.failed = true ∨ (payload, isText) = (text, true) ∧ messages labels ≠ []) :
    Safe text (labels ++ [.server e]) { sys with server, link } := by
  have hSame : messages (labels ++ [.server e]) = messages labels := by
    rw [messages_snoc, Label.message?, hMessage]
    exact List.append_nil _
  refine ⟨hReady, h.own, ?_, ?_, ?_, ?_⟩
  · rw [hSame, hToServer]
    exact h.order
  · rw [hSame]
    exact hAnswers
  · rw [hSame]
    exact hEchoing
  · rw [hSame, hToServer]
    exact h.stage

/-- The server reads the client's message. -/
theorem Safe.read {e : Event} {server : State} {received : Bytes} {isText : Bool}
    {rest : List (Bytes × Bool)} (h : Safe text labels sys) (hEffect : Effect e server)
    (hRead : e.completion = .read none received isText)
    (hFirst : sys.link.toServer = (received, isText) :: rest) :
    Safe text (labels ++ [.server e])
      { sys with server, link := { sys.link with toServer := rest } } := by
  have hSnoc : messages (labels ++ [.server e]) = messages labels ++ [(received, isText)] := by
    rw [messages_snoc, Label.message?, Event.message?, hRead]
    rfl
  have hOrder : messages labels ++ [(received, isText)] ++ rest =
      messages labels ++ sys.link.toServer := by
    rw [hFirst, List.append_assoc]
    rfl
  have hOwn : (received, isText) = (text, true) := by
    have hMem := h.order.subset (show (received, isText) ∈ _ by simp [hFirst])
    exact List.mem_singleton.mp hMem
  refine ⟨hEffect.ready, h.own, ?_, ?_, fun payload isText' hMem => ?_, ?_⟩
  · rw [hSnoc, hOrder]
    exact h.order
  · rw [hSnoc]
    exact fun m hMem => ⟨(h.answers m hMem).1, by simp⟩
  · obtain ⟨ec, -, hOther⟩ := read_of_write hEffect hMem
    rw [hRead] at hOther
    cases hOther
    rw [hSnoc]
    exact .inr ⟨hOwn, by simp⟩
  · rw [hSnoc, hOrder]
    exact h.stage.of_server fun _ => by simp

/-- What a stream that has not failed writes is an answer. -/
theorem Safe.answers_of_write {payload : Bytes} {isText : Bool} (h : Safe text labels sys)
    (hWrite : .write payload isText ∈ sys.server.outstanding) (hUp : sys.link.failed = false) :
    ∀ m ∈ sys.link.toClient ++ [(payload, isText)], m = (text, true) ∧ messages labels ≠ [] := by
  intro m hMem
  rcases List.mem_append.mp hMem with hOld | hNew
  · exact h.answers m hOld
  · obtain rfl := List.mem_singleton.mp hNew
    exact (h.echoing payload isText hWrite).resolve_left (by simp [hUp])

/-- What the server does keeps the safety. -/
theorem Safe.server {e : Event} {server : State} {link : Link} (h : Safe text labels sys)
    (hStep : WebSocket.Step sys.server e server) (hLink : Transfers sys.server sys.link e link) :
    Safe text (labels ++ [.server e]) { sys with server, link } := by
  have hEffect := hStep.effect h.ready
  cases hLink with
  | accepted ec upgraded =>
      refine h.silent rfl hEffect.ready rfl h.answers fun payload isText hMem => ?_
      obtain ⟨other, -, hRead⟩ := read_of_write hEffect hMem
      cases hRead
  | read hFirst => exact h.read hEffect rfl hFirst
  | closed hClosing hNone =>
      refine h.silent rfl hEffect.ready rfl h.answers fun payload isText hMem => ?_
      obtain ⟨ec, hEc, hRead⟩ := read_of_write hEffect hMem
      cases hRead
      exact absurd rfl hEc
  | readFailed code received isText =>
      exact h.silent rfl hEffect.ready rfl h.answers fun _ _ _ => .inl rfl
  | wrote hWrite hUp =>
      refine h.silent rfl hEffect.ready rfl (h.answers_of_write hWrite hUp)
        fun payload isText hMem => ?_
      obtain ⟨ec, -, hRead⟩ := read_of_write hEffect hMem
      cases hRead
  | writeFailed ec arrives hWrite hUp =>
      refine h.silent rfl hEffect.ready rfl ?_ fun _ _ _ => .inl rfl
      cases arrives with
      | false =>
          dsimp only
          rw [if_neg (by decide), List.append_nil]
          exact h.answers
      | true => exact h.answers_of_write hWrite (hUp rfl)

/-- A handler of the client keeps the safety if it leaves the client at a stage. -/
theorem Safe.client {label : Label} {handled : Handled} {link : Link} (h : Safe text labels sys)
    (hMessage : label.message? = none) (hOwn : handled.1.text = text)
    (hOrder : messages labels ++ link.toServer <+: [(text, true)])
    (hAnswers : ∀ m ∈ link.toClient, m ∈ sys.link.toClient)
    (hFailed : link.failed = sys.link.failed)
    (hStage : Stage text (messages labels ++ link.toServer) (messages labels) handled.1 handled.2) :
    Safe text (labels ++ [label]) (sys.handled handled link) := by
  have hSame : messages (labels ++ [label]) = messages labels := by
    rw [messages_snoc, hMessage]
    exact List.append_nil _
  refine ⟨h.ready, hOwn, ?_, ?_, ?_, ?_⟩
  · rw [hSame]
    exact hOrder
  · rw [hSame]
    exact fun m hMem => h.answers m (hAnswers m hMem)
  · rw [hSame]
    dsimp only [System.handled]
    rw [hFailed]
    exact h.echoing
  · rw [hSame]
    exact hStage

/-- A handler that reports an error is the last one. -/
theorem Safe.fails {label : Label} {client : CWSSession} (h : Safe text labels sys)
    (hMessage : label.message? = none) (hOwn : client.text = text)
    (hLog : client.log <+: [sendLine text]) (ec : ErrorCode) (what : Bytes) {link : Link}
    (hOrder : messages labels ++ link.toServer <+: [(text, true)])
    (hAnswers : ∀ m ∈ link.toClient, m ∈ sys.link.toClient)
    (hFailed : link.failed = sys.link.failed) :
    Safe text (labels ++ [label]) (sys.handled (fail ec what client) link) :=
  h.client hMessage hOwn hOrder hAnswers hFailed (.failed hLog)

/-- Every step keeps the safety, whichever end makes it and whatever fails. -/
theorem Safe.step {label : Label} (h : Safe text labels sys) (hStep : Step sys label sys') :
    Safe text (labels ++ [label]) sys' := by
  have hStage := h.stage
  have hSame : ∀ m ∈ sys.link.toClient, m ∈ sys.link.toClient := fun _ hMem => hMem
  cases hStep with
  | resolved ec hStarted =>
      rw [hStarted] at hStage
      cases hStage with
      | resolving hLog hBuffer hSent =>
          cases ec with
          | none => exact h.client rfl h.own h.order hSame rfl (.connecting hLog hBuffer hSent)
          | some ec => exact h.fails rfl h.own (by simp [hLog]) ec _ h.order hSame rfl
  | connected ec port hStarted =>
      rw [hStarted] at hStage
      cases hStage with
      | connecting hLog hBuffer hSent =>
          cases ec with
          | none => exact h.client rfl h.own h.order hSame rfl (.handshaking hLog hBuffer hSent)
          | some ec => exact h.fails rfl h.own (by simp [hLog]) ec _ h.order hSame rfl
  | handshaken ec hStarted hUp =>
      rw [hStarted] at hStage
      cases hStage with
      | handshaking hLog hBuffer hSent =>
          cases ec with
          | none =>
              refine h.client rfl h.own h.order hSame rfl ?_
              rw [onHandshake, h.own, hLog]
              exact .writing rfl hBuffer hSent
          | some ec => exact h.fails rfl h.own (by simp [hLog]) ec _ h.order hSame rfl
  | wrote hStarted =>
      rw [hStarted] at hStage
      cases hStage with
      | writing hLog hBuffer hSent =>
          refine h.client rfl h.own ?_ hSame rfl ?_
          · rw [← List.append_assoc, hSent]
            exact List.prefix_rfl
          · rw [onWrite, hBuffer]
            exact .reading hLog hBuffer
  | writeFailed ec arrives hStarted =>
      rw [hStarted] at hStage
      cases hStage with
      | writing hLog hBuffer hSent =>
          refine h.fails rfl h.own (by simp [hLog]) ec _ ?_ hSame rfl
          rw [← List.append_assoc, hSent]
          cases arrives
          · exact List.nil_prefix
          · exact List.prefix_rfl
  | @received buffer bytes isText rest hStarted hMessage =>
      rw [hStarted] at hStage
      cases hStage with
      | reading hLog hBuffer =>
          obtain ⟨hOwn, hGot⟩ := h.answers (bytes, isText) (by simp [hMessage])
          obtain ⟨rfl, -⟩ := Prod.mk.inj hOwn
          have hRest : ∀ m ∈ rest, m ∈ sys.link.toClient := by
            rw [hMessage]
            exact fun m hMem => List.mem_cons_of_mem _ hMem
          refine h.client rfl h.own h.order hRest rfl ?_
          rw [onRead, hBuffer]
          exact .closing hLog rfl hGot
  | readFailed ec bytes closes hStarted =>
      rw [hStarted] at hStage
      cases hStage with
      | reading hLog hBuffer =>
          have hOwn : ({ sys.client with buffer := sys.client.buffer ++ bytes } :
              CWSSession).text = text := h.own
          exact h.fails rfl hOwn (by simp [hLog]) ec _ h.order hSame rfl
  | closed ec hStarted hReply =>
      rw [hStarted] at hStage
      cases hStage with
      | closing hLog hBuffer hGot =>
          cases ec with
          | none =>
              refine h.client rfl h.own h.order hSame rfl ?_
              rw [onClose, hBuffer, hLog]
              exact .done rfl hGot
          | some ec => exact h.fails rfl h.own (by simp [hLog]) ec _ h.order hSame rfl
  | server hServer hLink => exact h.server hServer hLink

/-- Every state of a run is safe. -/
theorem safe_of_run {host port data : Bytes} (run : Runs Step (.spawned host port data) labels sys) :
    Safe (cstr data) labels sys :=
  run.history (fun labels sys => Safe (cstr data) labels sys) (safe_spawned host port data)
    fun _ _ _ _ h hStep => h.step hStep

theorem recvLine_ne_sendLine (text : Bytes) : recvLine text ≠ sendLine text := by
  intro h
  have hHead := congrArg List.head? h
  exact absurd hHead (by simp [recvLine, sendLine, ascii])

/-- What a client has logged at any stage. -/
theorem Stage.log {sent got : List (Bytes × Bool)} {client : CWSSession}
    {started : Option Operation} (h : Stage text sent got client started) :
    client.log <+: [sendLine text] ∨
      client.log = [sendLine text, recvLine text] ∧ got ≠ [] := by
  cases h with
  | resolving hLog => exact .inl (hLog ▸ List.nil_prefix)
  | connecting hLog => exact .inl (hLog ▸ List.nil_prefix)
  | handshaking hLog => exact .inl (hLog ▸ List.nil_prefix)
  | writing hLog => exact .inl (hLog ▸ List.prefix_rfl)
  | reading hLog => exact .inl (hLog ▸ List.prefix_rfl)
  | closing hLog => exact .inl (hLog ▸ List.prefix_rfl)
  | failed hLog => exact .inl hLog
  | done hLog hGot => exact .inr ⟨hLog, hGot⟩

/-- Whatever fails and whenever, the client logs no more than its own text and
the same text as the answer. The server reads no more than that one message, and
an answer is logged only after it has. -/
theorem client_hears_itself (host port data : Bytes)
    (run : Runs Step (.spawned host port data) labels sys) :
    sys.client.log <+: [sendLine (cstr data), recvLine (cstr data)] ∧
    messages labels <+: [(cstr data, true)] ∧
    (recvLine (cstr data) ∈ sys.client.log → messages labels = [(cstr data, true)]) := by
  have hSafe := safe_of_run run
  have hRead : messages labels <+: [(cstr data, true)] :=
    (List.prefix_append _ _).trans hSafe.order
  rcases hSafe.stage.log with hLog | ⟨hLog, hGot⟩
  · refine ⟨hLog.trans ⟨[recvLine (cstr data)], rfl⟩, hRead, fun hMem => ?_⟩
    exact absurd (List.mem_singleton.mp (hLog.subset hMem)) (recvLine_ne_sendLine _)
  · refine ⟨hLog ▸ List.prefix_rfl, hRead, fun _ => ?_⟩
    exact hRead.eq_of_length_le (List.length_pos_iff.mpr hGot)

/-- The message is sent, and the client's read fails before the server has read it. -/
def unansweredLabels : List Label :=
  [.resolved none, .connected none 80, .server ⟨.accepted none, some (.read [])⟩,
    .handshaken none, .wrote none, .received (some .closed) []]

theorem client_hears_itself_sample :
    ∃ sys, Runs Step (.spawned (ascii "h") (ascii "80") (ascii "hi")) unansweredLabels sys ∧
      sys.client.log = [ascii "send: hi"] ∧ recvLine (ascii "hi") ∉ sys.client.log := by
  have hResolved : Step (.spawned (ascii "h") (ascii "80") (ascii "hi")) _ _ := .resolved none rfl
  have hConnected := (Runs.single hResolved).snoc (.connected none 80 rfl)
  have hAccept := WebSocket.Step.accepted (s := {}) none (List.mem_singleton_self _)
  have hUpgraded := hConnected.snoc (.server hAccept (.accepted none true (fun _ => rfl) fun _ => rfl))
  have run := ((hUpgraded.snoc (.handshaken none rfl fun _ => rfl)).snoc (.wrote rfl)).snoc
    (.readFailed .closed [] false rfl)
  refine ⟨_, run, rfl, fun hMem => ?_⟩
  have hRead := (client_hears_itself _ _ _ run).2.2 hMem
  cases hRead

/-- An operation has succeeded, or the server's read has met the close. -/
def Label.Clean : Label → Prop
  | .resolved ec => ec = none
  | .connected ec _ => ec = none
  | .handshaken ec => ec = none
  | .wrote ec => ec = none
  | .received ec _ => ec = none
  | .closed ec => ec = none
  | .server e =>
      match e.completion with
      | .accepted ec => ec = none
      | .read ec _ _ => ec = none ∨ ec = some .closed
      | .written ec => ec = none

/-- The states between which nothing has failed yet, in order. -/
inductive Phase (text : Bytes) : Nat → System → Prop where
  | resolving {host host' port : Bytes} :
      Phase text 0 { client := { host, text }, started := some (.resolve host' port) }
  | connecting {host : Bytes} :
      Phase text 1 { client := { host, text }, started := some .connect }
  | handshaking {host host' : Bytes} :
      Phase text 2
        { client := { host, text }, started := some (.handshake host')
          link := { requested := true } }
  | accepted {host host' : Bytes} :
      Phase text 3
        { client := { host, text }, started := some (.handshake host'), server := .reading
          link := { requested := true, upgraded := true } }
  | writing {host : Bytes} :
      Phase text 4
        { client := { host, text, log := [sendLine text] }, started := some (.write text)
          server := .reading, link := { requested := true, upgraded := true } }
  | sent {host : Bytes} :
      Phase text 5
        { client := { host, text, log := [sendLine text] }, started := some (.read [])
          server := .reading
          link := { requested := true, upgraded := true, toServer := [(text, true)] } }
  | echoing {host : Bytes} :
      Phase text 6
        { client := { host, text, log := [sendLine text] }, started := some (.read [])
          server := .writing text, link := { requested := true, upgraded := true } }
  | echoed {host : Bytes} :
      Phase text 7
        { client := { host, text, log := [sendLine text] }, started := some (.read [])
          server := .reading
          link := { requested := true, upgraded := true, toClient := [(text, true)] } }
  | closing {host : Bytes} :
      Phase text 8
        { client := { host, text, buffer := text, log := [sendLine text] }, started := some .close
          server := .reading, link := { requested := true, upgraded := true, closing := true } }
  | replied {host : Bytes} {server : State} (hStopped : server.outstanding = []) :
      Phase text 9
        { client := { host, text, buffer := text, log := [sendLine text] }, started := some .close
          server, link := { requested := true, upgraded := true, closing := true, closed := true } }
  | done {host : Bytes} {server : State} (hStopped : server.outstanding = []) :
      Phase text 10
        { client :=
            { host, text, buffer := text, log := [sendLine text, recvLine text] }
          started := none, server
          link := { requested := true, upgraded := true, closing := true, closed := true } }

/-- Before the last phase something can go on. A message is read whatever its bytes
are, also one that a stream would turn down. -/
theorem Phase.goes_on {n : Nat} (h : Phase text n sys) (hn : n < 10) :
    ∃ label sys', label.Clean ∧ Step sys label sys' := by
  cases h with
  | resolving => exact ⟨.resolved none, _, rfl, .resolved none rfl⟩
  | connecting => exact ⟨.connected none 80, _, rfl, .connected none 80 rfl⟩
  | handshaking =>
      have hStep := WebSocket.Step.accepted (s := {}) none (List.mem_singleton_self _)
      refine ⟨_, _, ?_, .server hStep (.accepted none true (fun _ => rfl) fun _ => rfl)⟩
      rfl
  | accepted => exact ⟨.handshaken none, _, rfl, .handshaken none rfl fun _ => rfl⟩
  | writing => exact ⟨.wrote none, _, rfl, .wrote rfl⟩
  | sent =>
      have hStep := WebSocket.Step.read (s := .reading) none text true
        (List.mem_singleton_self (WebSocket.Operation.read []))
      refine ⟨_, _, ?_, .server hStep (.read rfl)⟩
      exact .inl rfl
  | echoing =>
      have hWrite := List.mem_singleton_self (WebSocket.Operation.write text true)
      have hStep := WebSocket.Step.written (s := .writing text) none hWrite
      refine ⟨_, _, ?_, .server hStep (.wrote hWrite rfl)⟩
      rfl
  | echoed => exact ⟨.received none text, _, rfl, .received rfl rfl⟩
  | closing =>
      have hStep := WebSocket.Step.read (s := .reading) (some .closed) [] true
        (List.mem_singleton_self (WebSocket.Operation.read []))
      refine ⟨_, _, ?_, .server hStep (.closed rfl rfl)⟩
      exact .inr rfl
  | replied hStopped => exact ⟨.closed none, _, rfl, .closed none rfl fun _ => rfl⟩
  | done hStopped => omega

/-- After the echo the server reads again. -/
theorem after_write (text : Bytes) :
    State.after (WebSocket.onWrite none (State.writing text).session)
      ((State.writing text).outstanding.erase (.write text true)) = .reading := by
  have hErase : (State.writing text).outstanding.erase (.write text true) = [] :=
    List.erase_cons_head _ _
  rw [hErase]
  rfl

/-- What the server does, if nothing fails, leads to the next phase. -/
theorem Phase.server {n : Nat} {e : Event} {server : State} {link : Link} (h : Phase text n sys)
    (hClean : (Label.server e).Clean) (hStep : WebSocket.Step sys.server e server)
    (hLink : Transfers sys.server sys.link e link) :
    Phase text (n + 1) { sys with server, link } := by
  cases hLink with
  | accepted ec upgraded hRequest hUp =>
      obtain rfl : ec = none := hClean
      obtain rfl := hUp rfl
      have hRequested := hRequest rfl
      cases hStep with
      | accepted _ hMem =>
          cases h with
          | handshaking => exact .accepted
          | resolving | connecting => cases hRequested
          | replied hStopped | done hStopped => simp [hStopped] at hMem
          | _ => simp [State.reading, State.writing] at hMem
  | read hFirst =>
      cases hStep with
      | read _ _ _ hMem =>
          cases h with
          | sent =>
              cases hFirst
              cases List.mem_singleton.mp hMem
              exact .echoing
          | _ => cases hFirst
  | closed hClosing hNone =>
      cases hStep with
      | read _ _ _ hMem =>
          cases h with
          | closing =>
              cases List.mem_singleton.mp hMem
              exact .replied rfl
          | replied hStopped | done hStopped => simp [hStopped] at hMem
          | _ => cases hClosing
  | readFailed code received isText => rcases hClean with hNone | hClosed <;> simp_all
  | wrote hWrite hUp =>
      cases hStep with
      | written _ hMem =>
          cases h with
          | echoing =>
              cases List.mem_singleton.mp hMem
              cases List.mem_singleton.mp hWrite
              dsimp only
              rw [after_write]
              exact .echoed
          | replied hStopped | done hStopped => simp [hStopped] at hMem
          | _ => simp [State.reading] at hMem
  | writeFailed ec => cases hClean

/-- If nothing fails, the phases follow each other. -/
theorem Phase.step {n : Nat} {label : Label} (h : Phase text n sys) (hClean : label.Clean)
    (hStep : Step sys label sys') : Phase text (n + 1) sys' := by
  cases hStep with
  | resolved ec hStarted =>
      obtain rfl : ec = none := hClean
      cases h with
      | resolving => exact .connecting
      | _ => cases hStarted
  | connected ec port hStarted =>
      obtain rfl : ec = none := hClean
      cases h with
      | connecting => exact .handshaking
      | _ => cases hStarted
  | handshaken ec hStarted hUp =>
      obtain rfl : ec = none := hClean
      have hUpgraded := hUp rfl
      cases h with
      | accepted => exact .writing
      | handshaking => cases hUpgraded
      | _ => cases hStarted
  | wrote hStarted =>
      cases h with
      | writing =>
          cases hStarted
          exact .sent
      | _ => cases hStarted
  | writeFailed ec => cases hClean
  | received hStarted hMessage =>
      cases h with
      | echoed =>
          cases hMessage
          exact .closing
      | sent | echoing => cases hMessage
      | _ => cases hStarted
  | readFailed ec => cases hClean
  | closed ec hStarted hReply =>
      obtain rfl : ec = none := hClean
      have hClosed := hReply rfl
      cases h with
      | replied hStopped => exact .done hStopped
      | closing => cases hClosed
      | _ => cases hStarted
  | server hServer hLink => exact h.server hClean hServer hLink

/-- The number of steps is the phase. -/
theorem phase_of_run {host port data : Bytes} (run : Runs Step (.spawned host port data) labels sys)
    (hClean : ∀ label ∈ labels, label.Clean) : Phase (cstr data) labels.length sys := by
  have hPhase := run.history
    (fun labels sys => (∀ label ∈ labels, label.Clean) → Phase (cstr data) labels.length sys)
    (fun _ => .resolving) ?_
  · exact hPhase hClean
  · intro labels middle label finish hMiddle hStep hAll
    rw [List.length_append]
    refine (hMiddle fun label h => hAll label (List.mem_append_left _ h)).step ?_ hStep
    exact hAll label (by simp)

/-- There is no phase behind the tenth. -/
theorem Phase.le {n : Nat} (h : Phase text n sys) : n ≤ 10 := by
  cases h <;> decide

/-- There are runs in which nothing fails, up to the last phase. -/
theorem exists_clean_run (host port data : Bytes) {n : Nat} (hn : n ≤ 10) :
    ∃ labels sys, Runs Step (.spawned host port data) labels sys ∧
      (∀ label ∈ labels, label.Clean) ∧ labels.length = n := by
  induction n with
  | zero => exact ⟨[], _, .nil, nofun, rfl⟩
  | succ n ih =>
      obtain ⟨labels, sys, run, hClean, hLength⟩ := ih (by omega)
      obtain ⟨label, sys', hLabel, hStep⟩ := (phase_of_run run hClean).goes_on (by omega)
      refine ⟨labels ++ [label], sys', run.snoc hStep, fun other hMem => ?_, by simp [hLength]⟩
      rcases List.mem_append.mp hMem with hOld | hNew
      · exact hClean other hOld
      · exact List.mem_singleton.mp hNew ▸ hLabel

/-- A run in which nothing fails cannot get stuck. It has ten steps, and then the
client has logged its text and the echo of it, and neither end waits. -/
theorem clean_run_completes (host port data : Bytes)
    (run : Runs Step (.spawned host port data) labels sys)
    (hClean : ∀ label ∈ labels, label.Clean) :
    labels.length ≤ 10 ∧
    (labels.length < 10 → ∃ label sys', label.Clean ∧ Step sys label sys') ∧
    (labels.length = 10 →
      sys.client.log = [sendLine (cstr data), recvLine (cstr data)] ∧ sys.client.cerr = [] ∧
      sys.started = none ∧ sys.server.outstanding = []) := by
  have hPhase := phase_of_run run hClean
  refine ⟨hPhase.le, hPhase.goes_on, fun hLength => ?_⟩
  rw [hLength] at hPhase
  cases hPhase with
  | done hStopped => exact ⟨rfl, rfl, rfl, hStopped⟩

theorem clean_run_sample :
    ∃ labels sys, Runs Step (.spawned (ascii "h") (ascii "80") (ascii "hi")) labels sys ∧
      sys.client.log = [ascii "send: hi", ascii "recv: hi"] := by
  obtain ⟨labels, sys, run, hClean, hLength⟩ :=
    exists_clean_run (ascii "h") (ascii "80") (ascii "hi") (le_refl 10)
  exact ⟨labels, sys, run, ((clean_run_completes _ _ _ run hClean).2.2 hLength).1⟩

end WebSocket.Client

import GisService.Data.ByteString
import GisService.Data.Runs

/-! `CWSSession`: accept, then read and write in turn. Each handler is a
function of the session that may start one more operation. -/
namespace WebSocket

open ByteString

/-- `beast::error_code`, with success as the absence of one. -/
inductive ErrorCode where
  | closed
  | other (code : Nat)
  deriving DecidableEq

/-- An asynchronous operation, with what the stream and the buffer show when it
is started. -/
inductive Operation where
  | accept
  | read (buffer : Bytes)
  | write (payload : Bytes) (text : Bool)
  deriving DecidableEq

/-- `buffer_`, and the two settings of `ws_` that the echo uses: the type of the
last message received and the type of messages to send. -/
structure Session where
  buffer : Bytes := []
  gotText : Bool := true
  text : Bool := true
  deriving DecidableEq

/-- A handler's effect: the session and the operation it started. -/
abbrev Handled := Session × Option Operation

def doRead (session : Session) : Handled := (session, some (.read session.buffer))

def onAccept (ec : Option ErrorCode) (session : Session) : Handled :=
  if ec.isSome then (session, none) else doRead session

def onRead (ec : Option ErrorCode) (session : Session) : Handled :=
  if ec = some .closed then (session, none)
  else
    -- Any other error is only reported, and control falls through to the echo.
    let session := { session with text := session.gotText }
    (session, some (.write session.buffer session.text))

def onWrite (ec : Option ErrorCode) (session : Session) : Handled :=
  if ec.isSome then (session, none) else doRead { session with buffer := [] }

/-- The end of an operation. A read, also one that fails, may have appended
bytes to the buffer and set the type of the message. -/
inductive Completion where
  | accepted (ec : Option ErrorCode)
  | read (ec : Option ErrorCode) (received : Bytes) (isText : Bool)
  | written (ec : Option ErrorCode)
  deriving DecidableEq

/-- A completion, and the operation that its handler started. -/
structure Event where
  completion : Completion
  started : Option Operation
  deriving DecidableEq

structure State where
  session : Session := {}
  outstanding : List Operation := [.accept]
  deriving DecidableEq

/-- The handler's effect, with its operation added to those outstanding. -/
def State.after (handled : Handled) (outstanding : List Operation) : State where
  session := handled.1
  outstanding := outstanding ++ handled.2.toList

/-- An operation in flight completes, and its handler runs. -/
inductive Step : State → Event → State → Prop where
  | accepted {s : State} (ec : Option ErrorCode) (h : .accept ∈ s.outstanding) :
      Step s ⟨.accepted ec, (onAccept ec s.session).2⟩
        (.after (onAccept ec s.session) (s.outstanding.erase .accept))
  | read {s : State} {buffer : Bytes} (ec : Option ErrorCode) (received : Bytes) (isText : Bool)
      (h : .read buffer ∈ s.outstanding) :
      Step s
        ⟨.read ec received isText,
          (onRead ec { s.session with buffer := s.session.buffer ++ received, gotText := isText }).2⟩
        (.after
          (onRead ec { s.session with buffer := s.session.buffer ++ received, gotText := isText })
          (s.outstanding.erase (.read buffer)))
  | written {s : State} {payload : Bytes} {text : Bool} (ec : Option ErrorCode)
      (h : .write payload text ∈ s.outstanding) :
      Step s ⟨.written ec, (onWrite ec s.session).2⟩
        (.after (onWrite ec s.session) (s.outstanding.erase (.write payload text)))

/-- The message of a read that completed without error. -/
def Event.message? (e : Event) : Option (Bytes × Bool) :=
  match e.completion with
  | .read none received isText => some (received, isText)
  | _ => none

/-- The payload and the type of a write that was started. -/
def Event.write? (e : Event) : Option (Bytes × Bool) :=
  match e.started with
  | some (.write payload text) => some (payload, text)
  | _ => none

/-- The error of a read. -/
def Event.readError? (e : Event) : Option ErrorCode :=
  match e.completion with
  | .read ec _ _ => ec
  | _ => none

/-- The writes are the messages read, in order. A read is started on an empty
buffer, a failed read is the last thing that leads to a write, and one
operation is outstanding at a time. -/
structure Faithful (events : List Event) (s : State) : Prop where
  echoed : events.filterMap Event.write? = events.filterMap Event.message?
  emptied : ∀ e ∈ events, ∀ buffer, e.started = some (.read buffer) → buffer = []
  silenced : ∀ before e after, events = before ++ e :: after → e.readError?.isSome = true →
    (e :: after).filterMap Event.write? = []
  single : s.outstanding.length ≤ 1

/-- Reads fail only because the peer has closed the session. -/
def ClosesCleanly (e : Event) : Prop := e.readError? = none ∨ e.readError? = some .closed

/-- What the outstanding operation says about the buffer. -/
def State.Ready (s : State) : Prop :=
  s.outstanding = [] ∨
    s.session.buffer = [] ∧ (s.outstanding = [.accept] ∨ s.outstanding = [.read []]) ∨
    ∃ text, s.outstanding = [.write s.session.buffer text]

theorem ready_start : State.Ready {} := .inr (.inl ⟨rfl, .inl rfl⟩)

/-- A handler stops the session, starts a read on an empty buffer, or starts to
write what a read has brought. -/
inductive Effect : Event → State → Prop where
  | stopped {e : Event} {s : State} (hNone : s.outstanding = []) (hStarted : e.started = none)
      (hMessage : e.message? = none) (hClean : ClosesCleanly e) : Effect e s
  | reading {e : Event} {s : State} (hBuffer : s.session.buffer = [])
      (hRead : s.outstanding = [.read []]) (hStarted : e.started = some (.read []))
      (hMessage : e.message? = none) (hError : e.readError? = none) : Effect e s
  | writing {s : State} {ec : Option ErrorCode} {received : Bytes} {isText : Bool}
      (hEc : ec ≠ some .closed) (hBuffer : s.session.buffer = received)
      (hWrite : s.outstanding = [.write received isText]) :
      Effect ⟨.read ec received isText, some (.write received isText)⟩ s

/-- A handler leaves the buffer as the next operation expects it. -/
theorem Effect.ready {e : Event} {s : State} (h : Effect e s) : s.Ready := by
  cases h with
  | stopped hNone => exact .inl hNone
  | reading hBuffer hRead => exact .inr (.inl ⟨hBuffer, .inr hRead⟩)
  | @writing _ ec received isText hEc hBuffer hWrite =>
      exact .inr (.inr ⟨isText, by rw [hBuffer]; exact hWrite⟩)

/-- Every step from a ready state has one of the three effects. -/
theorem Step.effect {s s' : State} {e : Event} (h : Step s e s') (hReady : s.Ready) :
    Effect e s' := by
  cases h with
  | accepted ec hMem =>
      rcases hReady with hNone | ⟨hBuffer, hAccept | hRead⟩ | ⟨text, hWrite⟩
      · simp [hNone] at hMem
      · cases ec with
        | none =>
            refine .reading ?_ ?_ ?_ rfl rfl <;>
              simp [State.after, onAccept, doRead, hAccept, hBuffer]
        | some ec => refine .stopped ?_ ?_ rfl (.inl rfl) <;> simp [State.after, onAccept, hAccept]
      · simp [hRead] at hMem
      · simp [hWrite] at hMem
  | @read buffer ec received isText hMem =>
      rcases hReady with hNone | ⟨hBuffer, hAccept | hRead⟩ | ⟨text, hWrite⟩
      · simp [hNone] at hMem
      · simp [hAccept] at hMem
      · obtain rfl : buffer = [] := by simpa [hRead] using hMem
        by_cases hClosed : ec = some .closed
        · subst hClosed
          refine .stopped ?_ ?_ rfl (.inr rfl) <;> simp [State.after, onRead, hRead]
        · have hHandled : onRead ec { s.session with
              buffer := s.session.buffer ++ received, gotText := isText } =
              ({ buffer := received, gotText := isText, text := isText },
                some (.write received isText)) := by
            simp [onRead, hClosed, hBuffer]
          rw [hHandled]
          exact .writing hClosed rfl (by simp [State.after, hRead])
      · simp [hWrite] at hMem
  | @written payload text ec hMem =>
      rcases hReady with hNone | ⟨hBuffer, hAccept | hRead⟩ | ⟨text', hWrite⟩
      · simp [hNone] at hMem
      · simp [hAccept] at hMem
      · simp [hRead] at hMem
      · obtain ⟨rfl, rfl⟩ : payload = s.session.buffer ∧ text = text' := by
          simpa [hWrite] using hMem
        cases ec with
        | none =>
            refine .reading ?_ ?_ ?_ rfl rfl <;> simp [State.after, onWrite, doRead, hWrite]
        | some ec => refine .stopped ?_ ?_ rfl (.inl rfl) <;> simp [State.after, onWrite, hWrite]

/-- In every state of a run the buffer is as the next operation expects it. -/
theorem ready_of_run {events : List Event} {s : State} (run : Runs Step {} events s) : s.Ready :=
  run.history (fun _ s => s.Ready) ready_start fun _ _ _ _ hReady hStep => (hStep.effect hReady).ready

/-- An event of a run had one of the three effects, and the rest of the run
goes on from there. -/
theorem effect_of_run {before after : List Event} {e : Event} {s : State}
    (run : Runs Step {} (before ++ e :: after) s) :
    ∃ next, Effect e next ∧ Runs Step next after s := by
  obtain ⟨middle, hBefore, hRest⟩ := run.split
  obtain ⟨next, hStep, hAfter⟩ := hRest.first_step
  exact ⟨next, hStep.effect (ready_of_run hBefore), hAfter⟩

/-- With nothing outstanding nothing happens any more. -/
theorem nil_of_stopped {s s' : State} {events : List Event} (h : s.outstanding = [])
    (run : Runs Step s events s') : events = [] := by
  cases events with
  | nil => rfl
  | cons e events =>
      obtain ⟨middle, hStep, -⟩ := run.first_step
      cases hStep with
      | accepted ec hMem => simp [h] at hMem
      | read ec received isText hMem => simp [h] at hMem
      | written ec hMem => simp [h] at hMem

/-- One event adds the same to the writes and to the messages, unless it is a
read that failed otherwise than by closing. -/
theorem Effect.echoed {e : Event} {s : State} (h : Effect e s) (hClean : ClosesCleanly e) :
    e.write? = e.message? := by
  cases h with
  | stopped hNone hStarted hMessage => rw [hMessage, Event.write?, hStarted]
  | reading hBuffer hRead hStarted hMessage hError => rw [hMessage, Event.write?, hStarted]
  | @writing _ ec received isText hEc hBuffer hWrite =>
      rcases hClean with hNone | hClosed
      · obtain rfl : ec = none := hNone
        rfl
      · exact absurd hClosed hEc

/-- In a run without failed reads every message is echoed. -/
theorem echoed_of_run {events : List Event} {s : State} (run : Runs Step {} events s)
    (hClean : ∀ e ∈ events, ClosesCleanly e) :
    events.filterMap Event.write? = events.filterMap Event.message? := by
  apply List.filterMap_congr
  intro e hMem
  obtain ⟨before, after, rfl⟩ := List.append_of_mem hMem
  obtain ⟨next, hEffect, -⟩ := effect_of_run run
  exact hEffect.echoed (hClean e hMem)

/-- The echo of a session is faithful exactly if every read succeeds or ends
because the peer has closed the session. -/
theorem faithful_iff {events : List Event} {s : State} (run : Runs Step {} events s) :
    Faithful events s ↔ ∀ e ∈ events, ClosesCleanly e := by
  constructor
  · intro hFaithful e hMem
    obtain ⟨before, after, rfl⟩ := List.append_of_mem hMem
    obtain ⟨next, hEffect, -⟩ := effect_of_run run
    by_contra hDirty
    obtain ⟨hSome, -⟩ := not_or.mp hDirty
    have hSilent := hFaithful.silenced before e after rfl (Option.isSome_iff_ne_none.mpr hSome)
    cases hEffect with
    | stopped _ _ _ hClean => exact hDirty hClean
    | reading _ _ _ _ hNone => exact hSome hNone
    | writing => simp [Event.write?] at hSilent
  · intro hClean
    refine ⟨echoed_of_run run hClean, ?_, ?_, ?_⟩
    · intro e hMem buffer hStarted
      obtain ⟨before, after, rfl⟩ := List.append_of_mem hMem
      obtain ⟨next, hEffect, -⟩ := effect_of_run run
      cases hEffect with
      | stopped _ hNone => simp [hNone] at hStarted
      | reading _ _ hRead =>
          rw [hRead] at hStarted
          simpa using hStarted.symm
      | writing => simp at hStarted
    · rintro before e after rfl hError
      obtain ⟨next, hEffect, hAfter⟩ := effect_of_run run
      have hClosed : e.readError? = some .closed :=
        (hClean e (by simp)).resolve_left (Option.isSome_iff_ne_none.mp hError)
      cases hEffect with
      | stopped hNone hStarted =>
          rw [nil_of_stopped hNone hAfter]
          simp [Event.write?, hStarted]
      | reading _ _ _ _ hNone => simp [hNone] at hClosed
      | writing hEc => exact absurd hClosed hEc
    · rcases ready_of_run run with hNone | ⟨-, hAccept | hRead⟩ | ⟨text, hWrite⟩
      · simp [hNone]
      · simp [hAccept]
      · simp [hRead]
      · simp [hWrite]

/-- Reading into an empty buffer. -/
def State.reading : State where
  outstanding := [.read []]

/-- Echoing what the buffer holds. -/
def State.writing (received : Bytes) : State where
  session := { buffer := received }
  outstanding := [.write received true]

/-- A message of two bytes comes in whole, and its echo goes out. -/
def echoEvents : List Event :=
  [⟨.accepted none, some (.read [])⟩, ⟨.read none [104, 105] true, some (.write [104, 105] true)⟩,
    ⟨.written none, some (.read [])⟩]

theorem faithful_sample : Faithful echoEvents .reading ↔ ∀ e ∈ echoEvents, ClosesCleanly e := by
  have hAccepted : Step {} ⟨.accepted none, some (.read [])⟩ .reading :=
    Step.accepted none (List.mem_singleton_self _)
  have hRead : Step .reading ⟨.read none [104, 105] true, some (.write [104, 105] true)⟩
      (.writing [104, 105]) :=
    @Step.read .reading [] none [104, 105] true (List.mem_singleton_self _)
  have hWritten : Step (.writing [104, 105]) ⟨.written none, some (.read [])⟩ .reading :=
    @Step.written (.writing [104, 105]) [104, 105] true none (List.mem_singleton_self _)
  exact faithful_iff (((Runs.single hAccepted).snoc hRead).snoc hWritten)

/-- The connection dies in the middle of a message. -/
def brokenEvents : List Event :=
  [⟨.accepted none, some (.read [])⟩, ⟨.read (some (.other 104)) [104] true, some (.write [104] true)⟩]

/-- What had arrived of the message is echoed all the same. -/
theorem broken_read_is_echoed :
    Runs Step {} brokenEvents (.writing [104]) ∧ ¬ Faithful brokenEvents (.writing [104]) := by
  have hAccepted : Step {} ⟨.accepted none, some (.read [])⟩ .reading :=
    Step.accepted none (List.mem_singleton_self _)
  have hRead : Step .reading ⟨.read (some (.other 104)) [104] true, some (.write [104] true)⟩
      (.writing [104]) :=
    @Step.read .reading [] (some (.other 104)) [104] true (List.mem_singleton_self _)
  refine ⟨(Runs.single hAccepted).snoc hRead, fun hFaithful => ?_⟩
  have hEchoed : [(([104] : Bytes), true)] = [] := hFaithful.echoed
  cases hEchoed

end WebSocket

import GisService.Data.Program
import GisService.Video.Message

/-! The thread of the verification server, as a program over the socket calls.
Each call can fail at any time, descriptors are handed out lowest first, and
the rest of the process opens and closes descriptors of its own. -/
namespace Video

open ByteString Memory

/-- What an open descriptor stands for. Connections are numbered in the order
in which they were accepted. -/
inductive File where
  | elsewhere
  | listening
  | connected (number : Nat)
  deriving DecidableEq

/-- The descriptors of the process, and what the peers were sent. -/
structure World where
  table : Nat → Option File
  accepted : Nat
  delivered : Nat → Bytes

namespace World

/-- The file behind a descriptor. No file has a negative one. -/
def file? (w : World) (fd : Int) : Option File := if 0 ≤ fd then w.table fd.toNat else none

/-- The lowest descriptor that is free. -/
def Lowest (w : World) (fd : Nat) : Prop := w.table fd = none ∧ ∀ n < fd, w.table n ≠ none

def set (w : World) (fd : Nat) (file : Option File) : World :=
  { w with table := Function.update w.table fd file }

def deliver (w : World) (number : Nat) (bytes : Bytes) : World :=
  { w with delivered := Function.update w.delivered number (w.delivered number ++ bytes) }

/-- The descriptors that the thread has been given. -/
def mine (w : World) (fd : Nat) : Option File := (w.table fd).filter (· ≠ .elsewhere)

end World

/-- A frame whose message has a length that fits an `int`. The 1536000 bytes of
`send_json` have room for no longer one. -/
structure Recording where
  frame : Frame
  fits : frame.text.length + 4 < 2 ^ 31

/-- The global variables that keep descriptors. -/
inductive Holder where
  | sctVrf
  | sctVrfNew
  deriving DecidableEq

/-- The calls of the thread. `close` says whose descriptor it is for, and
`returned` notes what `sendVerifyAnswer` returned. -/
inductive Call where
  | readAndCompress
  | socket
  | bind (fd : Int)
  | listen (fd : Int)
  | accept (fd : Int)
  | close (holder : Holder) (fd : Int)
  | getsockopt (fd : Int)
  | send (fd : Int) (buffer : Bytes)
  | returned (n : Int)

abbrev Answer : Call → Type
  | .readAndCompress => Recording
  | .returned _ => Unit
  | _ => Int

/-- How the kernel answers, and what it changes. -/
def Effect (w : World) : (question : Call) → Answer question → World → Prop
  | .readAndCompress, _, w' => w' = w
  | .socket, answer, w' =>
      (∃ fd : Nat, w.Lowest fd ∧ answer = (fd : Int) ∧ w' = w.set fd (some .listening)) ∨
        answer = (-1 : Int) ∧ w' = w
  | .bind _, answer, w' => (answer = (0 : Int) ∨ answer = (-1 : Int)) ∧ w' = w
  | .listen _, answer, w' => (answer = (0 : Int) ∨ answer = (-1 : Int)) ∧ w' = w
  | .accept listener, answer, w' =>
      (∃ fd : Nat, w.file? listener = some .listening ∧ w.Lowest fd ∧ answer = (fd : Int) ∧
        w' = { w.set fd (some (.connected w.accepted)) with accepted := w.accepted + 1 }) ∨
        answer = (-1 : Int) ∧ w' = w
  | .close _ fd, answer, w' =>
      if (w.file? fd).isSome then answer = (0 : Int) ∧ w' = w.set fd.toNat none
      else answer = (-1 : Int) ∧ w' = w
  | .getsockopt _, _, w' => w' = w
  | .send fd buffer, answer, w' =>
      answer = (-1 : Int) ∧ w' = w ∨
        ∃ n : Nat, 0 < n ∧ n ≤ buffer.length ∧ answer = (n : Int) ∧
          match w.file? fd with
          | some (.connected number) => w' = w.deliver number (buffer.take n)
          -- A socket of the rest of the process takes the bytes as well.
          | some .elsewhere => w' = w
          | _ => False
  | .returned _, _, w' => w' = w

/-- What the rest of the process does meanwhile. -/
structure World.Elsewhere (w w' : World) : Prop where
  mine : w'.mine = w.mine
  accepted : w'.accepted = w.accepted
  delivered : w'.delivered = w.delivered

/-- The other threads may do nothing. -/
theorem World.Elsewhere.refl (w : World) : w.Elsewhere w := ⟨rfl, rfl, rfl⟩

abbrev Event := Transition Call Answer World

def Allowed (t : Event) : Prop := ∃ w, Effect t.before t.question t.answer w ∧ w.Elsewhere t.after

abbrev Thread := Program Call Answer

/-- The global variables. -/
structure Globals where
  sctVrf : Int := 0
  sctVrfNew : Int := 0
  buffers : Buffers := {}

def acceptConnectionVerify (g : Globals) : Thread (Int × Globals) :=
  .call .socket fun sctVrf =>
  let g := { g with sctVrf := sctVrf }
  if g.sctVrf < 0 then .done (-1, g) else
  .call (.bind g.sctVrf) fun (res : Int) =>
  if res < 0 then .done (-2, g) else
  .call (.listen g.sctVrf) fun (res : Int) =>
  if res < 0 then .done (-4, g) else
  .call (.accept g.sctVrf) fun sctVrfNew =>
  let g := { g with sctVrfNew := sctVrfNew }
  if g.sctVrfNew < 0 then .done (-3, g) else
  .done (0, g)

/-- `if(fd > 0)close(fd);` -/
def closeIfPositive {R : Type} (holder : Holder) (fd : Int) (next : Thread R) : Thread R :=
  if fd > 0 then .call (.close holder fd) fun _ => next else next

def reacceptVerify (g : Globals) : Thread Globals :=
  closeIfPositive .sctVrfNew g.sctVrfNew <|
  closeIfPositive .sctVrf g.sctVrf <|
  (acceptConnectionVerify g).bind fun (_, g) => .done g

/-- `getsockopt` stores as many bytes of the option as it is given room for. -/
def optionValue (errCode : Int) (errCodeSz : Nat) (pending : Int) : Int :=
  if errCodeSz = 0 then errCode else pending

def sendVerifyAnswer (g : Globals) : Thread (Int × Globals) :=
  let (answerSize, buffers) := prepareVerifyAnswer g.buffers
  let g := { g with buffers := buffers }
  let errCode := 0
  let errCodeSz := 0
  .call (.getsockopt g.sctVrfNew) fun pending =>
  let errCode := optionValue errCode errCodeSz pending
  if errCode ≠ 0 then .done (-2, g) else
  .call (.send g.sctVrfNew (g.buffers.sendJson.take answerSize.toNat)) fun (n : Int) =>
  .call (.getsockopt g.sctVrfNew) fun pending =>
  let errCode := optionValue errCode errCodeSz pending
  if errCode ≠ 0 then .done (-4, g) else
  if n ≤ 0 then .done (-1, g) else
  .done (n, g)

/-- One pass of the loop of `thrVerifyServer`. -/
def pass (g : Globals) : Thread Globals :=
  .call .readAndCompress fun (recording : Recording) =>
  let g := { g with buffers := readAndCompress recording.frame g.buffers }
  (sendVerifyAnswer g).bind fun (n, g) =>
  .call (.returned n) fun _ =>
  if n < 0 then reacceptVerify g else .done g

/-- What `thrVerifyServer` does in front of the loop. -/
def thrVerifyServer : Thread Globals := (acceptConnectionVerify {}).bind fun (_, g) => .done g

/-- The thread has not been given any descriptors yet. -/
structure World.Fresh (w : World) : Prop where
  mine : ∀ fd, w.mine fd = none
  delivered : ∀ number, w.delivered number = []

/-- The runs of the thread, with the world at each call. -/
def ServerRun (w : World) (events : List Event) (finish : Thread Globals × World) : Prop :=
  Runs (Program.Step Allowed pass) (thrVerifyServer, w) events finish

section Calls
variable {before after : World}

/-- A file of the thread's own is one in the table that is not elsewhere. -/
theorem mine_eq_some_iff {w : World} {fd : Nat} {file : File} (h : file ≠ .elsewhere) :
    w.mine fd = some file ↔ w.table fd = some file := by
  rw [World.mine, Option.filter_eq_some_iff]
  simp [h]

theorem mine_eq_listening {w : World} {fd : Nat} :
    w.mine fd = some .listening ↔ w.table fd = some .listening :=
  mine_eq_some_iff nofun

theorem mine_eq_connected {w : World} {fd number : Nat} :
    w.mine fd = some (.connected number) ↔ w.table fd = some (.connected number) :=
  mine_eq_some_iff nofun

theorem mine_eq_none {w : World} {fd : Nat} (h : w.table fd = none) : w.mine fd = none := by
  rw [World.mine, h, Option.filter_none]

/-- What is opened or closed in the table shows among the files of the thread. -/
theorem mine_set (w : World) (fd : Nat) {file : Option File} (h : file ≠ some .elsewhere) :
    (w.set fd file).mine = Function.update w.mine fd file := by
  funext other
  by_cases hFd : other = fd
  · subst hFd
    cases file with
    | none => simp [World.mine, World.set]
    | some file =>
        have hFile : file ≠ .elsewhere := fun hEq => h (by rw [hEq])
        simp [World.mine, World.set, hFile]
  · simp [World.mine, World.set, hFd]

/-- A descriptor that a call has opened or closed for the thread. -/
theorem World.Elsewhere.mine_of_set {fd : Nat} {file : Option File}
    (h : (before.set fd file).Elsewhere after) (hFile : file ≠ some .elsewhere) :
    after.mine = Function.update before.mine fd file := by
  rw [h.mine, mine_set before fd hFile]

/-- A connection that is accepted is one more of them. -/
theorem World.Elsewhere.mine_of_accept {fd : Nat}
    (h : { before.set fd (some (.connected before.accepted)) with
      accepted := before.accepted + 1 }.Elsewhere after) :
    after.mine = Function.update before.mine fd (some (.connected before.accepted)) := by
  rw [h.mine]
  exact mine_set before fd (by simp)

/-- A descriptor that is not negative is looked up. -/
theorem file?_of_nonneg (w : World) {fd : Int} (h : 0 ≤ fd) : w.file? fd = w.table fd.toNat :=
  if_pos h

/-- A call that changes nothing itself. -/
theorem allowed_quiet {question : Call} {answer : Answer question}
    (h : Allowed ⟨before, question, answer, after⟩)
    (hQuiet : ∀ w, Effect before question answer w → w = before) : before.Elsewhere after := by
  obtain ⟨w, hEffect, hElsewhere⟩ := h
  rwa [hQuiet w hEffect] at hElsewhere

/-- What `socket` can do: open the lowest descriptor that is free, or fail. -/
theorem allowed_socket {answer : Int} (h : Allowed ⟨before, .socket, answer, after⟩) :
    (∃ fd : Nat, before.Lowest fd ∧ answer = fd ∧
      (before.set fd (some .listening)).Elsewhere after) ∨
    answer = -1 ∧ before.Elsewhere after := by
  obtain ⟨w, ⟨fd, hLowest, hAnswer, rfl⟩ | ⟨hAnswer, rfl⟩, hElsewhere⟩ := h
  · exact .inl ⟨fd, hLowest, hAnswer, hElsewhere⟩
  · exact .inr ⟨hAnswer, hElsewhere⟩

/-- What `accept` can do: open a descriptor for the next connection, or fail. -/
theorem allowed_accept {listener answer : Int}
    (h : Allowed ⟨before, .accept listener, answer, after⟩) :
    (∃ fd : Nat, before.Lowest fd ∧ answer = fd ∧
      { before.set fd (some (.connected before.accepted)) with
        accepted := before.accepted + 1 }.Elsewhere after) ∨
    answer = -1 ∧ before.Elsewhere after := by
  obtain ⟨w, ⟨fd, -, hLowest, hAnswer, rfl⟩ | ⟨hAnswer, rfl⟩, hElsewhere⟩ := h
  · exact .inl ⟨fd, hLowest, hAnswer, hElsewhere⟩
  · exact .inr ⟨hAnswer, hElsewhere⟩

/-- What `close` can do: free a descriptor, or find none. -/
theorem allowed_close {holder : Holder} {fd answer : Int}
    (h : Allowed ⟨before, .close holder fd, answer, after⟩) :
    (before.set fd.toNat none).Elsewhere after ∨ before.file? fd = none ∧ before.Elsewhere after := by
  obtain ⟨w, hEffect, hElsewhere⟩ := h
  rw [Effect] at hEffect
  split at hEffect
  · obtain ⟨-, rfl⟩ := hEffect
    exact .inl hElsewhere
  · next hFile =>
      obtain ⟨-, rfl⟩ := hEffect
      exact .inr ⟨Option.not_isSome_iff_eq_none.mp hFile, hElsewhere⟩

/-- A message goes to the connection behind the descriptor, or nowhere that
the thread knows of. -/
theorem allowed_send {fd answer : Int} {buffer : Bytes}
    (h : Allowed ⟨before, .send fd buffer, answer, after⟩) :
    answer = -1 ∧ before.Elsewhere after ∨
    ∃ n : Nat, 0 < n ∧ n ≤ buffer.length ∧ answer = n ∧
      ((∃ number, before.file? fd = some (.connected number) ∧
          (before.deliver number (buffer.take n)).Elsewhere after) ∨
        before.file? fd = some .elsewhere ∧ before.Elsewhere after) := by
  obtain ⟨w, ⟨hAnswer, rfl⟩ | ⟨n, hPos, hLength, hAnswer, hFile⟩, hElsewhere⟩ := h
  · exact .inl ⟨hAnswer, hElsewhere⟩
  · refine .inr ⟨n, hPos, hLength, hAnswer, ?_⟩
    split at hFile
    · next number hConnected =>
        rw [hFile] at hElsewhere
        exact .inl ⟨number, hConnected, hElsewhere⟩
    · next hOther =>
        rw [hFile] at hElsewhere
        exact .inr ⟨hOther, hElsewhere⟩
    · exact hFile.elim

/-- Sending leaves the descriptors alone. -/
theorem mine_of_send {fd answer : Int} {buffer : Bytes}
    (h : Allowed ⟨before, .send fd buffer, answer, after⟩) : after.mine = before.mine := by
  rcases allowed_send h with ⟨-, hElsewhere⟩ | ⟨n, -, -, -, ⟨number, -, hElsewhere⟩ | ⟨-, hElsewhere⟩⟩
  · exact hElsewhere.mine
  · exact hElsewhere.mine
  · exact hElsewhere.mine

end Calls

/-- The buffers after a frame's message has been prepared. -/
def Globals.prepared (g : Globals) (recording : Recording) : Globals :=
  { g with buffers := (prepareVerifyAnswer (readAndCompress recording.frame g.buffers)).2 }

@[simp] theorem prepared_sctVrf (g : Globals) (recording : Recording) :
    (g.prepared recording).sctVrf = g.sctVrf := by
  rw [Globals.prepared]

@[simp] theorem prepared_sctVrfNew (g : Globals) (recording : Recording) :
    (g.prepared recording).sctVrfNew = g.sctVrfNew := by
  rw [Globals.prepared]

/-- The two error values are the ones that the code has set itself, since it
gives `getsockopt` no room. -/
theorem sendVerifyAnswer_eq (g : Globals) (recording : Recording) :
    sendVerifyAnswer { g with buffers := readAndCompress recording.frame g.buffers } =
      .call (.getsockopt g.sctVrfNew) fun _ =>
      .call (.send g.sctVrfNew recording.frame.message) fun (n : Int) =>
      .call (.getsockopt g.sctVrfNew) fun _ =>
      .done (if n ≤ 0 then -1 else n, g.prepared recording) := by
  have hTake := take_sendJson recording.fits g.buffers
  simp only [sendVerifyAnswer, Globals.prepared, optionValue, if_true, ne_eq, not_true_eq_false,
    if_false]
  rw [hTake]
  have hResult (n : Int) (g' : Globals) : (if n ≤ 0 then .done (-1, g') else .done (n, g')) =
      (.done (if n ≤ 0 then -1 else n, g') : Thread (Int × Globals)) := by
    split <;> rfl
  simp only [hResult]

/-- A pass with the message of its frame written out. -/
theorem pass_eq (g : Globals) : pass g =
    .call .readAndCompress fun (recording : Recording) =>
    .call (.getsockopt g.sctVrfNew) fun _ =>
    .call (.send g.sctVrfNew recording.frame.message) fun (n : Int) =>
    .call (.getsockopt g.sctVrfNew) fun _ =>
    .call (.returned (if n ≤ 0 then -1 else n)) fun _ =>
    if n ≤ 0 then reacceptVerify (g.prepared recording) else .done (g.prepared recording) := by
  have hSign (n : Int) : (if n ≤ 0 then -1 else n) < 0 ↔ n ≤ 0 := by
    split <;> omega
  simp only [pass, sendVerifyAnswer_eq, Program.bind, hSign]

/-- Standard input, output and error are open, and nothing else. -/
def World.idle : World where
  table fd := if fd < 3 then some .elsewhere else none
  accepted := 0
  delivered _ := []

theorem fresh_idle : World.idle.Fresh := by
  constructor
  · intro fd
    by_cases h : fd < 3 <;> simp [World.mine, World.idle, h]
  · intro number
    rfl

/-- A listening socket as descriptor 3. -/
def World.listening : World := World.idle.set 3 (some .listening)

/-- A first connection as descriptor 4. -/
def World.serving : World :=
  { World.listening.set 4 (some (.connected 0)) with accepted := 1 }

/-- The variables during the first connection. -/
def Globals.serving : Globals where
  sctVrf := 3
  sctVrfNew := 4

/-- The first calls, all of them successful. -/
def connecting : List Event :=
  [⟨.idle, .socket, (3 : Int), .listening⟩, ⟨.listening, .bind 3, (0 : Int), .listening⟩,
    ⟨.listening, .listen 3, (0 : Int), .listening⟩, ⟨.listening, .accept 3, (4 : Int), .serving⟩]

theorem lowest_idle : World.idle.Lowest 3 := by
  constructor
  · rfl
  · intro n hn
    simp [World.idle, hn]

theorem lowest_listening : World.listening.Lowest 4 := by
  constructor
  · rfl
  · intro n hn
    by_cases h : n = 3
    · subst h
      simp [World.listening, World.set]
    · have hLow : n < 3 := by omega
      simp [World.listening, World.set, World.idle, h, hLow]

/-- A server starts, and the first client connects. -/
theorem connecting_run : ServerRun .idle connecting (.done .serving, .serving) := by
  have hSocket : Allowed ⟨.idle, .socket, (3 : Int), .listening⟩ :=
    ⟨_, .inl ⟨3, lowest_idle, rfl, rfl⟩, .refl _⟩
  have hBind : Allowed ⟨.listening, .bind 3, (0 : Int), .listening⟩ := ⟨_, ⟨.inl rfl, rfl⟩, .refl _⟩
  have hListen : Allowed ⟨.listening, .listen 3, (0 : Int), .listening⟩ :=
    ⟨_, ⟨.inl rfl, rfl⟩, .refl _⟩
  have hAccept : Allowed ⟨.listening, .accept 3, (4 : Int), .serving⟩ :=
    ⟨_, .inl ⟨4, rfl, lowest_listening, rfl, rfl⟩, .refl _⟩
  exact .snoc (.snoc (.snoc (.single (.call hSocket)) (.call hBind)) (.call hListen)) (.call hAccept)

/-- A small frame. -/
def sampleRecording : Recording where
  frame := blackFrame 0
  fits := by
    rw [length_text_blackFrame]
    decide

end Video

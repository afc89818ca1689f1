import GisService.Data.Double
import GisService.Data.Program

/-! `readFrame` takes the newest frame out of the shared memory. Another process
publishes the index of a slot under one mutex and fills the slots under others.
Both are tried and never waited for. -/
namespace SharedMemory

open ByteString

/-- What `img_buffer->frame` has in one place. -/
structure Slot where
  buf : Bytes
  time : UInt64
  id : UInt64
  timeGns : UInt64
  lat : Double
  lon : Double
  deriving DecidableEq

/-- What `ids_buffer` publishes. The index is always that of a slot. -/
structure Ids (size : Nat) where
  lastTime : UInt64
  lastIndex : Fin size

/-- The globals `imgsum`, `_lastTime` and `_last_index`. -/
structure Reader where
  imgsum : Bytes
  lastTime : UInt64 := 0
  lastIndex : Nat := 0
  deriving DecidableEq

/-- What the four pointers of a call point to. -/
structure Outputs where
  id : UInt64
  time : UInt64
  lat : Double
  lon : Double
  deriving DecidableEq

variable {size : Nat}

/-- The loop around `ids_mutex`. Each attempt finds the mutex busy or reads what
is published then. The loop is left with `res` and the local `last_index`. -/
def waitForIds (reader : Reader) : List (Option (Ids size)) → Option (Reader × Bool × Fin size)
  | [] => none
  | none :: attempts => waitForIds reader attempts
  | some ids :: _ =>
      if reader.lastIndex ≠ ids.lastIndex then
        some ({ reader with lastIndex := ids.lastIndex }, true, ids.lastIndex)
      else some (reader, false, ids.lastIndex)

/-- The part behind the loop. The mutex of the slot is busy, or the slots can be
read. A busy one leaves `res` as it is. -/
def fetch (reader : Reader) (out : Outputs) (index : Fin size) :
    Option (Fin size → Slot) → Reader × Outputs
  | none => (reader, out)
  | some frame =>
      ({ reader with imgsum := (frame index).buf, lastTime := (frame index).time },
        { id := (frame index).id, time := (frame index).timeGns, lat := (frame index).lat,
          lon := (frame index).lon })

/-- `readFrame`, with the outcomes of its attempts at the two mutexes. It has no
result while `ids_mutex` stays busy. -/
def readFrame (attempts : List (Option (Ids size))) (frames : Option (Fin size → Slot))
    (reader : Reader) (out : Outputs) : Option (Int × Reader × Outputs) := do
  let (reader, res, lastIndex) ← waitForIds reader attempts
  let (reader, out) := if res then fetch reader out lastIndex frames else (reader, out)
  return (if res then 0 else -1, reader, out)

/-- The ids of the first attempt that succeeds. -/
def obtained (attempts : List (Option (Ids size))) : Option (Ids size) := attempts.findSome? id

/-- The loop does what its last pass does. -/
theorem waitForIds_eq (reader : Reader) (attempts : List (Option (Ids size))) :
    waitForIds reader attempts = (obtained attempts).map fun ids =>
      if reader.lastIndex ≠ ids.lastIndex then
        ({ reader with lastIndex := ids.lastIndex }, true, ids.lastIndex)
      else (reader, false, ids.lastIndex) := by
  induction attempts with
  | nil => rfl
  | cons attempt attempts ih =>
      cases attempt with
      | none => exact ih
      | some ids =>
          rw [waitForIds]
          split <;> simp_all [obtained]

/-- A call returns once it has obtained `ids_mutex`. -/
theorem readFrame_isSome_iff (attempts : List (Option (Ids size)))
    (frames : Option (Fin size → Slot)) (reader : Reader) (out : Outputs) :
    (readFrame attempts frames reader out).isSome = true ↔ ∃ ids, some ids ∈ attempts := by
  have hObtained : (obtained attempts).isSome = true ↔ ∃ ids, some ids ∈ attempts := by
    rw [obtained, List.findSome?_isSome_iff]
    simp [Option.isSome_iff_exists]
  rw [readFrame, waitForIds_eq, ← hObtained]
  cases obtained attempts with
  | none => simp
  | some ids => simp

/-- A call that has returned, with what it found. -/
structure Call (size : Nat) where
  before : Reader
  out : Outputs
  attempts : List (Option (Ids size))
  frames : Option (Fin size → Slot)
  result : Int
  after : Reader
  outAfter : Outputs

/-- The next call finds the globals as the last one has left them. The other
process has written what it likes in between. -/
def ReadStep (reader : Reader) (call : Call size) (reader' : Reader) : Prop :=
  call.before = reader ∧ call.after = reader' ∧
    readFrame call.attempts call.frames call.before call.out =
      some (call.result, call.after, call.outAfter)

namespace Call

/-- The index that the call reads in `ids_buffer`. -/
def published (call : Call size) : Option (Fin size) := (obtained call.attempts).map Ids.lastIndex

/-- The frame of the published slot has been copied. -/
def Copied (call : Call size) : Prop :=
  ∃ index frame, call.published = some index ∧ call.frames = some frame ∧
    call.after.imgsum = (frame index).buf ∧ call.after.lastTime = (frame index).time ∧
    call.outAfter = ⟨(frame index).id, (frame index).timeGns, (frame index).lat, (frame index).lon⟩

/-- The slot that a successful call has delivered. -/
def delivers? (call : Call size) : Option (Fin size) :=
  if call.result = 0 ∧ call.frames.isSome then call.published else none

end Call

/-- The slot of the last frame that was delivered. -/
def delivered (past : List (Call size)) : Option (Fin size) :=
  (past.filterMap Call.delivers?).getLast?

/-- No frame is undelivered, lost or made up by a call. -/
structure Faithful (past : List (Call size)) (call : Call size) : Prop where
  copied : call.result = 0 → call.Copied
  unchanged : call.result = -1 → call.after.imgsum = call.before.imgsum ∧
    call.after.lastTime = call.before.lastTime ∧ call.outAfter = call.out
  marked : call.after.lastIndex ≠ call.before.lastIndex → call.Copied ∧
    call.published.map Fin.val = some call.after.lastIndex
  offered : ∀ earlier busy, past = earlier ++ [busy] → busy.frames = none →
    busy.published = call.published → call.published ≠ delivered past →
    call.frames.isSome = true → call.Copied
  refused : call.frames.isSome = true → call.result = -1 → call.published = delivered past

/-- The mutex of a new frame is free, and slot 0 is not the first to be
published. -/
structure Fortunate (past : List (Call size)) (call : Call size) : Prop where
  free : call.published.map Fin.val ≠ some call.before.lastIndex → call.frames.isSome = true
  started : call.frames.isSome = true → call.published.map Fin.val = some 0 →
    ∃ earlier ∈ past, earlier.published.map Fin.val ≠ some 0

section Step

variable {past : List (Call size)} {reader reader' : Reader} {call : Call size}

/-- A call is refused and changes nothing, or it moves the marker and then tries
to fetch the frame. -/
theorem readStep_cases (h : ReadStep reader call reader') :
    ∃ index, call.published = some index ∧
      (reader.lastIndex = index ∧ call.result = -1 ∧ reader' = reader ∧ call.outAfter = call.out ∨
        reader.lastIndex ≠ index ∧ call.result = 0 ∧ (reader', call.outAfter) =
          fetch { reader with lastIndex := index } call.out index call.frames) := by
  obtain ⟨rfl, rfl, hRead⟩ := h
  rw [readFrame, waitForIds_eq] at hRead
  unfold Call.published
  cases hIds : obtained call.attempts with
  | none => simp [hIds] at hRead
  | some ids =>
      refine ⟨ids.lastIndex, rfl, ?_⟩
      by_cases hSame : call.before.lastIndex = ids.lastIndex
      · obtain ⟨hResult, hAfter, hOut⟩ : -1 = call.result ∧ call.before = call.after ∧
            call.out = call.outAfter := by
          simpa [hIds, hSame] using hRead
        exact .inl ⟨hSame, hResult.symm, hAfter.symm, hOut.symm⟩
      · obtain ⟨hResult, hFetch⟩ : 0 = call.result ∧
            fetch { call.before with lastIndex := ids.lastIndex } call.out ids.lastIndex
              call.frames = (call.after, call.outAfter) := by
          simpa [hIds, hSame] using hRead
        exact .inr ⟨hSame, hResult.symm, hFetch.symm⟩

/-- Fetching a frame keeps the marker that was just moved. -/
theorem lastIndex_of_fetch {out out' : Outputs} {index : Fin size}
    {frames : Option (Fin size → Slot)}
    (hFetch : (reader', out') = fetch { reader with lastIndex := index } out index frames) :
    reader'.lastIndex = index := by
  cases frames with
  | none => exact congrArg (fun state => state.1.lastIndex) hFetch
  | some frame => exact congrArg (fun state => state.1.lastIndex) hFetch

/-- The newest frame is that of the last call, or it was there before. -/
theorem delivered_snoc (past : List (Call size)) (call : Call size) :
    delivered (past ++ [call]) = call.delivers?.or (delivered past) := by
  rw [delivered, List.filterMap_append, List.getLast?_append, delivered]
  cases hDelivers : call.delivers? with
  | none => simp [hDelivers]
  | some index => simp [hDelivers]

/-- The marker is the slot of the last delivery. Nothing has been delivered as
long as only slot 0 has been published. -/
structure Marked (past : List (Call size)) (reader : Reader) : Prop where
  marker : reader.lastIndex = ((delivered past).map Fin.val).getD 0
  first : delivered past = none ↔ ∀ call ∈ past, call.published.map Fin.val = some 0

theorem marked_nil (imgsum : Bytes) : Marked ([] : List (Call size)) { imgsum } where
  marker := rfl
  first := iff_of_true rfl (by simp)

/-- A call that finds the mutex of a new frame free keeps the marker right. -/
theorem marked_snoc (h : Marked past reader) (hStep : ReadStep reader call reader')
    (hFree : call.published.map Fin.val ≠ some reader.lastIndex → call.frames.isSome = true) :
    Marked (past ++ [call]) reader' := by
  obtain ⟨index, hPublished, ⟨hSame, hResult, rfl, -⟩ | ⟨hNew, hResult, hFetch⟩⟩ :=
    readStep_cases hStep
  · have hDelivers : call.delivers? = none := by simp [Call.delivers?, hResult]
    have hDelivered : delivered (past ++ [call]) = delivered past := by
      rw [delivered_snoc, hDelivers, Option.none_or]
    refine ⟨by rw [hDelivered]; exact h.marker, ?_⟩
    rw [hDelivered, h.first, List.forall_mem_append, List.forall_mem_singleton]
    refine ⟨fun hFirst => ⟨hFirst, ?_⟩, fun hFirst => hFirst.1⟩
    -- the index is the marker, which is 0 before the first delivery
    rw [hPublished, Option.map_some, ← hSame, h.marker, h.first.mpr hFirst]
    rfl
  · have hFrames : call.frames.isSome = true :=
      hFree (by simpa [hPublished] using Ne.symm hNew)
    have hDelivered : delivered (past ++ [call]) = some index := by
      rw [delivered_snoc, Call.delivers?, if_pos ⟨hResult, hFrames⟩, hPublished]
      rfl
    refine ⟨?_, ?_⟩
    · rw [hDelivered, lastIndex_of_fetch hFetch]
      rfl
    · rw [hDelivered, List.forall_mem_append, List.forall_mem_singleton]
      refine iff_of_false (by simp) fun ⟨hFirst, hZero⟩ => hNew ?_
      rw [hPublished, Option.map_some, Option.some.injEq] at hZero
      rw [h.marker, h.first.mpr hFirst, hZero]
      rfl

/-- With the marker right, a refused call has seen the frame that was delivered
last. -/
theorem published_eq_delivered (h : Marked past reader) {index : Fin size}
    (hPublished : call.published = some index) (hSame : reader.lastIndex = index)
    (hStarted : call.published.map Fin.val = some 0 →
      ∃ earlier ∈ past, earlier.published.map Fin.val ≠ some 0) :
    call.published = delivered past := by
  have hMarker := h.marker
  rw [hSame] at hMarker
  cases hDelivered : delivered past with
  | none =>
      rw [hDelivered] at hMarker
      obtain ⟨earlier, hMem, hOther⟩ := hStarted (by rw [hPublished]; exact congrArg some hMarker)
      exact absurd (h.first.mp hDelivered earlier hMem) hOther
  | some last =>
      rw [hDelivered] at hMarker
      rw [hPublished, Fin.ext hMarker]

/-- A new frame whose mutex is free is copied. -/
theorem copied_of_fetch {index : Fin size} (hPublished : call.published = some index)
    (hFrames : call.frames.isSome = true)
    (hFetch : (call.after, call.outAfter) =
      fetch { reader with lastIndex := index } call.out index call.frames) : call.Copied := by
  obtain ⟨frame, hFrame⟩ := Option.isSome_iff_exists.mp hFrames
  rw [hFrame, fetch] at hFetch
  obtain ⟨hAfter, hOut⟩ := Prod.mk.inj hFetch
  exact ⟨index, frame, hPublished, hFrame, by rw [hAfter], by rw [hAfter], hOut⟩

/-- As long as slot 0 is all that has been published, the marker is 0 and nothing
has been delivered. -/
theorem marker_eq_zero (h : Marked past reader)
    (hNone : ¬ ∃ earlier ∈ past, earlier.published.map Fin.val ≠ some 0) :
    delivered past = none ∧ reader.lastIndex = 0 := by
  simp only [not_exists, not_and, not_not] at hNone
  have hDelivered := h.first.mpr hNone
  exact ⟨hDelivered, by rw [h.marker, hDelivered]; rfl⟩

/-- A refused call is faithful if the slot has been delivered, and slot 0 counts
as delivered from the start. -/
theorem faithful_iff_of_refused (h : Marked past call.before) {index : Fin size}
    (hPublished : call.published = some index) (hSame : call.before.lastIndex = index)
    (hResult : call.result = -1) (hAfter : call.after = call.before)
    (hOut : call.outAfter = call.out) : Faithful past call ↔ Fortunate past call := by
  constructor
  · intro hFaithful
    refine ⟨fun hOther => absurd (by rw [hPublished, hSame]; rfl) hOther, fun hFrames _ => ?_⟩
    by_contra hNone
    have hRefused := hFaithful.refused hFrames hResult
    rw [(marker_eq_zero h hNone).1, hPublished] at hRefused
    cases hRefused
  · intro hFortunate
    have hLast (hFrames : call.frames.isSome = true) : call.published = delivered past :=
      published_eq_delivered h hPublished hSame (hFortunate.started hFrames)
    exact {
      copied := fun hZero => by simp [hResult] at hZero
      unchanged := fun _ => by rw [hAfter]; exact ⟨rfl, rfl, hOut⟩
      marked := fun hChanged => absurd (by rw [hAfter]) hChanged
      offered := fun _ _ _ _ _ hOther hFrames => absurd (hLast hFrames) hOther
      refused := fun hFrames _ => hLast hFrames }

/-- A call that moves the marker is faithful if it can fetch the frame. -/
theorem faithful_iff_of_fetch (h : Marked past call.before) {index : Fin size}
    (hPublished : call.published = some index) (hNew : call.before.lastIndex ≠ index)
    (hResult : call.result = 0) (hFetch : (call.after, call.outAfter) =
      fetch { call.before with lastIndex := index } call.out index call.frames) :
    Faithful past call ↔ Fortunate past call := by
  have hIndex : call.published.map Fin.val = some index.val := by rw [hPublished]; rfl
  constructor
  · intro hFaithful
    obtain ⟨-, frame, -, hFrame, -⟩ := hFaithful.copied hResult
    refine ⟨fun _ => by rw [hFrame]; rfl, fun _ hZero => ?_⟩
    by_contra hNone
    rw [(marker_eq_zero h hNone).2] at hNew
    rw [hIndex, Option.some.injEq] at hZero
    exact hNew hZero.symm
  · intro hFortunate
    have hOther : call.published.map Fin.val ≠ some call.before.lastIndex := by
      rw [hIndex]
      simpa using Ne.symm hNew
    have hCopied := copied_of_fetch hPublished (hFortunate.free hOther) hFetch
    exact {
      copied := fun _ => hCopied
      unchanged := fun hRefused => by simp [hResult] at hRefused
      marked := fun _ => ⟨hCopied, by rw [hIndex, lastIndex_of_fetch hFetch]⟩
      offered := fun _ _ _ _ _ _ _ => hCopied
      refused := fun _ hRefused => by simp [hResult] at hRefused }

/-- With the marker right, a call is faithful exactly if it is fortunate. -/
theorem faithful_iff_of_marked (h : Marked past reader) (hStep : ReadStep reader call reader') :
    Faithful past call ↔ Fortunate past call := by
  obtain ⟨hBefore, hAfter, -⟩ := id hStep
  obtain ⟨index, hPublished, hCases⟩ := readStep_cases hStep
  subst hBefore hAfter
  rcases hCases with ⟨hSame, hResult, hAfter, hOut⟩ | ⟨hNew, hResult, hFetch⟩
  · exact faithful_iff_of_refused h hPublished hSame hResult hAfter hOut
  · exact faithful_iff_of_fetch h hPublished hNew hResult hFetch

end Step

/-- In every run from the start of the program, all calls are faithful exactly
if all are fortunate. -/
theorem faithful_iff_fortunate (imgsum : Bytes) (calls : List (Call size)) (reader : Reader)
    (run : Runs ReadStep { imgsum } calls reader) :
    Throughout Faithful calls ↔ Throughout Fortunate calls := by
  refine (run.history (fun calls reader =>
    (Throughout Faithful calls ↔ Throughout Fortunate calls) ∧
      (Throughout Fortunate calls → Marked calls reader)) ?_ ?_).1
  · exact ⟨iff_of_true throughout_nil throughout_nil, fun _ => marked_nil imgsum⟩
  · intro calls reader call reader' ⟨hIff, hMarked⟩ hStep
    rw [throughout_snoc, throughout_snoc, hIff]
    refine ⟨and_congr_right fun hBefore => faithful_iff_of_marked (hMarked hBefore) hStep, ?_⟩
    rintro ⟨hBefore, hFortunate⟩
    refine marked_snoc (hMarked hBefore) hStep ?_
    rw [← hStep.1]
    exact hFortunate.free

def zeroOutputs : Outputs := ⟨0, 0, Double.ofInt 0, Double.ofInt 0⟩

/-- Two slots. -/
def sampleFrames (index : Fin 2) : Slot where
  buf := ascii (if index = 0 then "left" else "right")
  time := 1700000000000000 + UInt64.ofNat index
  id := UInt64.ofNat index
  timeGns := 1700000000000000
  lat := Double.ofInt 55
  lon := Double.ofInt 37

/-- Slot 1 arrives after one busy attempt. -/
def newCall : Call 2 where
  before := { imgsum := [] }
  out := zeroOutputs
  attempts := [none, some ⟨1700000000000001, 1⟩]
  frames := some sampleFrames
  result := 0
  after := { imgsum := ascii "right", lastTime := 1700000000000001, lastIndex := 1 }
  outAfter := ⟨1, 1700000000000000, Double.ofInt 55, Double.ofInt 37⟩

/-- Slot 1 is still the newest, and its mutex is busy. -/
def oldCall : Call 2 where
  before := newCall.after
  out := zeroOutputs
  attempts := [some ⟨1700000000000001, 1⟩]
  frames := none
  result := -1
  after := newCall.after
  outAfter := zeroOutputs

/-- Slot 0 arrives. -/
def nextCall : Call 2 where
  before := newCall.after
  out := zeroOutputs
  attempts := [some ⟨1700000000000002, 0⟩]
  frames := some sampleFrames
  result := 0
  after := { imgsum := ascii "left", lastTime := 1700000000000000, lastIndex := 0 }
  outAfter := ⟨0, 1700000000000000, Double.ofInt 55, Double.ofInt 37⟩

theorem faithful_iff_fortunate_sample :
    Throughout Faithful ([newCall] ++ [oldCall] ++ [nextCall]) := by
  have run : Runs ReadStep { imgsum := [] } ([newCall] ++ [oldCall] ++ [nextCall]) nextCall.after :=
    ((Runs.single ⟨rfl, rfl, rfl⟩).snoc ⟨rfl, rfl, rfl⟩).snoc ⟨rfl, rfl, rfl⟩
  have hNew : Fortunate [] newCall := ⟨fun _ => rfl, fun _ hZero => absurd hZero (by decide)⟩
  have hOld : Fortunate [newCall] oldCall :=
    ⟨fun hOther => absurd rfl hOther, fun hFrames => absurd hFrames (by decide)⟩
  have hNext : Fortunate ([newCall] ++ [oldCall]) nextCall :=
    ⟨fun _ => rfl, fun _ _ => ⟨newCall, by simp, by decide⟩⟩
  have hBefore : Throughout Fortunate ([newCall] ++ [oldCall]) :=
    throughout_snoc.mpr ⟨throughout_snoc.mpr ⟨throughout_nil, hNew⟩, hOld⟩
  exact (faithful_iff_fortunate [] _ _ run).mpr (throughout_snoc.mpr ⟨hBefore, hNext⟩)

/-- Slot 1 arrives while its mutex is busy. -/
def busyCall : Call 2 where
  before := { imgsum := [] }
  out := zeroOutputs
  attempts := [some ⟨1700000000000001, 1⟩]
  frames := none
  result := 0
  after := { imgsum := [], lastIndex := 1 }
  outAfter := zeroOutputs

/-- Slot 0 is the first to arrive. -/
def firstCall : Call 2 where
  before := { imgsum := [] }
  out := zeroOutputs
  attempts := [some ⟨1700000000000001, 0⟩]
  frames := some sampleFrames
  result := -1
  after := { imgsum := [] }
  outAfter := zeroOutputs

/-- A call that finds the mutex of a new frame busy reports success without a
frame. A first call that could have slot 0 reports that there is nothing new. -/
theorem readFrame_unfaithful :
    (Runs ReadStep { imgsum := [] } [busyCall] busyCall.after ∧ ¬ Throughout Faithful [busyCall]) ∧
      Runs ReadStep { imgsum := [] } [firstCall] firstCall.after ∧
        ¬ Throughout Faithful [firstCall] := by
  refine ⟨⟨Runs.single ⟨rfl, rfl, rfl⟩, fun h => ?_⟩, Runs.single ⟨rfl, rfl, rfl⟩, fun h => ?_⟩
  · obtain ⟨-, frame, -, hFrame, -⟩ := (h [] busyCall [] rfl).copied rfl
    cases hFrame
  · have hRefused := (h [] firstCall [] rfl).refused rfl rfl
    cases hRefused

end SharedMemory

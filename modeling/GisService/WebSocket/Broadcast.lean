import GisService.Data.ByteString
import GisService.Data.Runs
import Mathlib.Data.Int.Basic
import Mathlib.Logic.Function.Basic

/-! `callback_minimal`: one message is kept, and every session writes it as soon
as it can. -/
namespace Broadcast

open ByteString

/-- `msg`, with the bytes behind the `LWS_PRE` reserved ones as its payload. -/
structure Msg where
  payload : Option Bytes := none
  len : Nat := 0
  deriving DecidableEq

/-- `per_vhost_data__minimal`, and the member `last` of each
`per_session_data__minimal`. -/
structure Vhost (I : Type) where
  pssList : List I := []
  last : I → Int := fun _ => 0
  amsg : Msg := {}
  current : Int := 0

/-- The reasons, each with the arguments that its branch reads and what
`lws_write` and `malloc` return there. -/
inductive Reason where
  | protocolInit
  | established
  | closed
  | serverWriteable (m : Int)
  | receive (input : Bytes) (allocated : Bool)
  | other

/-- What a call leaves behind: the returned code, the text handed to `lws_write`,
and the sessions for which `lws_callback_on_writable` was called. -/
structure Returned (I : Type) where
  vhd : Vhost I
  code : Int := 0
  written : Option Bytes := none
  wanted : List I := []

/-- `__minimal_destroy_message` -/
def minimalDestroyMessage (_ : Msg) : Msg := { payload := none, len := 0 }

section
variable {I : Type} [DecidableEq I]

/-- `callback_minimal`. Undefined where `current` would overflow. -/
def callbackMinimal (wsi : I) (vhd : Vhost I) : Reason → Option (Returned I)
  | .protocolInit => some { vhd := {} }
  | .established =>
      some {
        vhd := { vhd with
          pssList := wsi :: vhd.pssList
          last := Function.update vhd.last wsi vhd.current } }
  | .closed => some { vhd := { vhd with pssList := vhd.pssList.erase wsi } }
  | .serverWriteable m =>
      match vhd.amsg.payload with
      | none => some { vhd := vhd }
      | some payload =>
          if vhd.last wsi = vhd.current then some { vhd := vhd }
          else if m < Int.bmod vhd.amsg.len 0x100000000 then
            some { vhd := vhd, code := -1, written := some payload }
          else
            some {
              vhd := { vhd with last := Function.update vhd.last wsi vhd.current }
              written := some payload }
  | .receive input allocated =>
      let amsg := if vhd.amsg.payload.isSome then minimalDestroyMessage vhd.amsg else vhd.amsg
      let amsg := { amsg with len := input.length }
      -- The message before is gone by now, also if there is no room for this one.
      if allocated then
        if vhd.current + 1 < 0x80000000 then
          some {
            vhd := { vhd with
              amsg := { amsg with payload := some input }
              current := vhd.current + 1 }
            wanted := vhd.pssList }
        else none
      else some { vhd := { vhd with amsg := { amsg with payload := none } } }
  | .other => some { vhd := vhd }

/-- A call of the callback for a session, with what it returned. -/
structure Event (I : Type) where
  wsi : I
  reason : Reason
  code : Int
  written : Option Bytes

/-- The data of the callback, and the sessions that wait for a writable call. -/
structure State (I : Type) where
  vhd : Vhost I := {}
  requested : I → Bool := fun _ => false

/-- A call of the callback. A session is opened once and then written and read
until it is closed, also by the library if a call for it does not return 0. -/
inductive Step : State I → Event I → State I → Prop where
  | established {s : State I} {r : Returned I} (wsi : I) (hNew : wsi ∉ s.vhd.pssList)
      (hCall : callbackMinimal wsi s.vhd .established = some r) :
      Step s ⟨wsi, .established, r.code, r.written⟩
        ⟨r.vhd, Function.update s.requested wsi false⟩
  | closed {s : State I} {r : Returned I} (wsi : I) (hLive : wsi ∈ s.vhd.pssList)
      (hCall : callbackMinimal wsi s.vhd .closed = some r) :
      Step s ⟨wsi, .closed, r.code, r.written⟩ ⟨r.vhd, Function.update s.requested wsi false⟩
  | received {s : State I} {r : Returned I} (wsi : I) (input : Bytes) (allocated : Bool)
      (hLive : wsi ∈ s.vhd.pssList)
      (hCall : callbackMinimal wsi s.vhd (.receive input allocated) = some r) :
      Step s ⟨wsi, .receive input allocated, r.code, r.written⟩
        ⟨r.vhd, fun i => s.requested i || decide (i ∈ r.wanted)⟩
  | writeable {s : State I} {r : Returned I} (wsi : I) (m : Int) (hLive : wsi ∈ s.vhd.pssList)
      (hCall : callbackMinimal wsi s.vhd (.serverWriteable m) = some r) (hCode : r.code = 0) :
      Step s ⟨wsi, .serverWriteable m, r.code, r.written⟩
        ⟨r.vhd, Function.update s.requested wsi false⟩
  | failed {s : State I} {r r' : Returned I} (wsi : I) (m : Int) (hLive : wsi ∈ s.vhd.pssList)
      (hCall : callbackMinimal wsi s.vhd (.serverWriteable m) = some r) (hCode : r.code ≠ 0)
      (hClosed : callbackMinimal wsi r.vhd .closed = some r') :
      Step s ⟨wsi, .serverWriteable m, r.code, r.written⟩
        ⟨r'.vhd, Function.update s.requested wsi false⟩

/-- The messages kept since the session was opened. -/
@[simp] def Event.publish (i : I) (messages : List Bytes) (e : Event I) : List Bytes :=
  match e.reason with
  | .established => if e.wsi = i then [] else messages
  | .receive input true => messages ++ [input]
  | _ => messages

/-- The texts handed to `lws_write` since the session was opened. -/
@[simp] def Event.write (i : I) (texts : List Bytes) (e : Event I) : List Bytes :=
  match e.reason with
  | .established => if e.wsi = i then [] else texts
  | .serverWriteable _ => if e.wsi = i then texts ++ e.written.toList else texts
  | _ => texts

def published (i : I) (events : List (Event I)) : List Bytes := events.foldl (Event.publish i) []

def written (i : I) (events : List (Event I)) : List Bytes := events.foldl (Event.write i) []

@[simp] theorem published_snoc (i : I) (events : List (Event I)) (e : Event I) :
    published i (events ++ [e]) = e.publish i (published i events) :=
  List.foldl_append

@[simp] theorem written_snoc (i : I) (events : List (Event I)) (e : Event I) :
    written i (events ++ [e]) = e.write i (written i events) :=
  List.foldl_append

end

section
variable {I : Type}

@[simp] def Event.receives (e : Event I) : Bool :=
  match e.reason with
  | .receive _ _ => true
  | _ => false

@[simp] def Event.drop (before : Bool) (e : Event I) : Bool :=
  match e.reason with
  | .receive _ allocated => !allocated
  | _ => before

/-- There was no room for the last message. -/
def dropped (events : List (Event I)) : Bool := events.foldl Event.drop false

@[simp] theorem dropped_snoc (events : List (Event I)) (e : Event I) :
    dropped (events ++ [e]) = e.drop (dropped events) :=
  List.foldl_append

end

section
variable {I : Type} [DecidableEq I]
variable {vhd : Vhost I} {wsi : I} {r : Returned I} {events : List (Event I)} {s s' : State I}

/-- A writable session is written the kept message if it is behind. Then it is not
behind any more, or the call fails. -/
theorem writeable_cases {m : Int}
    (h : callbackMinimal wsi vhd (.serverWriteable m) = some r) :
    ((vhd.amsg.payload = none ∨ vhd.last wsi = vhd.current) ∧ r = { vhd := vhd }) ∨
      ∃ payload, vhd.amsg.payload = some payload ∧ vhd.last wsi ≠ vhd.current ∧
        r.written = some payload ∧
        ((r.code ≠ 0 ∧ r.vhd = vhd) ∨
          (r.code = 0 ∧
            r.vhd = { vhd with last := Function.update vhd.last wsi vhd.current })) := by
  cases hPayload : vhd.amsg.payload with
  | none =>
      simp only [callbackMinimal, hPayload, Option.some.injEq] at h
      exact .inl ⟨.inl rfl, h.symm⟩
  | some payload =>
      simp only [callbackMinimal, hPayload] at h
      split at h
      · rename_i hLast
        exact .inl ⟨.inr hLast, (Option.some.inj h).symm⟩
      · rename_i hLast
        refine .inr ⟨payload, rfl, hLast, ?_⟩
        split at h
        · obtain rfl := Option.some.inj h
          exact ⟨rfl, .inl ⟨by simp, rfl⟩⟩
        · obtain rfl := Option.some.inj h
          exact ⟨rfl, .inr ⟨rfl, rfl⟩⟩

/-- A message takes the place of the one before, and wakes all sessions if it fits. -/
theorem receive_cases {input : Bytes} {allocated : Bool}
    (h : callbackMinimal wsi vhd (.receive input allocated) = some r) :
    (allocated = true ∧ r.vhd.amsg.payload = some input ∧
      r.vhd.current = vhd.current + 1 ∧ r.wanted = vhd.pssList ∧
      r.vhd.pssList = vhd.pssList ∧ r.vhd.last = vhd.last) ∨
    (allocated = false ∧ r.vhd.amsg.payload = none ∧
      r.vhd.current = vhd.current ∧ r.wanted = [] ∧
      r.vhd.pssList = vhd.pssList ∧ r.vhd.last = vhd.last) := by
  cases allocated with
  | true =>
      simp only [callbackMinimal, if_true] at h
      split at h
      · obtain rfl := Option.some.inj h
        exact .inl ⟨rfl, rfl, rfl, rfl, rfl, rfl⟩
      · simp at h
  | false =>
      simp only [callbackMinimal, Bool.false_eq_true, if_false] at h
      obtain rfl := Option.some.inj h
      exact .inr ⟨rfl, rfl, rfl, rfl, rfl, rfl⟩

/-- A session has been written up to the message with its number. -/
def UpTo (texts messages : List Bytes) (last current : Int) : Prop :=
  ∃ front back, messages = front ++ back ∧ last + back.length = current ∧
    texts.Sublist front ∧ texts.getLast? = front.getLast?

/-- What a session was handed are some of the messages, in order. -/
theorem UpTo.sublist {texts messages : List Bytes} {last current : Int}
    (h : UpTo texts messages last current) : texts.Sublist messages := by
  obtain ⟨front, back, rfl, -, hTexts, -⟩ := h
  exact hTexts.trans (List.sublist_append_left front back)

/-- A new message leaves a session one behind. -/
theorem UpTo.publish {texts messages : List Bytes} {last current : Int}
    (h : UpTo texts messages last current) (input : Bytes) :
    UpTo texts (messages ++ [input]) last (current + 1) := by
  obtain ⟨front, back, rfl, hNumber, hTexts, hNewest⟩ := h
  refine ⟨front, back ++ [input], List.append_assoc .., ?_, hTexts, hNewest⟩
  rw [List.length_append, ← hNumber]
  simp [Int.add_assoc]

/-- Writing the newest message to a session that is behind. -/
theorem UpTo.write {texts messages : List Bytes} {last current : Int} {text : Bytes}
    (h : UpTo texts messages last current) (hBehind : last ≠ current)
    (hText : messages ≠ [] → messages.getLast? = some text) :
    UpTo (texts ++ [text]) messages current current := by
  obtain ⟨front, back, rfl, hNumber, hTexts, -⟩ := h
  rcases List.eq_nil_or_concat back with rfl | ⟨missed, newest, rfl⟩
  · exact absurd (by simpa using hNumber) hBehind
  · rw [List.concat_eq_append] at *
    have hNewest : newest = text := by simpa using hText (by simp)
    subst hNewest
    refine ⟨front ++ (missed ++ [newest]), [], by simp, by simp, ?_, by simp⟩
    rw [← List.append_assoc]
    exact (hTexts.trans (List.sublist_append_left front missed)).append (.refl _)

/-- A session that is not behind was handed the newest message last. -/
theorem UpTo.newest {texts messages : List Bytes} {last current : Int}
    (h : UpTo texts messages last current) (hNumber : last = current) :
    texts.getLast? = messages.getLast? := by
  obtain ⟨front, back, rfl, hBack, -, hNewest⟩ := h
  have hNil : back = [] := by
    rw [hNumber] at hBack
    exact List.eq_nil_of_length_eq_zero (by omega)
  rw [hNewest, hNil, List.append_nil]

/-- What holds between two calls. A live session that is behind waits for a
writable callback as long as there is a message to write. -/
structure Inv (events : List (Event I)) (s : State I) : Prop where
  nodup : s.vhd.pssList.Nodup
  ordered : ∀ i, (written i events).Sublist (published i events)
  upTo : ∀ i ∈ s.vhd.pssList,
    UpTo (written i events) (published i events) (s.vhd.last i) s.vhd.current
  newest : ∀ i ∈ s.vhd.pssList, ∀ text, s.vhd.amsg.payload = some text →
    published i events ≠ [] → (published i events).getLast? = some text
  woken : ∀ i ∈ s.vhd.pssList, s.vhd.amsg.payload ≠ none → s.vhd.last i ≠ s.vhd.current →
    s.requested i = true
  kept : s.vhd.amsg.payload = none → dropped events = false → ∀ i, published i events = []

/-- At the start there is no session and no message. -/
theorem Inv.initial : Inv [] ({} : State I) where
  nodup := List.nodup_nil
  ordered i := List.Sublist.refl _
  upTo i hLive := by simp at hLive
  newest i hLive := by simp at hLive
  woken i hLive := by simp at hLive
  kept _ _ i := rfl

/-- A new session starts behind the messages that there are, and need not be called. -/
theorem Inv.established {code : Int} {text : Option Bytes} (h : Inv events s)
    (hNew : wsi ∉ s.vhd.pssList) (hCall : callbackMinimal wsi s.vhd .established = some r) :
    Inv (events ++ [⟨wsi, .established, code, text⟩])
      ⟨r.vhd, Function.update s.requested wsi false⟩ := by
  obtain rfl := Option.some.inj hCall
  have hOther : ∀ i ∈ s.vhd.pssList, wsi ≠ i := fun i hLive hSame => hNew (hSame ▸ hLive)
  refine ⟨List.nodup_cons.mpr ⟨hNew, h.nodup⟩, ?_, ?_, ?_, ?_, ?_⟩
  · intro i
    by_cases hSame : wsi = i
    · simp [hSame]
    · simpa [hSame] using h.ordered i
  · intro i hLive
    rcases List.mem_cons.mp hLive with rfl | hLive
    · exact ⟨[], [], by simp, by simp, by simp, by simp⟩
    · simpa [hOther i hLive, (hOther i hLive).symm] using h.upTo i hLive
  · intro i hLive newest hPayload hSome
    rcases List.mem_cons.mp hLive with rfl | hLive
    · simp at hSome
    · have hSome' : published i events ≠ [] := by simpa [hOther i hLive] using hSome
      simpa [hOther i hLive] using h.newest i hLive newest hPayload hSome'
  · intro i hLive hPayload hBehind
    rcases List.mem_cons.mp hLive with rfl | hLive
    · simp at hBehind
    · have hBehind' : s.vhd.last i ≠ s.vhd.current := by
        simpa [(hOther i hLive).symm] using hBehind
      simpa [(hOther i hLive).symm] using h.woken i hLive hPayload hBehind'
  · intro hPayload hDropped i
    have hNone := h.kept hPayload (by simpa using hDropped) i
    by_cases hSame : wsi = i
    · simp [hSame]
    · simpa [hSame] using hNone

/-- Closing a session takes it out of the list and leaves the others alone. -/
theorem Inv.close {e : Event I} (h : Inv events s)
    (hClosed : callbackMinimal wsi s.vhd .closed = some r)
    (hPublish : ∀ i, published i (events ++ [e]) = published i events)
    (hWrite : ∀ i ∈ r.vhd.pssList, written i (events ++ [e]) = written i events)
    (hOrdered : ∀ i, (written i (events ++ [e])).Sublist (published i events))
    (hDrop : dropped (events ++ [e]) = dropped events) :
    Inv (events ++ [e]) ⟨r.vhd, Function.update s.requested wsi false⟩ := by
  obtain rfl := Option.some.inj hClosed
  have hStill : ∀ i ∈ s.vhd.pssList.erase wsi, i ∈ s.vhd.pssList := fun i => List.mem_of_mem_erase
  refine ⟨h.nodup.erase wsi, ?_, ?_, ?_, ?_, ?_⟩
  · intro i
    rw [hPublish]
    exact hOrdered i
  · intro i hLive
    rw [hPublish, hWrite i hLive]
    exact h.upTo i (hStill i hLive)
  · intro i hLive newest hPayload hSome
    rw [hPublish] at hSome ⊢
    exact h.newest i (hStill i hLive) newest hPayload hSome
  · intro i hLive hSome hBehind
    have hOther : i ≠ wsi := by
      rintro rfl
      exact h.nodup.not_mem_erase hLive
    show Function.update s.requested wsi false i = true
    rw [Function.update_of_ne hOther]
    exact h.woken i (hStill i hLive) hSome hBehind
  · intro hPayload hDropped i
    rw [hPublish]
    exact h.kept hPayload (hDrop ▸ hDropped) i

/-- A message replaces the last one, and every session is to be called. -/
theorem Inv.received {input : Bytes} {allocated : Bool} {code : Int} {text : Option Bytes}
    (h : Inv events s)
    (hCall : callbackMinimal wsi s.vhd (.receive input allocated) = some r) :
    Inv (events ++ [⟨wsi, .receive input allocated, code, text⟩])
      ⟨r.vhd, fun i => s.requested i || decide (i ∈ r.wanted)⟩ := by
  rcases receive_cases hCall with ⟨rfl, hPayload, hCurrent, hWanted, hList, hLast⟩ |
    ⟨rfl, hPayload, hCurrent, hWanted, hList, hLast⟩
  · refine ⟨hList ▸ h.nodup, ?_, ?_, ?_, ?_, ?_⟩
    · intro i
      simpa using (h.ordered i).trans (List.sublist_append_left _ [input])
    · intro i hLive
      simpa [hCurrent, hLast] using (h.upTo i (hList ▸ hLive)).publish input
    · intro i hLive newest hNewest _
      obtain rfl := Option.some.inj (hPayload.symm.trans hNewest)
      simp
    · intro i hLive _ _
      simp [hWanted, hList ▸ hLive]
    · intro hNone
      simp [hPayload] at hNone
  · refine ⟨hList ▸ h.nodup, ?_, ?_, ?_, ?_, ?_⟩
    · intro i
      simpa using h.ordered i
    · intro i hLive
      simpa [hCurrent, hLast] using h.upTo i (hList ▸ hLive)
    · intro i hLive newest hNewest
      simp [hPayload] at hNewest
    · intro i hLive hSome
      exact absurd hPayload hSome
    · intro _ hDropped
      simp at hDropped

/-- The kept message is the newest one for a session that is behind. -/
theorem Inv.write {payload : Bytes} (h : Inv events s) (hLive : wsi ∈ s.vhd.pssList)
    (hPayload : s.vhd.amsg.payload = some payload) (hBehind : s.vhd.last wsi ≠ s.vhd.current) :
    UpTo (written wsi events ++ [payload]) (published wsi events) s.vhd.current s.vhd.current :=
  (h.upTo wsi hLive).write hBehind (h.newest wsi hLive payload hPayload)

/-- A session that is called is handed the newest message, if it has not been. -/
theorem Inv.writeable {m : Int} (h : Inv events s) (hLive : wsi ∈ s.vhd.pssList)
    (hCall : callbackMinimal wsi s.vhd (.serverWriteable m) = some r) (hCode : r.code = 0) :
    Inv (events ++ [⟨wsi, .serverWriteable m, r.code, r.written⟩])
      ⟨r.vhd, Function.update s.requested wsi false⟩ := by
  rcases writeable_cases hCall with ⟨hIdle, rfl⟩ |
    ⟨payload, hPayload, hBehind, hText, ⟨hFailed, -⟩ | ⟨-, hData⟩⟩
  · refine ⟨h.nodup, ?_, ?_, ?_, ?_, ?_⟩
    · simpa using h.ordered
    · simpa using h.upTo
    · simpa using h.newest
    · intro i hMem hSome hNumber
      by_cases hSame : i = wsi
      · subst hSame
        exact absurd hIdle (not_or_intro hSome hNumber)
      · simpa [hSame] using h.woken i hMem hSome hNumber
    · simpa using h.kept
  · exact absurd hCode hFailed
  · have hWrite := h.write hLive hPayload hBehind
    refine ⟨?_, ?_, ?_, ?_, ?_, ?_⟩
    · simpa [hData] using h.nodup
    · intro i
      by_cases hSame : wsi = i
      · subst hSame
        simpa [hText] using hWrite.sublist
      · simpa [hSame] using h.ordered i
    · intro i hMem
      by_cases hSame : wsi = i
      · subst hSame
        simpa [hData, hText] using hWrite
      · have hMem' : i ∈ s.vhd.pssList := by simpa [hData] using hMem
        simpa [hData, hSame, Ne.symm hSame] using h.upTo i hMem'
    · simpa [hData] using h.newest
    · intro i hMem hSome hNumber
      by_cases hSame : i = wsi
      · subst hSame
        simp [hData] at hNumber
      · simp only [hData, Function.update_of_ne hSame] at hMem hSome hNumber ⊢
        exact h.woken i hMem hSome hNumber
    · simpa [hData] using h.kept

/-- A session that could not be written in full is closed with the text it got. -/
theorem Inv.failed {r' : Returned I} {m : Int} (h : Inv events s) (hLive : wsi ∈ s.vhd.pssList)
    (hCall : callbackMinimal wsi s.vhd (.serverWriteable m) = some r) (hCode : r.code ≠ 0)
    (hClosed : callbackMinimal wsi r.vhd .closed = some r') :
    Inv (events ++ [⟨wsi, .serverWriteable m, r.code, r.written⟩])
      ⟨r'.vhd, Function.update s.requested wsi false⟩ := by
  rcases writeable_cases hCall with ⟨-, rfl⟩ |
    ⟨payload, hPayload, hBehind, hText, ⟨-, hData⟩ | ⟨hDone, -⟩⟩
  · exact absurd rfl hCode
  · have hWrite := h.write hLive hPayload hBehind
    rw [hData] at hClosed
    refine h.close hClosed (by simp) ?_ ?_ (by simp)
    · intro i hMem
      obtain rfl := Option.some.inj hClosed
      have hSame : wsi ≠ i := by
        rintro rfl
        exact h.nodup.not_mem_erase hMem
      simp [hSame]
    · intro i
      by_cases hSame : wsi = i
      · subst hSame
        simpa [hText] using hWrite.sublist
      · simpa [hSame] using h.ordered i
  · exact absurd hDone hCode

/-- Every callback keeps the invariant. -/
theorem Inv.step {e : Event I} (h : Inv events s) (hStep : Step s e s') :
    Inv (events ++ [e]) s' := by
  cases hStep with
  | established wsi hNew hCall => exact h.established hNew hCall
  | closed wsi hLive hCall =>
      exact h.close hCall (by simp) (by simp) (by simpa using h.ordered) (by simp)
  | received wsi input allocated hLive hCall => exact h.received hCall
  | writeable wsi m hLive hCall hCode => exact h.writeable hLive hCall hCode
  | failed wsi m hLive hCall hCode hClosed => exact h.failed hLive hCall hCode hClosed

theorem Inv.of_run (run : Runs Step {} events s) : Inv events s :=
  run.history Inv .initial fun _ _ _ _ h hStep => h.step hStep

/-- A session that does not wait any more has been written the newest message. -/
theorem Inv.quiet {i : I} (h : Inv events s) (hLive : i ∈ s.vhd.pssList)
    (hQuiet : s.requested i = false) (hDropped : dropped events = false) :
    (written i events).getLast? = (published i events).getLast? := by
  cases hPayload : s.vhd.amsg.payload with
  | none =>
      have hNone := h.kept hPayload hDropped i
      have hOrdered := h.ordered i
      rw [hNone] at hOrdered ⊢
      rw [List.sublist_nil.mp hOrdered]
  | some payload =>
      refine (h.upTo i hLive).newest ?_
      by_contra hBehind
      have hWoken := h.woken i hLive (by simp [hPayload]) hBehind
      simp [hQuiet] at hWoken

/-- A call with another reason than a message ends the wait of its session. -/
theorem Step.requested {e : Event I} (hStep : Step s e s') (hSilent : e.receives = false) :
    s'.requested = Function.update s.requested e.wsi false := by
  cases hStep with
  | established wsi hNew hCall => rfl
  | closed wsi hLive hCall => rfl
  | received wsi input allocated hLive hCall => simp at hSilent
  | writeable wsi m hLive hCall hCode => rfl
  | failed wsi m hLive hCall hCode hClosed => rfl

/-- Without another message a session that was called is not called again. -/
theorem requested_of_silent (run : Runs Step s events s')
    (hSilent : ∀ e ∈ events, e.receives = false) {i : I} (hServed : ∃ e ∈ events, e.wsi = i) :
    s'.requested i = false := by
  refine run.history (fun events s' => (∀ e ∈ events, e.receives = false) →
    (∃ e ∈ events, e.wsi = i) → s'.requested i = false) (by simp) ?_ hSilent hServed
  intro events middle e finish ih hStep hSilent hServed
  rw [hStep.requested (hSilent e (by simp)), Function.update_apply]
  split
  · rfl
  · rename_i hOther
    refine ih (fun e h => hSilent e (List.mem_append_left _ h)) ?_
    obtain ⟨served, hMem, rfl⟩ := hServed
    rcases List.mem_append.mp hMem with hMem | hMem
    · exact ⟨served, hMem, rfl⟩
    · exact absurd (congrArg Event.wsi (List.mem_singleton.mp hMem)) hOther

/-- Each session is written messages that arrived while it was open, in their order and
none twice. A live session has got the newest of them as soon as it was called once since,
unless there was no room for the last message received. -/
theorem sessions_follow (run : Runs Step {} events s) (i : I) :
    (written i events).Sublist (published i events) ∧
      ∀ before after, events = before ++ after → (∀ e ∈ after, e.receives = false) →
        (∃ e ∈ after, e.wsi = i) → i ∈ s.vhd.pssList → dropped events = false →
        (written i events).getLast? = (published i events).getLast? := by
  have h := Inv.of_run run
  refine ⟨h.ordered i, ?_⟩
  rintro before after rfl hSilent hServed hLive hDropped
  obtain ⟨middle, -, rest⟩ := run.split
  exact h.quiet hLive (requested_of_silent rest hSilent hServed) hDropped

end

/-- Two messages come while both sessions wait, and one of them gets the second. -/
theorem sessions_follow_sample :
    ∃ (events : List (Event Bool)) (s : State Bool), Runs Step {} events s ∧
      published false events = [[97], [98]] ∧ written false events = [[98]] ∧
      (written false events).Sublist (published false events) ∧
      (written false events).getLast? = (published false events).getLast? := by
  have hOpened : Runs Step ({} : State Bool) _ _ :=
    .snoc (.single (.established false (by simp) rfl)) (.established true (by simp) rfl)
  have hReceived := (hOpened.snoc (.received true [97] true (by simp) rfl)).snoc
    (.received true [98] true (by simp) rfl)
  have hRun := hReceived.snoc (.writeable false 1 (by simp) rfl rfl)
  have hFollow := sessions_follow hRun false
  exact ⟨_, _, hRun, rfl, rfl, hFollow.1,
    hFollow.2 _ _ rfl (by simp) ⟨_, List.mem_singleton.mpr rfl, rfl⟩ (by simp) rfl⟩

end Broadcast

import GisService.Video.Server

/-! The bytes that the peers of the verification server receive. A message that
`send` takes only in part is not continued, and the next one follows on the
same connection. -/
namespace Video

open ByteString Memory

/-- A length in host order, and that many bytes of JSON. -/
def IsFrame (bytes : Bytes) : Prop :=
  ∃ text, bytes = intBytes text.length ++ text ∧ text.length < 2 ^ 31 ∧
    (Json.parse text).isSome = true

/-- Complete frames, one after the other. -/
def Frames (stream : Bytes) : Prop :=
  ∃ frames : List Bytes, (∀ frame ∈ frames, IsFrame frame) ∧ stream = frames.flatten

/-- Complete frames, and perhaps a truncated one at the very end. -/
def Framed (stream : Bytes) : Prop :=
  ∃ whole rest, Frames whole ∧ stream = whole ++ rest ∧
    (rest = [] ∨ ∃ frame, IsFrame frame ∧ rest <+: frame)

/-- The connection that has been accepted since the last failure. -/
def renewedStep (current : Option Nat) : Event → Option Nat
  | ⟨before, .accept _, answer, _⟩ => if (answer : Int) < 0 then current else some before.accepted
  | ⟨_, .returned n, _, _⟩ => if n < 0 then none else current
  | _ => current

def renewed (events : List Event) : Option Nat := events.foldl renewedStep none

/-- The descriptor, the message and the answer of a call of `send`. -/
def sent? : Event → Option (Int × Bytes × Int)
  | ⟨_, .send fd buffer, n, _⟩ => some (fd, buffer, n)
  | _ => none

/-- The last call of `send`. -/
def lastSent (events : List Event) : Option (Int × Bytes × Int) := (events.filterMap sent?).getLast?

/-- Every peer sees complete frames, `sendVerifyAnswer` returns a positive value
for whole messages only, and bytes go out on a connection that is new since
the last failure, from a frame boundary on. -/
structure Delivers (past : List Event) (e : Event) : Prop where
  streams : ∀ number, Framed (e.after.delivered number)
  whole : ∀ n, e.question = .returned n → 0 < n →
    ∃ fd buffer, lastSent past = some (fd, buffer, n) ∧ n = buffer.length
  boundary : ∀ fd buffer n, sent? e = some (fd, buffer, n) → 0 < n →
    ∃ number, renewed past = some number ∧ e.before.file? fd = some (.connected number) ∧
      Frames (e.before.delivered number)

/-- A call of `send` takes the whole message or nothing, and nothing while no
connection has been accepted since the last failure. -/
structure SendsWhole (past : List Event) (e : Event) : Prop where
  whole : ∀ fd buffer n, sent? e = some (fd, buffer, n) → n = -1 ∨ n = buffer.length
  connected : ∀ fd buffer n, sent? e = some (fd, buffer, n) → 0 < n → (renewed past).isSome = true

theorem renewed_snoc (events : List Event) (e : Event) :
    renewed (events ++ [e]) = renewedStep (renewed events) e := by
  rw [renewed, List.foldl_append]
  rfl

/-- The last call of `send` is the newest event, or it was before. -/
theorem lastSent_snoc (events : List Event) (e : Event) :
    lastSent (events ++ [e]) = (sent? e).or (lastSent events) := by
  rw [lastSent, List.filterMap_append, List.getLast?_append, lastSent]
  cases hSent : sent? e with
  | none => simp [hSent]
  | some call => simp [hSent]

theorem Frames.nil : Frames [] := ⟨[], by simp, rfl⟩

/-- Another frame behind complete frames. -/
theorem Frames.append {stream frame : Bytes} (h : Frames stream) (hFrame : IsFrame frame) :
    Frames (stream ++ frame) := by
  obtain ⟨frames, hAll, rfl⟩ := h
  refine ⟨frames ++ [frame], ?_, by simp⟩
  intro other hMem
  rcases List.mem_append.mp hMem with hOld | hNew
  · exact hAll other hOld
  · rw [List.mem_singleton.mp hNew]
    exact hFrame

/-- Complete frames need no truncated one behind them. -/
theorem Frames.framed {stream : Bytes} (h : Frames stream) : Framed stream :=
  ⟨stream, [], h, by simp, .inl rfl⟩

/-- Every recorded message is a frame. -/
theorem isFrame_message (recording : Recording) : IsFrame recording.frame.message := by
  have hFits := recording.fits
  refine ⟨recording.frame.text, rfl, by omega, ?_⟩
  rw [parse_text]
  rfl

section Forward

variable {past : List Event} {g : Globals} {w w' : World}

/-- Only complete frames have been sent so far, and the descriptor for the next
one is that of the connection accepted since the last failure, if any. -/
structure Streaming (past : List Event) (g : Globals) (w : World) : Prop where
  frames : ∀ number, Frames (w.delivered number)
  current : ∀ number, renewed past = some number →
    0 ≤ g.sctVrfNew ∧ w.mine g.sctVrfNew.toNat = some (.connected number)

/-- A call that is neither `send` nor the end of `sendVerifyAnswer`. -/
theorem Delivers.of_frames {e : Event} (hSent : sent? e = none)
    (hReturned : ∀ n, e.question ≠ .returned n) (h : ∀ number, Frames (e.after.delivered number)) :
    Delivers past e := by
  refine ⟨fun number => (h number).framed, fun n hEq => absurd hEq (hReturned n), ?_⟩
  intro fd buffer n hEq
  rw [hSent] at hEq
  cases hEq

/-- Only `send` delivers anything. -/
theorem delivered_of_not_sent {e : Event} (h : Allowed e) (hSent : sent? e = none) :
    e.after.delivered = e.before.delivered := by
  obtain ⟨before, question, answer, after⟩ := e
  obtain ⟨middle, hEffect, hElsewhere⟩ := h
  rw [hElsewhere.delivered]
  cases question with
  | readAndCompress => rw [show middle = before from hEffect]
  | socket =>
      rcases hEffect with ⟨fd, -, -, rfl⟩ | ⟨-, rfl⟩
      · rfl
      · rfl
  | bind fd => rw [show middle = before from hEffect.2]
  | listen fd => rw [show middle = before from hEffect.2]
  | accept fd =>
      rcases hEffect with ⟨fd, -, -, -, rfl⟩ | ⟨-, rfl⟩
      · rfl
      · rfl
  | close holder fd =>
      rw [Effect] at hEffect
      split at hEffect
      · rw [hEffect.2]
        rfl
      · rw [hEffect.2]
  | getsockopt fd => rw [show middle = before from hEffect]
  | send fd buffer => cases hSent
  | returned n => rw [show middle = before from hEffect]

/-- Without a call of `send` the streams stay as they are. -/
theorem frames_of_not_sent {e : Event} (h : Allowed e) (hSent : sent? e = none)
    (hFrames : ∀ number, Frames (e.before.delivered number)) :
    ∀ number, Frames (e.after.delivered number) := by
  rw [delivered_of_not_sent h hSent]
  exact hFrames

/-- An event that neither accepts nor fails keeps the connection. -/
theorem renewed_snoc_of_eq {e : Event} {current : Option Nat} (hRenewed : renewed past = current)
    (hStep : renewedStep current e = current) : renewed (past ++ [e]) = current := by
  rw [renewed_snoc, hRenewed, hStep]

/-- After a failure nothing is said about the descriptors. -/
theorem streaming_of_none (h : ∀ number, Frames (w.delivered number)) (hNone : renewed past = none) :
    Streaming past g w := by
  refine ⟨h, fun number hSome => ?_⟩
  rw [hNone] at hSome
  cases hSome

/-- A new connection starts at a frame boundary, as every connection does. -/
theorem acceptConnectionVerify_streaming (g : Globals)
    (hFrames : ∀ number, Frames (w.delivered number)) (hNone : renewed past = none) :
    (acceptConnectionVerify g).Meets Allowed SendsWhole Delivers
      (fun past result w => Streaming past result.2 w) past w := by
  intro sctVrf opened hAllowed _
  have hOpened := frames_of_not_sent hAllowed rfl hFrames
  have hSocket := renewed_snoc_of_eq hNone (e := ⟨w, .socket, sctVrf, opened⟩) rfl
  refine ⟨.of_frames rfl nofun hOpened, Program.meets_ite
    (fun _ => streaming_of_none hOpened hSocket) fun _ => ?_⟩
  intro res bound hAllowed _
  have hBound := frames_of_not_sent hAllowed rfl hOpened
  have hBind := renewed_snoc_of_eq hSocket (e := ⟨opened, .bind sctVrf, res, bound⟩) rfl
  refine ⟨.of_frames rfl nofun hBound, Program.meets_ite
    (fun _ => streaming_of_none hBound hBind) fun _ => ?_⟩
  intro res listening hAllowed _
  have hListening := frames_of_not_sent hAllowed rfl hBound
  have hListen := renewed_snoc_of_eq hBind (e := ⟨bound, .listen sctVrf, res, listening⟩) rfl
  refine ⟨.of_frames rfl nofun hListening, Program.meets_ite
    (fun _ => streaming_of_none hListening hListen) fun _ => ?_⟩
  intro sctVrfNew accepted hAllowed _
  have hAccepted := frames_of_not_sent hAllowed rfl hListening
  refine ⟨.of_frames rfl nofun hAccepted, Program.meets_ite (fun hFail => ?_) fun hOk => ?_⟩
  · apply streaming_of_none hAccepted
    rw [renewed_snoc, hListen]
    exact if_pos hFail
  · rcases allowed_accept hAllowed with ⟨fd, hLowest, rfl, hElsewhere⟩ | ⟨rfl, -⟩
    · refine ⟨hAccepted, fun number hSome => ⟨Int.natCast_nonneg fd, ?_⟩⟩
      have hNumber : (if (fd : Int) < 0 then none else some listening.accepted) =
          some listening.accepted := if_neg hOk
      rw [renewed_snoc, hListen] at hSome
      obtain rfl := Option.some.inj (hNumber.symm.trans hSome)
      rw [hElsewhere.mine_of_accept]
      exact Function.update_self fd _ _
    · exact absurd (show (-1 : Int) < 0 by decide) hOk

/-- Closing sends nothing, so it is enough to look at what follows. -/
theorem closeIfPositive_streaming {holder : Holder} {fd : Int} {next : Thread Globals}
    (hFrames : ∀ number, Frames (w.delivered number)) (hNone : renewed past = none)
    (hNext : ∀ past w, (∀ number, Frames (w.delivered number)) → renewed past = none →
      next.Meets Allowed SendsWhole Delivers Streaming past w) :
    (closeIfPositive holder fd next).Meets Allowed SendsWhole Delivers Streaming past w := by
  apply Program.meets_ite
  · intro _ answer after hAllowed _
    have hAfter := frames_of_not_sent hAllowed rfl hFrames
    exact ⟨.of_frames rfl nofun hAfter, hNext _ _ hAfter
      (renewed_snoc_of_eq hNone (e := ⟨w, .close holder fd, answer, after⟩) rfl)⟩
  · intro _
    exact hNext past w hFrames hNone

/-- The way back from a failure sends nothing, and may end with a new connection. -/
theorem reacceptVerify_streaming (g : Globals) (hFrames : ∀ number, Frames (w.delivered number))
    (hNone : renewed past = none) :
    (reacceptVerify g).Meets Allowed SendsWhole Delivers Streaming past w := by
  apply closeIfPositive_streaming hFrames hNone
  intro past₁ w₁ hFrames₁ hNone₁
  apply closeIfPositive_streaming hFrames₁ hNone₁
  intro past₂ w₂ hFrames₂ hNone₂
  rw [Program.meets_bind]
  exact acceptConnectionVerify_streaming g hFrames₂ hNone₂

/-- A recorded frame does not touch the sockets. -/
theorem Streaming.prepared (h : Streaming past g w) (recording : Recording) :
    Streaming past (g.prepared recording) w := by
  refine ⟨h.frames, ?_⟩
  rw [prepared_sctVrfNew]
  exact h.current

/-- A call that changes nothing, between failures. -/
theorem Streaming.next {e : Event} (h : Streaming past g w) (hElsewhere : w.Elsewhere w')
    (hRenewed : renewedStep (renewed past) e = renewed past) : Streaming (past ++ [e]) g w' := by
  constructor
  · rw [hElsewhere.delivered]
    exact h.frames
  · rw [renewed_snoc, hRenewed, hElsewhere.mine]
    exact h.current

/-- A message that is sent goes as a whole to the current connection. -/
theorem Streaming.sent {n : Int} (h : Streaming past g w) (recording : Recording)
    (hAllowed : Allowed ⟨w, .send g.sctVrfNew recording.frame.message, n, w'⟩)
    (hWhole : SendsWhole past ⟨w, .send g.sctVrfNew recording.frame.message, n, w'⟩) :
    Delivers past ⟨w, .send g.sctVrfNew recording.frame.message, n, w'⟩ ∧
      Streaming (past ++ [⟨w, .send g.sctVrfNew recording.frame.message, n, w'⟩]) g w' := by
  rcases allowed_send hAllowed with ⟨rfl, hElsewhere⟩ | ⟨k, hPos, -, rfl, hFile⟩
  · have hNext : Streaming (past ++ [⟨w, .send g.sctVrfNew recording.frame.message, (-1 : Int), w'⟩]) g
        w' := h.next hElsewhere rfl
    refine ⟨⟨fun number => (hNext.frames number).framed, nofun, ?_⟩, hNext⟩
    rintro _ _ _ ⟨⟩ hNeg
    exact absurd hNeg (by decide)
  · have hLength : k = recording.frame.message.length := by
      rcases hWhole.whole _ _ _ rfl with hError | hAll
      · omega
      · exact Int.ofNat.inj hAll
    obtain ⟨number, hRenewed⟩ := Option.isSome_iff_exists.mp (hWhole.connected _ _ _ rfl (by omega))
    obtain ⟨hNonneg, hMine⟩ := h.current number hRenewed
    have hConnected : w.file? g.sctVrfNew = some (.connected number) := by
      rw [file?_of_nonneg w hNonneg]
      exact mine_eq_connected.mp hMine
    have hElsewhere : (w.deliver number recording.frame.message).Elsewhere w' := by
      rcases hFile with ⟨other, hOther, hElsewhere⟩ | ⟨hOther, -⟩
      · rw [hConnected] at hOther
        obtain rfl := File.connected.inj (Option.some.inj hOther)
        rwa [hLength, List.take_length] at hElsewhere
      · rw [hConnected] at hOther
        cases hOther
    have hNext : Streaming (past ++ [⟨w, .send g.sctVrfNew recording.frame.message, (k : Int), w'⟩]) g
        w' := by
      constructor
      · intro other
        rw [hElsewhere.delivered, World.deliver]
        by_cases hOther : other = number
        · subst hOther
          simpa using (h.frames other).append (isFrame_message recording)
        · simpa [hOther] using h.frames other
      · rw [renewed_snoc, hElsewhere.mine]
        exact h.current
    refine ⟨⟨fun other => (hNext.frames other).framed, nofun, ?_⟩, hNext⟩
    rintro _ _ _ ⟨⟩ -
    exact ⟨number, hRenewed, hConnected, h.frames number⟩

/-- A pass sends one whole frame to the current connection, or nothing. -/
theorem pass_streaming (h : Streaming past g w) :
    (pass g).Meets Allowed SendsWhole Delivers Streaming past w := by
  rw [pass_eq]
  intro recording w₁ hAllowed _
  have hRead : Streaming (past ++ [⟨w, .readAndCompress, recording, w₁⟩]) g w₁ :=
    h.next (allowed_quiet hAllowed fun _ h => h) rfl
  refine ⟨.of_frames rfl nofun hRead.frames, ?_⟩
  intro pending w₂ hAllowed _
  have hGetsockopt : Streaming (_ ++ [⟨w₁, .getsockopt g.sctVrfNew, pending, w₂⟩]) g w₂ :=
    hRead.next (allowed_quiet hAllowed fun _ h => h) rfl
  refine ⟨.of_frames rfl nofun hGetsockopt.frames, ?_⟩
  intro n w₃ hAllowed hWhole
  obtain ⟨hDelivers, hSent⟩ := hGetsockopt.sent recording hAllowed hWhole
  refine ⟨hDelivers, ?_⟩
  intro pending' w₄ hAllowed _
  have hAfter : Streaming (_ ++ [⟨w₃, .getsockopt g.sctVrfNew, pending', w₄⟩]) g w₄ :=
    hSent.next (allowed_quiet hAllowed fun _ h => h) rfl
  refine ⟨.of_frames rfl nofun hAfter.frames, ?_⟩
  intro noted w₅ hAllowed _
  have hReturned := frames_of_not_sent hAllowed rfl hAfter.frames
  refine ⟨⟨fun number => (hReturned number).framed, ?_, nofun⟩,
    Program.meets_ite (fun hn => ?_) fun hn => ?_⟩
  · rintro m ⟨⟩ hPos
    have hn : ¬ n ≤ (0 : Int) := by
      intro hn
      rw [if_pos hn] at hPos
      exact absurd hPos (by decide)
    rw [if_neg hn, lastSent_snoc, lastSent_snoc]
    refine ⟨_, _, rfl, (hWhole.whole _ _ _ rfl).resolve_left ?_⟩
    rintro rfl
    exact hn (by omega)
  · apply reacceptVerify_streaming _ hReturned
    rw [renewed_snoc, if_pos hn]
    rfl
  · apply Streaming.prepared
    apply hAfter.next (allowed_quiet hAllowed fun _ h => h)
    rw [if_neg hn]
    exact if_neg fun hNeg : (n : Int) < 0 => hn (Int.le_of_lt hNeg)

end Forward

section Backward

variable {past : List Event} {w : World}

/-- What is not sent is not sent in part. -/
theorem SendsWhole.of_not_sent {e : Event} (hSent : sent? e = none) : SendsWhole past e := by
  constructor
  · intro fd buffer n hEq
    rw [hSent] at hEq
    cases hEq
  · intro fd buffer n hEq
    rw [hSent] at hEq
    cases hEq

theorem sendsWhole_snoc {e : Event} (h : Throughout SendsWhole past) (hSent : sent? e = none) :
    Throughout SendsWhole (past ++ [e]) :=
  throughout_snoc.mpr ⟨h, .of_not_sent hSent⟩

/-- What is proved of a run that delivers is the condition on the calls of
`send`, once a pass is complete. -/
abbrev Condition {R : Type} (past : List Event) (_ : R) (_ : World) : Prop :=
  Throughout SendsWhole past

/-- New sockets send nothing, so that what held of the calls of `send` still
holds. -/
theorem acceptConnectionVerify_whole (g : Globals) (h : Throughout SendsWhole past) :
    (acceptConnectionVerify g).Meets Allowed Delivers (fun _ _ => True) Condition past w := by
  intro sctVrf opened _ _
  have hSocket := sendsWhole_snoc h (e := ⟨w, .socket, sctVrf, opened⟩) rfl
  refine ⟨trivial, Program.meets_ite (fun _ => hSocket) fun _ => ?_⟩
  intro res bound _ _
  have hBind := sendsWhole_snoc hSocket (e := ⟨opened, .bind sctVrf, res, bound⟩) rfl
  refine ⟨trivial, Program.meets_ite (fun _ => hBind) fun _ => ?_⟩
  intro res listening _ _
  have hListen := sendsWhole_snoc hBind (e := ⟨bound, .listen sctVrf, res, listening⟩) rfl
  refine ⟨trivial, Program.meets_ite (fun _ => hListen) fun _ => ?_⟩
  intro sctVrfNew accepted _ _
  have hAccept := sendsWhole_snoc hListen (e := ⟨listening, .accept sctVrf, sctVrfNew, accepted⟩) rfl
  exact ⟨trivial, Program.meets_ite (fun _ => hAccept) fun _ => hAccept⟩

theorem closeIfPositive_whole {holder : Holder} {fd : Int} {next : Thread Globals}
    (h : Throughout SendsWhole past)
    (hNext : ∀ past w, Throughout SendsWhole past →
      next.Meets Allowed Delivers (fun _ _ => True) Condition past w) :
    (closeIfPositive holder fd next).Meets Allowed Delivers (fun _ _ => True) Condition past w := by
  apply Program.meets_ite
  · intro _ answer after _ _
    exact ⟨trivial, hNext _ _ (sendsWhole_snoc h (e := ⟨w, .close holder fd, answer, after⟩) rfl)⟩
  · intro _
    exact hNext past w h

theorem reacceptVerify_whole (g : Globals) (h : Throughout SendsWhole past) :
    (reacceptVerify g).Meets Allowed Delivers (fun _ _ => True) Condition past w := by
  apply closeIfPositive_whole h
  intro past₁ w₁ h₁
  apply closeIfPositive_whole h₁
  intro past₂ w₂ h₂
  rw [Program.meets_bind]
  exact acceptConnectionVerify_whole g h₂

/-- A message that was handed over as a whole, if at all. -/
theorem SendsWhole.of_delivers {w' : World} {fd n : Int} {buffer : Bytes}
    (hAllowed : Allowed ⟨w, .send fd buffer, n, w'⟩)
    (hDelivers : Delivers past ⟨w, .send fd buffer, n, w'⟩)
    (hWhole : 0 < n → n = buffer.length) : SendsWhole past ⟨w, .send fd buffer, n, w'⟩ := by
  constructor
  · rintro _ _ _ ⟨⟩
    rcases allowed_send hAllowed with ⟨hError, -⟩ | ⟨k, hPos, -, rfl, -⟩
    · exact .inl hError
    · exact .inr (hWhole (by omega))
  · rintro _ _ _ ⟨⟩ hPos
    obtain ⟨number, hRenewed, -⟩ := hDelivers.boundary _ _ _ rfl hPos
    rw [hRenewed]
    rfl

/-- In a pass that delivers, `send` takes the whole message or nothing. -/
theorem pass_whole (g : Globals) (h : Throughout SendsWhole past) :
    (pass g).Meets Allowed Delivers (fun _ _ => True) Condition past w := by
  rw [pass_eq]
  intro recording w₁ _ _
  have hRead := sendsWhole_snoc h (e := ⟨w, .readAndCompress, recording, w₁⟩) rfl
  refine ⟨trivial, ?_⟩
  intro pending w₂ _ _
  have hGetsockopt := sendsWhole_snoc hRead (e := ⟨w₁, .getsockopt g.sctVrfNew, pending, w₂⟩) rfl
  refine ⟨trivial, ?_⟩
  intro n w₃ hAllowed hBoundary
  refine ⟨trivial, ?_⟩
  intro pending' w₄ _ _
  refine ⟨trivial, ?_⟩
  intro noted w₅ _ hReturned
  -- Only the value returned shows whether the message went out as a whole.
  have hWhole (hPos : 0 < (n : Int)) : (n : Int) = recording.frame.message.length := by
    have hResult := hReturned.whole _ rfl
    rw [if_neg (Int.not_le.mpr hPos), lastSent_snoc, lastSent_snoc] at hResult
    obtain ⟨_, _, ⟨⟩, hLength⟩ := hResult hPos
    exact hLength
  have hSend := throughout_snoc.mpr ⟨hGetsockopt, .of_delivers hAllowed hBoundary hWhole⟩
  have hOption := sendsWhole_snoc hSend (e := ⟨w₃, .getsockopt g.sctVrfNew, pending', w₄⟩) rfl
  have hEnd := sendsWhole_snoc hOption
    (e := ⟨w₄, .returned (if (n : Int) ≤ 0 then -1 else n), noted, w₅⟩) rfl
  exact ⟨trivial, Program.meets_ite (fun _ => reacceptVerify_whole _ hEnd) fun _ => hEnd⟩

end Backward

/-- Every peer receives a stream of complete frames if no call of `send` takes a
part of a message, or anything at all after a failed re-accept, and for a run of
whole passes only then. -/
theorem delivers_iff {w : World} {events : List Event} {finish : Thread Globals × World}
    (hFresh : w.Fresh) (run : ServerRun w events finish) :
    (Throughout SendsWhole events → Throughout Delivers events) ∧
    ∀ g, finish.1 = .done g → Throughout Delivers events → Throughout SendsWhole events := by
  constructor
  · intro hWhole
    have hStart : thrVerifyServer.Meets Allowed SendsWhole Delivers Streaming [] w := by
      rw [thrVerifyServer, Program.meets_bind]
      apply acceptConnectionVerify_streaming {} _ rfl
      intro number
      rw [hFresh.delivered]
      exact .nil
    exact (Program.ensure_of_run (fun _ _ _ h => pass_streaming h) hStart run hWhole).1
  · intro g hDone hDelivers
    have hStart : thrVerifyServer.Meets Allowed Delivers (fun _ _ => True) Condition [] w := by
      rw [thrVerifyServer, Program.meets_bind]
      exact acceptConnectionVerify_whole {} throughout_nil
    have hEnd := (Program.ensure_of_run (fun _ g _ h => pass_whole g h) hStart run hDelivers).2
    rw [hDone] at hEnd
    exact hEnd

/-- The first connection takes `n` bytes of the first message. -/
def World.sent (n : Nat) : World := World.serving.deliver 0 (sampleRecording.frame.message.take n)

def sending (n : Nat) : List Event :=
  [⟨.serving, .readAndCompress, sampleRecording, .serving⟩,
    ⟨.serving, .getsockopt 4, (0 : Int), .serving⟩,
    ⟨.serving, .send 4 sampleRecording.frame.message, (n : Int), .sent n⟩,
    ⟨.sent n, .getsockopt 4, (0 : Int), .sent n⟩, ⟨.sent n, .returned n, (), .sent n⟩]

/-- A pass in which `send` takes the first bytes of the message. -/
theorem sending_run {n : Nat} (hPos : 0 < n) (hLength : n ≤ sampleRecording.frame.message.length) :
    Runs (Program.Step Allowed pass) (.done .serving, .serving) (sending n)
      (.done (Globals.serving.prepared sampleRecording), .sent n) := by
  have hRead : Allowed ⟨.serving, .readAndCompress, sampleRecording, .serving⟩ := ⟨_, rfl, .refl _⟩
  have hOption (w : World) : Allowed ⟨w, .getsockopt 4, (0 : Int), w⟩ := ⟨_, rfl, .refl _⟩
  have hSend : Allowed ⟨.serving, .send 4 sampleRecording.frame.message, (n : Int), .sent n⟩ :=
    ⟨_, .inr ⟨n, hPos, hLength, rfl, rfl⟩, .refl _⟩
  have hReturned : Allowed ⟨.sent n, .returned n, (), .sent n⟩ := ⟨_, rfl, .refl _⟩
  have hSign : ¬ (n : Int) ≤ 0 := by omega
  have hFirst : Runs (Program.Step Allowed pass) (.done .serving, .serving) [_, _, _] _ :=
    .snoc (.snoc (.single (.again (pass_eq _) hRead)) (.call (hOption _))) (.call hSend)
  rw [if_neg hSign, if_neg hSign] at hFirst
  exact .snoc (.snoc hFirst (.call (hOption _))) (.call hReturned)

theorem length_sampleRecording : sampleRecording.frame.message.length = 176 := by
  have hText := length_text_blackFrame 0
  rw [sampleRecording, Frame.message, List.length_append, length_intBytes, hText]

/-- A pass in which `send` takes all 176 bytes. -/
theorem delivers_sample :
    (Throughout SendsWhole (connecting ++ sending 176) →
      Throughout Delivers (connecting ++ sending 176)) ∧
    ∀ g, (.done (Globals.serving.prepared sampleRecording) : Thread Globals) = .done g →
      Throughout Delivers (connecting ++ sending 176) →
      Throughout SendsWhole (connecting ++ sending 176) :=
  delivers_iff fresh_idle (connecting_run.trans
    (sending_run (by decide) (by rw [length_sampleRecording])))

/-- One byte is handed over, and `sendVerifyAnswer` returns 1. -/
theorem partial_send_counts_as_sent :
    (∃ finish, ServerRun .idle (connecting ++ sending 1) finish) ∧
    ¬ Throughout Delivers (connecting ++ sending 1) := by
  constructor
  · exact ⟨_, connecting_run.trans
      (sending_run (by decide) (by rw [length_sampleRecording]; decide))⟩
  · intro hDelivers
    obtain ⟨fd, buffer, hLast, hLength⟩ := (hDelivers (connecting ++ [_, _, _, _])
      ⟨.sent 1, .returned 1, (), .sent 1⟩ [] rfl).whole 1 rfl (by decide)
    have hBuffer : buffer = sampleRecording.frame.message := by
      cases hLast
      rfl
    rw [hBuffer, length_sampleRecording] at hLength
    exact absurd hLength (by decide)

end Video

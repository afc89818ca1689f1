import GisService.Video.Server

/-! Which descriptors the thread closes and sends on. `accept_connectionVerify`
leaves old numbers behind when it fails, and descriptor 0 is never closed. -/
namespace Video

/-- A call of `accept_connectionVerify` that has failed. -/
def Failed : Event → Prop
  | ⟨_, .socket, answer, _⟩ => (answer : Int) < 0
  | ⟨_, .bind _, answer, _⟩ => (answer : Int) < 0
  | ⟨_, .listen _, answer, _⟩ => (answer : Int) < 0
  | ⟨_, .accept _, answer, _⟩ => (answer : Int) < 0
  | _ => False

/-- The connection that the current listening socket has accepted last. A call
of `socket` gives up the listening socket before. -/
def latestStep (current : Option Nat) : Event → Option Nat
  | ⟨_, .socket, _, _⟩ => none
  | ⟨before, .accept _, answer, _⟩ => if (answer : Int) < 0 then current else some before.accepted
  | _ => current

def latest (events : List Event) : Option Nat := events.foldl latestStep none

/-- The newest event decides which connection is the latest one. -/
theorem latest_snoc (events : List Event) (e : Event) :
    latest (events ++ [e]) = latestStep (latest events) e := by
  rw [latest, List.foldl_append]
  rfl

/-- Whether a file is one that was obtained for a global variable. -/
def File.ObtainedFor : Holder → File → Prop
  | .sctVrf, file => file = .listening
  | .sctVrfNew, file => ∃ number, file = .connected number

structure World.AtMostOne (w : World) : Prop where
  listening : ∀ a b, w.table a = some .listening → w.table b = some .listening → a = b
  connected : ∀ a b m n, w.table a = some (.connected m) → w.table b = some (.connected n) → a = b

/-- A descriptor that is closed is open and belongs to the variable it was read
from, bytes are sent on the latest connection only, and no socket is left
over. -/
structure Owned (past : List Event) (e : Event) : Prop where
  close : ∀ holder fd, e.question = .close holder fd →
    ∃ file, e.before.file? fd = some file ∧ file.ObtainedFor holder
  send : ∀ fd buffer, e.question = .send fd buffer →
    ∃ number, e.before.file? fd = some (.connected number) ∧ latest past = some number
  one : e.after.AtMostOne

/-- Whatever is sent, `accept_connectionVerify` has always got through before,
and a socket or a connection is not replaced while it has descriptor 0. -/
structure GetsThrough (past : List Event) (e : Event) : Prop where
  served : ∀ fd buffer, e.question = .send fd buffer → ∀ u ∈ past, ¬ Failed u
  listener : e.question = .socket → ¬ Failed e → e.before.table 0 ≠ some .listening
  connection : ∀ fd, e.question = .accept fd → ¬ Failed e →
    ∀ number, e.before.table 0 ≠ some (.connected number)

section Worlds
variable {w w' : World}

/-- It is enough to say which descriptors the two can have. -/
theorem World.AtMostOne.of_eq (a b : Nat)
    (hListening : ∀ fd, w.table fd = some .listening → fd = a)
    (hConnected : ∀ fd number, w.table fd = some (.connected number) → fd = b) : w.AtMostOne where
  listening c d hc hd := (hListening c hc).trans (hListening d hd).symm
  connected c d m n hc hd := (hConnected c m hc).trans (hConnected d n hd).symm

/-- Fewer files of the thread's own leave at most one of each kind. -/
theorem World.AtMostOne.of_mine (h : w.AtMostOne)
    (hMine : ∀ fd file, w'.mine fd = some file → w.mine fd = some file) : w'.AtMostOne := by
  have hTable (file : File) (hFile : file ≠ .elsewhere) (fd : Nat) (hFd : w'.table fd = some file) :
      w.table fd = some file :=
    (mine_eq_some_iff hFile).mp (hMine fd file ((mine_eq_some_iff hFile).mpr hFd))
  constructor
  · intro a b ha hb
    exact h.listening a b (hTable _ (by simp) a ha) (hTable _ (by simp) b hb)
  · intro a b m n ha hb
    exact h.connected a b m n (hTable _ (by simp) a ha) (hTable _ (by simp) b hb)

/-- A new listening socket, and nothing else but perhaps a connection that is
left over as descriptor 0. -/
structure Opened (fd : Nat) (w : World) : Prop where
  listening : w.mine fd = some .listening
  only : ∀ other file, w.mine other = some file → other = fd ∨ other = 0 ∧ file ≠ .listening

/-- A new listening socket is the only one. -/
theorem Opened.atMostOne {fd : Nat} (h : Opened fd w) : w.AtMostOne := by
  apply World.AtMostOne.of_eq fd 0
  · intro other hOther
    rcases h.only other _ (mine_eq_listening.mpr hOther) with hFd | ⟨-, hFile⟩
    · exact hFd
    · exact absurd rfl hFile
  · intro other number hOther
    have hMine := mine_eq_connected.mpr hOther
    rcases h.only other _ hMine with rfl | ⟨hZero, -⟩
    · rw [h.listening] at hMine
      cases hMine
    · exact hZero

theorem Opened.of_mine {fd : Nat} (h : Opened fd w) (hMine : w'.mine = w.mine) : Opened fd w' :=
  ⟨by rw [hMine]; exact h.listening, by rw [hMine]; exact h.only⟩

/-- A successful call of `socket`, with at most a connection left over. -/
theorem opened_of_socket {fd : Nat} (hLeft : ∀ other file, w.mine other = some file → other = 0)
    (hListening : w.table 0 ≠ some .listening)
    (hElsewhere : (w.set fd (some .listening)).Elsewhere w') : Opened fd w' := by
  have hMine := hElsewhere.mine_of_set (by simp)
  constructor
  · rw [hMine, Function.update_self]
  · intro other file hOther
    by_cases hFd : other = fd
    · exact .inl hFd
    · rw [hMine, Function.update_of_ne hFd] at hOther
      obtain rfl := hLeft other file hOther
      refine .inr ⟨rfl, ?_⟩
      rintro rfl
      exact hListening (mine_eq_listening.mp hOther)

/-- The thread holds one listening socket, one connection, and nothing else. -/
structure Serving (past : List Event) (g : Globals) (w : World) : Prop where
  sctVrf_nonneg : 0 ≤ g.sctVrf
  sctVrf : w.mine g.sctVrf.toNat = some .listening
  sctVrfNew_nonneg : 0 ≤ g.sctVrfNew
  sctVrfNew : ∃ number, w.mine g.sctVrfNew.toNat = some (.connected number) ∧
    latest past = some number
  only : ∀ fd file, w.mine fd = some file → fd = g.sctVrf.toNat ∨ fd = g.sctVrfNew.toNat

/-- While serving there is one of each kind. -/
theorem Serving.atMostOne {past : List Event} {g : Globals} (h : Serving past g w) :
    w.AtMostOne := by
  obtain ⟨number, hNew, -⟩ := h.sctVrfNew
  apply World.AtMostOne.of_eq g.sctVrf.toNat g.sctVrfNew.toNat
  · intro fd hFd
    have hMine := mine_eq_listening.mpr hFd
    rcases h.only fd _ hMine with rfl | rfl
    · rfl
    · rw [hNew] at hMine
      cases hMine
  · intro fd other hFd
    have hMine := mine_eq_connected.mpr hFd
    rcases h.only fd _ hMine with rfl | rfl
    · rw [h.sctVrf] at hMine
      cases hMine
    · rfl

/-- A call that says nothing about the sockets. -/
theorem Serving.next {past : List Event} {g : Globals} (h : Serving past g w) {e : Event}
    (hMine : w'.mine = w.mine) (hLatest : latestStep (latest past) e = latest past) :
    Serving (past ++ [e]) g w' := by
  refine ⟨h.sctVrf_nonneg, ?_, h.sctVrfNew_nonneg, ?_, ?_⟩
  · rw [hMine]
    exact h.sctVrf
  · rw [hMine, latest_snoc, hLatest]
    exact h.sctVrfNew
  · rw [hMine]
    exact h.only

/-- A recorded frame does not touch the sockets. -/
theorem Serving.prepared {past : List Event} {g : Globals} (h : Serving past g w)
    (recording : Recording) : Serving past (g.prepared recording) w := by
  constructor <;> simp only [prepared_sctVrf, prepared_sctVrfNew]
  · exact h.sctVrf_nonneg
  · exact h.sctVrf
  · exact h.sctVrfNew_nonneg
  · exact h.sctVrfNew
  · exact h.only

/-- A successful call of `accept`, with nothing left over but the listening
socket. -/
theorem serving_of_accept {fd : Nat} (past : List Event) (g : Globals) (listener : Int)
    (hNonneg : 0 ≤ g.sctVrf) (hOpened : Opened g.sctVrf.toNat w)
    (hConnection : ∀ number, w.table 0 ≠ some (.connected number)) (hLowest : w.Lowest fd)
    (hElsewhere : { w.set fd (some (.connected w.accepted)) with
      accepted := w.accepted + 1 }.Elsewhere w') :
    Serving (past ++ [⟨w, .accept listener, (fd : Int), w'⟩]) { g with sctVrfNew := fd } w' := by
  have hMine := hElsewhere.mine_of_accept
  have hFree := mine_eq_none hLowest.1
  have hNe : g.sctVrf.toNat ≠ fd := by
    intro hEq
    rw [← hEq, hOpened.listening] at hFree
    simp at hFree
  have hLatest : latest (past ++ [⟨w, .accept listener, (fd : Int), w'⟩]) = some w.accepted := by
    have hSign : ¬ (fd : Int) < 0 := by omega
    rw [latest_snoc]
    show (if (fd : Int) < 0 then latest past else some w.accepted) = some w.accepted
    rw [if_neg hSign]
  refine ⟨hNonneg, ?_, Int.natCast_nonneg fd, ⟨w.accepted, ?_, hLatest⟩, ?_⟩
  · rw [hMine, Function.update_of_ne hNe]
    exact hOpened.listening
  · rw [hMine, Int.toNat_natCast, Function.update_self]
  · intro other file hOther
    by_cases hFd : other = fd
    · exact .inr (by rw [hFd, Int.toNat_natCast])
    · rw [hMine, Function.update_of_ne hFd] at hOther
      rcases hOpened.only other file hOther with hVrf | ⟨rfl, hFile⟩
      · exact .inl hVrf
      · cases file with
        | elsewhere => simp [World.mine, Option.filter_eq_some_iff] at hOther
        | listening => exact absurd rfl hFile
        | connected number =>
            exact absurd (mine_eq_connected.mp hOther) (hConnection number)

/-- At the head of the loop, the thread is serving a connection, unless a call
has failed on the way. -/
structure AtHead (past : List Event) (g : Globals) (w : World) : Prop where
  one : w.AtMostOne
  serving : (∃ u ∈ past, Failed u) ∨ Serving past g w

/-- After a failure nothing is said about the descriptors. -/
theorem AtHead.of_failed {past : List Event} {g : Globals} {e : Event} (hOne : w.AtMostOne)
    (hMem : e ∈ past) (hFailed : Failed e) : AtHead past g w :=
  ⟨hOne, .inl ⟨e, hMem, hFailed⟩⟩

/-- A call that says nothing about the sockets. -/
theorem AtHead.next {past : List Event} {g : Globals} (h : AtHead past g w) {e : Event}
    (hMine : w'.mine = w.mine) (hLatest : latestStep (latest past) e = latest past) :
    AtHead (past ++ [e]) g w' := by
  refine ⟨h.one.of_mine fun fd file hFd => by rwa [← hMine], ?_⟩
  rcases h.serving with ⟨u, hMem, hFailed⟩ | hServing
  · exact .inl ⟨u, List.mem_append_left _ hMem, hFailed⟩
  · exact .inr (hServing.next hMine hLatest)

end Worlds

section Forward

/-- A call that neither closes nor sends needs no descriptor. -/
theorem Owned.of_one {past : List Event} {e : Event}
    (hClose : ∀ holder fd, e.question ≠ .close holder fd)
    (hSend : ∀ fd buffer, e.question ≠ .send fd buffer) (h : e.after.AtMostOne) : Owned past e :=
  ⟨fun holder fd hEq => absurd hEq (hClose holder fd),
    fun fd buffer hEq => absurd hEq (hSend fd buffer), h⟩

/-- The new sockets of `accept_connectionVerify`, up to the first call that
fails. -/
theorem acceptConnectionVerify_meets (g : Globals) (past : List Event) (w : World)
    (hLeft : ∀ fd file, w.mine fd = some file → fd = 0) :
    (acceptConnectionVerify g).Meets Allowed GetsThrough Owned
      (fun past result w => AtHead past result.2 w) past w := by
  have hOne : w.AtMostOne := .of_eq 0 0 (fun fd hFd => hLeft fd _ (mine_eq_listening.mpr hFd))
    fun fd number hFd => hLeft fd _ (mine_eq_connected.mpr hFd)
  have hLast (past : List Event) (e : Event) : e ∈ past ++ [e] :=
    List.mem_append_right _ List.mem_cons_self
  intro answer opened hAllowed hThrough
  rcases allowed_socket hAllowed with ⟨fd, hLowest, rfl, hElsewhere⟩ | ⟨rfl, hElsewhere⟩
  · have hListener := hThrough.listener rfl (show ¬ (fd : Int) < 0 by omega)
    have hOpened := opened_of_socket hLeft hListener hElsewhere
    refine ⟨.of_one nofun nofun hOpened.atMostOne, Program.meets_ite
      (fun hFail => absurd hFail (show ¬ (fd : Int) < 0 by omega)) fun _ => ?_⟩
    intro answer bound hAllowed _
    have hBound := hOpened.of_mine (allowed_quiet hAllowed fun _ h => h.2).mine
    refine ⟨.of_one nofun nofun hBound.atMostOne, Program.meets_ite
      (fun hFail => .of_failed hBound.atMostOne (hLast _ _) hFail) fun _ => ?_⟩
    intro answer listening hAllowed _
    have hListening := hBound.of_mine (allowed_quiet hAllowed fun _ h => h.2).mine
    refine ⟨.of_one nofun nofun hListening.atMostOne, Program.meets_ite
      (fun hFail => .of_failed hListening.atMostOne (hLast _ _) hFail) fun _ => ?_⟩
    intro answer accepted hAllowed hThrough
    rcases allowed_accept hAllowed with ⟨new, hLowest, rfl, hElsewhere⟩ | ⟨rfl, hElsewhere⟩
    · have hConnection := hThrough.connection _ rfl (show ¬ (new : Int) < 0 by omega)
      have hServing (past : List Event) := serving_of_accept past { g with sctVrf := fd } fd
        (Int.natCast_nonneg fd) hListening hConnection hLowest hElsewhere
      have hOne := (hServing []).atMostOne
      exact ⟨.of_one nofun nofun hOne, Program.meets_ite
        (fun hFail => absurd hFail (show ¬ (new : Int) < 0 by omega)) fun _ =>
        ⟨hOne, .inr (hServing _)⟩⟩
    · have hFailed := hListening.of_mine hElsewhere.mine
      exact ⟨.of_one nofun nofun hFailed.atMostOne, Program.meets_ite
        (fun hFail => .of_failed hFailed.atMostOne (hLast _ _) hFail) fun hNot =>
        absurd (show (-1 : Int) < 0 by decide) hNot⟩
  · have hFailed : opened.AtMostOne := hOne.of_mine fun fd file h => by rwa [← hElsewhere.mine]
    exact ⟨.of_one nofun nofun hFailed, Program.meets_ite
      (fun hFail => .of_failed hFailed (hLast _ _) hFail) fun hNot =>
      absurd (show (-1 : Int) < 0 by decide) hNot⟩

/-- Closing what was obtained for a variable leaves the other files. A descriptor 0
stays open. -/
theorem closeIfPositive_meets {holder : Holder} {fd : Int} {next : Thread Globals}
    {Post : List Event → Globals → World → Prop} {past : List Event} {w : World} (hOne : w.AtMostOne)
    (hOpen : ∃ file, w.mine fd.toNat = some file ∧ file ≠ .elsewhere ∧ file.ObtainedFor holder)
    (hNext : ∀ past w', w'.AtMostOne →
      (∀ other file, w'.mine other = some file → w.mine other = some file ∧
        (other = fd.toNat → fd ≤ 0)) →
      (∀ other, other ≠ fd.toNat → w'.mine other = w.mine other) →
      next.Meets Allowed GetsThrough Owned Post past w') :
    (closeIfPositive holder fd next).Meets Allowed GetsThrough Owned Post past w := by
  unfold closeIfPositive
  by_cases hFd : fd > 0
  · rw [if_pos hFd]
    intro answer after hAllowed _
    obtain ⟨file, hMine, hFile, hHolder⟩ := hOpen
    have hTable := (mine_eq_some_iff hFile).mp hMine
    have hAt : w.file? fd = some file := by rw [file?_of_nonneg w (by omega), hTable]
    have hAfter : after.mine = Function.update w.mine fd.toNat none := by
      rcases allowed_close hAllowed with hElsewhere | ⟨hNone, -⟩
      · exact hElsewhere.mine_of_set (by simp)
      · rw [hAt] at hNone
        cases hNone
    have hKept (other : Nat) (file : File) (h : after.mine other = some file) :
        other ≠ fd.toNat ∧ w.mine other = some file := by
      rw [hAfter, Function.update_apply] at h
      split at h
      · cases h
      · next hNe => exact ⟨hNe, h⟩
    have hOneAfter := hOne.of_mine fun other file h => (hKept other file h).2
    refine ⟨⟨?_, nofun, hOneAfter⟩, hNext _ _ hOneAfter ?_ ?_⟩
    · rintro _ _ ⟨⟩
      exact ⟨file, hAt, hHolder⟩
    · intro other file h
      exact ⟨(hKept other file h).2, fun hEq => absurd hEq (hKept other file h).1⟩
    · intro other hNe
      rw [hAfter, Function.update_of_ne hNe]
  · rw [if_neg hFd]
    exact hNext past w hOne (fun other file h => ⟨h, fun _ => by omega⟩) fun _ _ => rfl

/-- The way back from a failure closes both sockets and gets new ones. -/
theorem reacceptVerify_meets {g : Globals} {past : List Event} {w : World} (h : Serving past g w) :
    (reacceptVerify g).Meets Allowed GetsThrough Owned AtHead past w := by
  obtain ⟨number, hNew, -⟩ := h.sctVrfNew
  have hNewFor : File.ObtainedFor .sctVrfNew (.connected number) := ⟨number, rfl⟩
  have hVrfFor : File.ObtainedFor .sctVrf .listening := rfl
  apply closeIfPositive_meets h.atMostOne ⟨_, hNew, by simp, hNewFor⟩
  intro past₁ w₁ hOne₁ hKept₁ hSame₁
  have hNe : g.sctVrf.toNat ≠ g.sctVrfNew.toNat := by
    intro hEq
    have hVrf := h.sctVrf
    rw [hEq, hNew] at hVrf
    cases hVrf
  have hVrf : w₁.mine g.sctVrf.toNat = some .listening := by
    rw [hSame₁ _ hNe]
    exact h.sctVrf
  apply closeIfPositive_meets hOne₁ ⟨_, hVrf, by simp, hVrfFor⟩
  intro past₂ w₂ _ hKept₂ _
  rw [Program.meets_bind]
  apply (acceptConnectionVerify_meets g past₂ w₂ ?_).mono
  · rintro past ⟨res, g⟩ w hHead
    exact hHead
  · intro fd file hFd
    obtain ⟨hFd₁, hZeroVrf⟩ := hKept₂ fd file hFd
    obtain ⟨hFd₀, hZeroNew⟩ := hKept₁ fd file hFd₁
    rcases h.only fd file hFd₀ with hEq | hEq
    · have := hZeroVrf hEq
      omega
    · have := hZeroNew hEq
      omega

/-- A pass serves on, or it ends with new sockets. -/
theorem pass_meets {g : Globals} {past : List Event} {w : World} (h : AtHead past g w) :
    (pass g).Meets Allowed GetsThrough Owned AtHead past w := by
  rw [pass_eq]
  intro recording w₁ hAllowed _
  have hRead : AtHead (past ++ [⟨w, .readAndCompress, recording, w₁⟩]) g w₁ :=
    h.next (allowed_quiet hAllowed fun _ h => h).mine rfl
  refine ⟨.of_one nofun nofun hRead.one, ?_⟩
  intro pending w₂ hAllowed _
  have hGetsockopt : AtHead (_ ++ [⟨w₁, .getsockopt g.sctVrfNew, pending, w₂⟩]) g w₂ :=
    hRead.next (allowed_quiet hAllowed fun _ h => h).mine rfl
  refine ⟨.of_one nofun nofun hGetsockopt.one, ?_⟩
  -- Only now does a failure on the way matter.
  intro n w₃ hAllowed hThrough
  have hServing := hGetsockopt.serving.resolve_left fun ⟨u, hMem, hFailed⟩ =>
    hThrough.served _ _ rfl u hMem hFailed
  have hSent : Serving (_ ++ [⟨w₂, .send g.sctVrfNew recording.frame.message, n, w₃⟩]) g w₃ :=
    hServing.next (mine_of_send hAllowed) rfl
  obtain ⟨number, hNew, hLatest⟩ := hServing.sctVrfNew
  have hFile : w₂.file? g.sctVrfNew = some (.connected number) := by
    rw [file?_of_nonneg w₂ hServing.sctVrfNew_nonneg]
    exact mine_eq_connected.mp hNew
  refine ⟨⟨nofun, ?_, hSent.atMostOne⟩, ?_⟩
  · rintro _ _ ⟨⟩
    exact ⟨number, hFile, hLatest⟩
  intro pending w₄ hAllowed _
  have hGetsockopt : Serving (_ ++ [⟨w₃, .getsockopt g.sctVrfNew, pending, w₄⟩]) g w₄ :=
    hSent.next (allowed_quiet hAllowed fun _ h => h).mine rfl
  refine ⟨.of_one nofun nofun hGetsockopt.atMostOne, ?_⟩
  intro noted w₅ hAllowed _
  have hReturned : Serving
      (_ ++ [⟨w₄, .returned (if (n : Int) ≤ 0 then -1 else n), noted, w₅⟩]) g w₅ :=
    hGetsockopt.next (allowed_quiet hAllowed fun _ h => h).mine rfl
  refine ⟨.of_one nofun nofun hReturned.atMostOne, Program.meets_ite (fun _ => ?_) fun _ => ?_⟩
  · exact reacceptVerify_meets (hReturned.prepared recording)
  · exact ⟨hReturned.atMostOne, .inr (hReturned.prepared recording)⟩

end Forward

section Backward

variable {past : List Event} {w w' : World}

/-- A new file does not take the place of the one behind descriptor 0. -/
theorem table_of_lowest {fd : Nat} {old new : File} (hOld : old ≠ .elsewhere)
    (hNew : new ≠ .elsewhere) (hZero : w.table 0 = some old) (hLowest : w.Lowest fd)
    (hMine : w'.mine = Function.update w.mine fd (some new)) :
    fd ≠ 0 ∧ w'.table 0 = some old ∧ w'.table fd = some new := by
  have hNe : fd ≠ 0 := by
    rintro rfl
    rw [hLowest.1] at hZero
    cases hZero
  refine ⟨hNe, ?_, ?_⟩
  · rw [← mine_eq_some_iff hOld, hMine, Function.update_of_ne hNe.symm]
    exact (mine_eq_some_iff hOld).mpr hZero
  · rw [← mine_eq_some_iff hNew, hMine, Function.update_self]

/-- No two listening sockets, so none was left over before. -/
theorem listener_of_owned {answer : Int} (hAllowed : Allowed ⟨w, .socket, answer, w'⟩)
    (hOne : w'.AtMostOne) (hAnswer : ¬ answer < 0) : w.table 0 ≠ some .listening := by
  intro hZero
  rcases allowed_socket hAllowed with ⟨fd, hLowest, -, hElsewhere⟩ | ⟨rfl, -⟩
  · obtain ⟨hNe, hLeft, hNew⟩ := table_of_lowest (by simp) (by simp) hZero hLowest
      (hElsewhere.mine_of_set (by simp))
    exact hNe (hOne.listening fd 0 hNew hLeft)
  · exact hAnswer (by decide)

/-- No two connections, so none was left over before. -/
theorem connection_of_owned {listener answer : Int}
    (hAllowed : Allowed ⟨w, .accept listener, answer, w'⟩) (hOne : w'.AtMostOne)
    (hAnswer : ¬ answer < 0) (number : Nat) : w.table 0 ≠ some (.connected number) := by
  intro hZero
  rcases allowed_accept hAllowed with ⟨fd, hLowest, -, hElsewhere⟩ | ⟨rfl, -⟩
  · obtain ⟨hNe, hLeft, hNew⟩ := table_of_lowest (by simp) (by simp) hZero hLowest
      hElsewhere.mine_of_accept
    exact hNe (hOne.connected fd 0 _ _ hNew hLeft)
  · exact hAnswer (by decide)

/-- No call of `accept_connectionVerify` has failed so far. -/
def Unfailing (past : List Event) : Prop := ∀ u ∈ past, ¬ Failed u

/-- One more call that does not fail. -/
theorem Unfailing.snoc (h : Unfailing past) {e : Event} (hLast : ¬ Failed e) :
    Unfailing (past ++ [e]) := by
  intro u hMem
  rcases List.mem_append.mp hMem with hPast | hSingle
  · exact h u hPast
  · obtain rfl := List.mem_singleton.mp hSingle
    exact hLast

/-- Either everything has got through, or there is no connection to send on. -/
def Decided (past : List Event) : Prop := latest past = none ∨ Unfailing past

/-- The same at the end of a thread, whatever its result is. -/
abbrev Deciding {R : Type} (past : List Event) (_ : R) (_ : World) : Prop := Decided past

/-- One more call that neither fails nor changes the connection. -/
theorem Decided.next (h : Decided past) {e : Event}
    (hLatest : latestStep (latest past) e = latest past) (hLast : ¬ Failed e) :
    Decided (past ++ [e]) := by
  rcases h with hNone | hUnfailing
  · exact .inl (by rw [latest_snoc, hLatest, hNone])
  · exact .inr (hUnfailing.snoc hLast)

/-- Sending is owned only if everything has got through. -/
theorem GetsThrough.of_owned {e : Event} (hAllowed : Allowed e) (hOwned : Owned past e)
    (h : Decided past) : GetsThrough past e := by
  constructor
  · intro fd buffer hSend
    obtain ⟨number, -, hLatest⟩ := hOwned.send fd buffer hSend
    rcases h with hNone | hUnfailing
    · rw [hNone] at hLatest
      cases hLatest
    · exact hUnfailing
  · rcases e with ⟨before, question, answer, after⟩
    rintro ⟨⟩ hOk
    exact listener_of_owned hAllowed hOwned.one hOk
  · rcases e with ⟨before, question, answer, after⟩
    rintro fd ⟨⟩ hOk
    exact connection_of_owned hAllowed hOwned.one hOk

theorem latest_snoc_of_eq {e : Event} {current : Option Nat} (hLatest : latest past = current)
    (hStep : latestStep current e = current) : latest (past ++ [e]) = current := by
  rw [latest_snoc, hLatest, hStep]

/-- After it the connection is one of a thread in which nothing has failed, or there
is none. -/
theorem acceptConnectionVerify_decided (g : Globals) (h : Unfailing past) :
    (acceptConnectionVerify g).Meets Allowed Owned GetsThrough Deciding past w := by
  intro sctVrf opened hAllowed hOwned
  have hSocket : latest (past ++ [⟨w, .socket, sctVrf, opened⟩]) = none := by
    rw [latest_snoc]
    rfl
  refine ⟨.of_owned hAllowed hOwned (.inr h),
    Program.meets_ite (fun _ => .inl hSocket) fun hOk => ?_⟩
  have hOpened := h.snoc (e := ⟨w, .socket, sctVrf, opened⟩) hOk
  intro res bound hAllowed hOwned
  have hBind := latest_snoc_of_eq hSocket (e := ⟨opened, .bind sctVrf, res, bound⟩) rfl
  refine ⟨.of_owned hAllowed hOwned (.inr hOpened),
    Program.meets_ite (fun _ => .inl hBind) fun hOk => ?_⟩
  have hBound := hOpened.snoc (e := ⟨opened, .bind sctVrf, res, bound⟩) hOk
  intro res listening hAllowed hOwned
  have hListen := latest_snoc_of_eq hBind (e := ⟨bound, .listen sctVrf, res, listening⟩) rfl
  refine ⟨.of_owned hAllowed hOwned (.inr hBound),
    Program.meets_ite (fun _ => .inl hListen) fun hOk => ?_⟩
  have hListening := hBound.snoc (e := ⟨bound, .listen sctVrf, res, listening⟩) hOk
  intro sctVrfNew accepted hAllowed hOwned
  have hAccepted (hOk : ¬ (sctVrfNew : Int) < 0) :=
    hListening.snoc (e := ⟨listening, .accept sctVrf, sctVrfNew, accepted⟩) hOk
  refine ⟨.of_owned hAllowed hOwned (.inr hListening),
    Program.meets_ite (fun hFail => .inl ?_) fun hOk => .inr (hAccepted hOk)⟩
  rw [latest_snoc, hListen]
  exact if_pos hFail

/-- Closing does not fail. -/
theorem closeIfPositive_decided {holder : Holder} {fd : Int} {next : Thread Globals}
    (h : Unfailing past)
    (hNext : ∀ past w, Unfailing past →
      next.Meets Allowed Owned GetsThrough Deciding past w) :
    (closeIfPositive holder fd next).Meets Allowed Owned GetsThrough Deciding past w := by
  apply Program.meets_ite
  · intro _ answer after hAllowed hOwned
    have hClosed := h.snoc (e := ⟨w, .close holder fd, answer, after⟩) id
    exact ⟨.of_owned hAllowed hOwned (.inr h), hNext _ _ hClosed⟩
  · intro _
    exact hNext past w h

/-- The way back from a failure of `send` decides as `accept_connectionVerify`
does. -/
theorem reacceptVerify_decided (g : Globals) (h : Unfailing past) :
    (reacceptVerify g).Meets Allowed Owned GetsThrough Deciding past w := by
  apply closeIfPositive_decided h
  intro past₁ w₁ h₁
  apply closeIfPositive_decided h₁
  intro past₂ w₂ h₂
  rw [Program.meets_bind]
  exact acceptConnectionVerify_decided g h₂

/-- A pass that owns its sockets gets through. -/
theorem pass_decided (g : Globals) (h : Decided past) :
    (pass g).Meets Allowed Owned GetsThrough Deciding past w := by
  rw [pass_eq]
  intro recording w₁ hAllowed hOwned
  have hRead : Decided (past ++ [⟨w, .readAndCompress, recording, w₁⟩]) := h.next rfl id
  refine ⟨.of_owned hAllowed hOwned h, ?_⟩
  intro pending w₂ hAllowed hOwned
  have hGetsockopt : Decided (_ ++ [⟨w₁, .getsockopt g.sctVrfNew, pending, w₂⟩]) := hRead.next rfl id
  refine ⟨.of_owned hAllowed hOwned hRead, ?_⟩
  intro n w₃ hAllowed hOwned
  have hThrough := GetsThrough.of_owned hAllowed hOwned hGetsockopt
  have hUnfailing : Unfailing _ := hThrough.served _ _ rfl
  have hSent : Unfailing (_ ++ [⟨w₂, .send g.sctVrfNew recording.frame.message, n, w₃⟩]) :=
    hUnfailing.snoc id
  refine ⟨hThrough, ?_⟩
  intro pending w₄ hAllowed hOwned
  have hGetsockopt : Unfailing (_ ++ [⟨w₃, .getsockopt g.sctVrfNew, pending, w₄⟩]) := hSent.snoc id
  refine ⟨.of_owned hAllowed hOwned (.inr hSent), ?_⟩
  intro noted w₅ hAllowed hOwned
  have hReturned : Unfailing (_ ++ [⟨w₄, .returned (if (n : Int) ≤ 0 then -1 else n), noted, w₅⟩]) :=
    hGetsockopt.snoc id
  exact ⟨.of_owned hAllowed hOwned (.inr hGetsockopt), Program.meets_ite
    (fun _ => reacceptVerify_decided _ hReturned) fun _ => .inr hReturned⟩

end Backward

/-- The sockets are owned throughout a run exactly if nothing is ever sent after
a failure in `accept_connectionVerify`, and descriptor 0 is not in the way. -/
theorem owned_iff {w : World} {events : List Event} {finish : Thread Globals × World}
    (hFresh : w.Fresh) (run : ServerRun w events finish) :
    Throughout Owned events ↔ Throughout GetsThrough events := by
  constructor
  · intro hOwned
    have hStart : thrVerifyServer.Meets Allowed Owned GetsThrough Deciding [] w := by
      rw [thrVerifyServer, Program.meets_bind]
      exact acceptConnectionVerify_decided {} nofun
    exact (Program.ensure_of_run (fun _ g _ h => pass_decided g h) hStart run hOwned).1
  · intro hThrough
    have hStart : thrVerifyServer.Meets Allowed GetsThrough Owned AtHead [] w := by
      rw [thrVerifyServer, Program.meets_bind]
      exact acceptConnectionVerify_meets {} [] w fun fd file h => by simp [hFresh.mine] at h
    exact (Program.ensure_of_run (fun _ _ _ h => pass_meets h) hStart run hThrough).1

/-- A frame is sent to the first connection, and the kernel reports an error. -/
def failing : List Event :=
  [⟨.serving, .readAndCompress, sampleRecording, .serving⟩,
    ⟨.serving, .getsockopt 4, (0 : Int), .serving⟩,
    ⟨.serving, .send 4 sampleRecording.frame.message, (-1 : Int), .serving⟩,
    ⟨.serving, .getsockopt 4, (0 : Int), .serving⟩,
    ⟨.serving, .returned (-1), (), .serving⟩]

/-- The failure of `send` leads to new sockets. -/
theorem failing_run : Runs (Program.Step Allowed pass) (.done .serving, .serving) failing
    (reacceptVerify (Globals.serving.prepared sampleRecording), .serving) := by
  have hRead : Allowed ⟨.serving, .readAndCompress, sampleRecording, .serving⟩ := ⟨_, rfl, .refl _⟩
  have hOption : Allowed ⟨.serving, .getsockopt 4, (0 : Int), .serving⟩ := ⟨_, rfl, .refl _⟩
  have hSend : Allowed ⟨.serving, .send 4 sampleRecording.frame.message, (-1 : Int), .serving⟩ :=
    ⟨_, .inl ⟨rfl, rfl⟩, .refl _⟩
  have hReturned : Allowed ⟨.serving, .returned (-1), (), .serving⟩ := ⟨_, rfl, .refl _⟩
  exact .snoc (.snoc (.snoc (.snoc (.single (.again (pass_eq _) hRead)) (.call hOption))
    (.call hSend)) (.call hOption)) (.call hReturned)

theorem owned_sample : Throughout Owned (connecting ++ failing) ↔
    Throughout GetsThrough (connecting ++ failing) :=
  owned_iff fresh_idle (connecting_run.trans failing_run)

/-- Both descriptors are closed again. -/
def World.closed : World := (World.serving.set 4 none).set 3 none

/-- A new listening socket takes descriptor 3. -/
def World.reopened : World := World.closed.set 3 (some .listening)

theorem lowest_closed : World.closed.Lowest 3 := by
  constructor
  · rfl
  · intro n hn
    have h4 : n ≠ 4 := by omega
    have h3 : n ≠ 3 := by omega
    simp [World.closed, World.serving, World.listening, World.set, World.idle, h3, h4, hn]

/-- The port is still taken, so that `bind` fails. -/
def rebinding : List Event :=
  [⟨.serving, .close .sctVrfNew 4, (0 : Int), World.serving.set 4 none⟩,
    ⟨World.serving.set 4 none, .close .sctVrf 3, (0 : Int), .closed⟩,
    ⟨.closed, .socket, (3 : Int), .reopened⟩,
    ⟨.reopened, .bind 3, (-1 : Int), .reopened⟩]

/-- The failure of `bind` leads back to the loop. -/
theorem rebinding_run : Runs (Program.Step Allowed pass)
    (reacceptVerify (Globals.serving.prepared sampleRecording), .serving) rebinding
    (.done (Globals.serving.prepared sampleRecording), .reopened) := by
  have hCloseNew : Allowed ⟨.serving, .close .sctVrfNew 4, (0 : Int), World.serving.set 4 none⟩ :=
    ⟨_, ⟨rfl, rfl⟩, .refl _⟩
  have hClose : Allowed ⟨World.serving.set 4 none, .close .sctVrf 3, (0 : Int), .closed⟩ :=
    ⟨_, ⟨rfl, rfl⟩, .refl _⟩
  have hSocket : Allowed ⟨.closed, .socket, (3 : Int), .reopened⟩ :=
    ⟨_, .inl ⟨3, lowest_closed, rfl, rfl⟩, .refl _⟩
  have hBind : Allowed ⟨.reopened, .bind 3, (-1 : Int), .reopened⟩ := ⟨_, ⟨.inr rfl, rfl⟩, .refl _⟩
  exact .snoc (.snoc (.snoc (.single (.call hCloseNew)) (.call hClose)) (.call hSocket)) (.call hBind)

/-- The next frame is sent to the number of the closed connection. -/
def staleSending : List Event :=
  [⟨.reopened, .readAndCompress, sampleRecording, .reopened⟩,
    ⟨.reopened, .getsockopt 4, (0 : Int), .reopened⟩,
    ⟨.reopened, .send 4 sampleRecording.frame.message, (-1 : Int), .reopened⟩]

theorem stale_descriptor_used :
    (∃ finish, ServerRun .idle (connecting ++ failing ++ rebinding ++ staleSending) finish) ∧
    ¬ Throughout Owned (connecting ++ failing ++ rebinding ++ staleSending) := by
  constructor
  · have hRead : Allowed ⟨.reopened, .readAndCompress, sampleRecording, .reopened⟩ :=
      ⟨_, rfl, .refl _⟩
    have hOption : Allowed ⟨.reopened, .getsockopt 4, (0 : Int), .reopened⟩ := ⟨_, rfl, .refl _⟩
    have hSend : Allowed ⟨.reopened, .send 4 sampleRecording.frame.message, (-1 : Int), .reopened⟩ :=
      ⟨_, .inl ⟨rfl, rfl⟩, .refl _⟩
    have hStale : Runs (Program.Step Allowed pass)
        (.done (Globals.serving.prepared sampleRecording), .reopened) staleSending _ :=
      .snoc (.snoc (.single (.again (pass_eq _) hRead)) (.call hOption)) (.call hSend)
    exact ⟨_, ((connecting_run.trans failing_run).trans rebinding_run).trans hStale⟩
  · intro hOwned
    obtain ⟨number, hFile, -⟩ := (hOwned (connecting ++ failing ++ rebinding ++
      [⟨.reopened, .readAndCompress, sampleRecording, .reopened⟩,
        ⟨.reopened, .getsockopt 4, (0 : Int), .reopened⟩])
      ⟨.reopened, .send 4 sampleRecording.frame.message, (-1 : Int), .reopened⟩ []
      (by simp [staleSending])).send _ _ rfl
    have hNone : World.reopened.file? 4 = none := rfl
    rw [hNone] at hFile
    cases hFile

end Video

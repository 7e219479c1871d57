import MmDriver.Laws.Test.NetServerRuns

/-!
# The list of clients

A connection that is lost stays in the server's list until the next `recv` starts, but goes back to the
pool at once. An accept in between hands it out again, and then the list has it twice: once for the
client that has come, and once for the one that has gone. Nothing else spoils the list, so in a run
each client is listed once exactly as long as no connection is handed out that is still listed
(`clients_once_iff`).
-/

namespace MmDriver

open ByteMem World

namespace NetServer

/-! ## A scan -/

section Scan

variable {w : ServerWorld NetServer} {cb : ServerCallbacks NetServer}

/-- A turn of the scan leaves the other clients alone. -/
theorem visit_clients (cb : ServerCallbacks NetServer) (ready : Int → Bool)
    (w : ServerWorld NetServer) {i j : Nat} (h : j ≠ i) :
    (ServerWorld.visit cb ready w i).clients j = w.clients j := by
  unfold ServerWorld.visit
  dsimp only
  split
  · rw [ServerWorld.onClient_clients _ _ h, w.fdBit_clients]
  · rw [w.fdBit_clients]

theorem visits_clients (cb : ServerCallbacks NetServer) (ready : Int → Bool)
    (w : ServerWorld NetServer) {ids : List Nat} {j : Nat} (h : j ∉ ids) :
    (ids.foldl (ServerWorld.visit cb ready) w).clients j = w.clients j := by
  induction ids generalizing w with
  | nil => rfl
  | cons i ids ih =>
    obtain ⟨hne, hrest⟩ := List.ne_and_not_mem_of_not_mem_cons h
    exact (ih _ hrest).trans (visit_clients cb ready w hne)

/-- Every client that serves is listed, no client twice; and at its turn in a scan a client is valid,
and as the scan found it. -/
structure ListedOnce (w : ServerWorld NetServer) : Prop where
  nodup : w.server.clientContainer.Nodup
  listed : ∀ i, (w.app.connection i).nStatus ≠ .unused → i ∈ w.server.clientContainer
  scanned : ∀ recvMem sendMem ready before i after,
    w.purge.server.clientContainer = before ++ i :: after →
      (before.foldl (ServerWorld.visit (callbacks recvMem sendMem) ready) w.purge).clients i =
        w.clients i ∧ (w.clients i).socket.valid = true

theorem Wf.listedOnce (h : Wf w) : ListedOnce w ↔ w.server.clientContainer.Nodup := by
  refine ⟨ListedOnce.nodup, fun hnodup => ⟨hnodup, fun i hi => ?_, ?_⟩⟩
  · have hbusy : (w.app.connection i).idle = false := by simp [Connection.idle, hi]
    exact h.listed i hbusy
  · intro recvMem sendMem ready before i after hlist
    obtain ⟨hclients, -, hserver⟩ := w.purge_spec
    have hfilter : w.server.clientContainer.filter (fun i => (w.clients i).socket.valid) =
        before ++ i :: after := by rw [← hlist, hserver]
    have hmem : i ∈ w.server.clientContainer.filter fun i => (w.clients i).socket.valid := by
      rw [hfilter]
      simp
    have hearlier : i ∉ before := by
      have hpart := hnodup.filter fun i => (w.clients i).socket.valid
      rw [hfilter, List.nodup_middle, List.nodup_cons] at hpart
      exact fun hbefore => hpart.1 (List.mem_append_left _ hbefore)
    refine ⟨?_, (List.mem_filter.mp hmem).2⟩
    rw [visits_clients _ _ _ hearlier, hclients]

end Scan

/-! ## Runs -/

/-- The step hands the connection `i` out. -/
inductive HandsOut (w : ServerWorld NetServer) : NetAction → Nat → Prop where
  | accept {recvMem sendMem : Memory} {o : SocketApi.AcceptOutcome} {i : Nat} {p : ConnectionPool}
      (htakes : Takes w o) (hblock : o.setNonBlock = true) (hip : ipCheck o.uIP = true)
      (hidle : w.app.connectionPool.getIdleConnect = (some i, p)) :
      HandsOut w (.accept recvMem sendMem o) i

/-- What the step hands out is not listed any more. -/
def FreshOnly (w : ServerWorld NetServer) (a : NetAction) : Prop :=
  ∀ i, HandsOut w a i → i ∉ w.server.clientContainer

section Runs

variable {w w' : ServerWorld NetServer} {s : NetServer}

theorem nodup_actKeeps : ActKeeps fun w => w.server.clientContainer.Nodup where
  openServer w o _ h := by
    rw [(openServer_app w o).2.2]
    exact h
  recv := by
    refine ⟨fun w fd h => ?_, fun w h => h.filter _, fun w i h => h⟩
    rw [w.fdBit_server]
    exact h
  loginRet w pBuff h := by
    rcases loginRet_cases w pBuff with hsame | ⟨u, i, result, data, size, -, hsent⟩
    · rw [hsame]
      exact h
    · rw [hsent]
      exact h
  mem _ _ h := h

/-- A step that hands nothing out keeps the list, and one that hands out a connection adds it. -/
theorem Wf.nodup_iff (h : Wf w) (hnodup : w.server.clientContainer.Nodup) {a : NetAction}
    (ha : NetServer.act w a = some w') : w'.server.clientContainer.Nodup ↔ FreshOnly w a := by
  have hother : (∀ recvMem sendMem o, a ≠ .accept recvMem sendMem o) →
      (w'.server.clientContainer.Nodup ↔ FreshOnly w a) := by
    intro hne
    refine iff_of_true (nodup_actKeeps.act hnodup (fun recvMem sendMem o heq => ?_) ha) ?_
    · exact absurd heq (hne recvMem sendMem o)
    · rintro i ⟨⟩
      exact absurd rfl (hne _ _ _)
  cases a with
  | openServer o => exact hother fun _ _ _ => NetAction.noConfusion
  | recv o => exact hother fun _ _ _ => NetAction.noConfusion
  | tickHttpMsg turns => exact hother fun _ _ _ => NetAction.noConfusion
  | others mem => exact hother fun _ _ _ => NetAction.noConfusion
  | accept recvMem sendMem o =>
    rw [NetServer.act] at ha
    split at ha
    · obtain rfl := Option.some.inj ha
      have hbit := w.fdBit_server w.server.socketFd
      have happ := w.fdBit_app w.server.socketFd
      have hcases := h.accept_cases recvMem sendMem o
      generalize w.accept (callbacks recvMem sendMem) o = r at hcases ⊢
      cases hcases with
      | deaf hfun =>
        refine iff_of_true hnodup ?_
        rintro i ⟨htakes⟩
        exact absurd (hfun.symm.trans htakes.funOnConnect) Bool.noConfusion
      | waits hwaits =>
        refine iff_of_true (by rw [hbit]; exact hnodup) ?_
        rintro i ⟨htakes⟩
        exact absurd htakes hwaits
      | refused hw' htakes why =>
        subst hw'
        rw [happ] at why
        refine iff_of_true (by dsimp only; rw [hbit]; exact hnodup) ?_
        rintro i ⟨-, hblock, hip, hidle⟩
        rcases why with hno | hno | hno
        · exact absurd (hno.symm.trans hblock) Bool.noConfusion
        · exact absurd (hno.symm.trans hip) Bool.noConfusion
        · rw [hidle] at hno
          cases hno
      | @online w' i p hw' htakes hblock hip hidle =>
        subst hw'
        rw [happ] at hidle
        change ((w.fdBit w.server.socketFd).server.clientContainer ++ [i]).Nodup ↔ _
        rw [hbit, ← List.concat_eq_append, List.nodup_concat]
        constructor
        · rintro ⟨hfresh, -⟩ j ⟨-, -, -, hidle'⟩
          obtain ⟨hij, -⟩ := Prod.mk.inj (hidle.symm.trans hidle')
          obtain rfl := Option.some.inj hij
          exact hfresh
        · exact fun hfresh => ⟨hfresh i ⟨htakes, hblock, hip, hidle⟩, hnodup⟩
    · cases ha

/-- **The list of clients**: in every state of a run the clients that serve are listed once, and each
scan finds them valid, exactly if no step hands out a connection that is still listed. -/
theorem clients_once_iff (hs : Initial s) {as : List NetAction}
    (hrun : ActionSystem.run act (start s) as = some w) (hfew : acceptedCount w ≤ 2 ^ 32) :
    ActionSystem.States act ListedOnce (start s) as ↔
      ActionSystem.Steps act FreshOnly (start s) as := by
  refine ActionSystem.states_iff_steps (J := Wf) (Q := fun w => acceptedCount w ≤ 2 ^ 32)
    (fun w a w' ha hq => Nat.le_trans (act_acceptedCount ha) hq) ?_ hrun hfew hs.wf
    (hs.wf.listedOnce.mpr List.nodup_nil)
  intro w a w' hw hq ha
  have hnext := hw.act ha hq
  refine ⟨hnext, fun hlisted => ?_⟩
  rw [hnext.listedOnce]
  exact hw.nodup_iff hlisted.nodup ha

/-- The visitor goes, and before the list is looked at again another one comes. -/
def revisited : List NetAction :=
  [listens, .accept (fun _ => 0) (fun _ => 0) visitor, .recv ⟨1, fun _ => true⟩,
    .accept (fun _ => 0) (fun _ => 0) visitor]

/-- Its connection is handed out again while it is listed. -/
theorem clients_once_iff_revisited :
    ¬ActionSystem.Steps act FreshOnly (start quietService) revisited := by
  have hlist : (ActionSystem.run act (start quietService) revisited).map
      (fun w => w.server.clientContainer) = some [0, 0] := by decide +kernel
  obtain ⟨w, hw, hzero⟩ := Option.map_eq_some_iff.mp hlist
  have hcount : (ActionSystem.run act (start quietService) revisited).map acceptedCount = some 2 := by
    decide +kernel
  have hfew : acceptedCount w ≤ 2 ^ 32 := by
    rw [hw] at hcount
    rw [Option.some.inj hcount]
    decide
  have hs : Initial quietService := init_initial _ _ _ _
  intro hsteps
  have hnodup := (((clients_once_iff hs hw hfew).mpr hsteps).last hw).nodup
  rw [hzero] at hnodup
  exact absurd hnodup (by decide)

end Runs

end NetServer

end MmDriver

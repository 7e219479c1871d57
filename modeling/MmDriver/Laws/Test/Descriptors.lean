import Mathlib.Algebra.BigOperators.Group.Finset.Basic
import MmDriver.Laws.Test.NetServerRuns

/-!
# Whose descriptor it is

The server gets descriptors from the system, closes some of them itself, and hands the others to
connections. So in every state each descriptor it ever got was closed, once for each time that it was
got, or the server listens on it, or one connection that serves holds it.
-/

namespace MmDriver

open ByteMem World

namespace NetServer

/-- The descriptor that the server listens on. -/
def listening (w : ServerWorld NetServer) : List Int :=
  if w.server.socketFd = invalidSocket then [] else [w.server.socketFd]

/-- Every connection closes what it was handed, or holds it; and what the server got it has closed, or
listens on, or has handed to a connection. -/
structure Balanced (w : ServerWorld NetServer) : Prop where
  owned : ∀ i, Owned (w.client i)
  balance : ∃ n, (∀ i ≥ n, (w.clients i).net.opened = []) ∧ ∀ m ≥ n, ∀ fd,
    w.opened.count fd = w.closed.count fd + (listening w).count fd +
      ∑ i ∈ Finset.range m, (w.clients i).net.opened.count fd

section Steps

variable {w w' : ServerWorld NetServer} {i : Nat}

/-- A step of the server that keeps its clients. -/
theorem Balanced.server (h : Balanced w) (hclients : w'.clients = w.clients)
    (hcount : ∀ fd, w'.opened.count fd + w.closed.count fd + (listening w).count fd =
      w.opened.count fd + w'.closed.count fd + (listening w').count fd) : Balanced w' := by
  obtain ⟨n, hunused, hbalance⟩ := h.balance
  refine ⟨fun i => ?_, n, ?_, fun m hm fd => ?_⟩
  · have howned : Owned (w.client i) := h.owned i
    unfold Owned ServerWorld.client at howned ⊢
    rw [hclients]
    exact howned
  · rw [hclients]
    exact hunused
  · have hfd := hbalance m hm fd
    have hsame := hcount fd
    rw [hclients]
    omega

/-- A call on a connection that gets it no descriptor. -/
theorem Balanced.called (h : Balanced w) {v : World NetServer} (howned : Owned v)
    (hopened : v.net.opened = (w.clients i).net.opened) :
    Balanced { w with clients := Function.update w.clients i ⟨v.socket, v.net⟩, app := v.app } := by
  obtain ⟨n, hunused, hbalance⟩ := h.balance
  have hsame : ∀ j, (Function.update w.clients i ⟨v.socket, v.net⟩ j).net.opened =
      (w.clients j).net.opened := by
    intro j
    by_cases hj : j = i
    · rw [hj, Function.update_self]
      exact hopened
    · rw [Function.update_of_ne hj]
  refine ⟨fun j => ?_, n, fun j hj => (hsame j).trans (hunused j hj), fun m hm fd => ?_⟩
  · unfold Owned ServerWorld.client
    dsimp only
    by_cases hj : j = i
    · rw [hj, Function.update_self]
      exact howned
    · rw [Function.update_of_ne hj]
      exact h.owned j
  · simp only [hsame]
    exact hbalance m hm fd

theorem fdBit_opened (w : ServerWorld NetServer) (fd : Int) :
    (w.fdBit fd).opened = w.opened ∧ (w.fdBit fd).closed = w.closed := by
  unfold ServerWorld.fdBit
  split <;> exact ⟨rfl, rfl⟩

theorem Balanced.fdBit (h : Balanced w) (fd : Int) : Balanced (w.fdBit fd) := by
  obtain ⟨hopened, hclosed⟩ := fdBit_opened w fd
  refine h.server (w.fdBit_clients fd) fun fd' => ?_
  rw [hopened, hclosed, listening, listening, w.fdBit_server]

theorem balanced_recvKeeps {cb : ServerCallbacks NetServer} (hcb : cb.client = connectionCallbacks) :
    ServerWorld.RecvKeeps cb Balanced where
  fdBit _ fd h := h.fdBit fd
  purge _ h := h.server rfl fun _ => rfl
  recvEx w i h := by
    have howned : Owned (World.recvEx (connectionCallbacks i) (w.client i)).2 :=
      stable_owned.recvEx ((connectionCallbacks_appOnly i).keeping fun _ _ hw => hw) (h.owned i)
    have hopened : (World.recvEx (connectionCallbacks i) (w.client i)).2.net.opened =
        (w.clients i).net.opened :=
      (stable_opened (w.clients i).net.opened).recvEx
        ((connectionCallbacks_appOnly i).keeping fun _ _ hw => hw) rfl
    rw [hcb]
    exact h.called howned hopened

theorem Balanced.openServer (h : Balanced w) (hclosed : w.validServer = false)
    (o : SocketApi.ListenOutcome) : Balanced (w.openServer o).2 := by
  have hsocket : w.server.socketFd = invalidSocket := by
    simpa [ServerWorld.validServer] using hclosed
  have hnone : listening w = [] := by rw [listening, if_pos hsocket]
  rw [w.openServer_eq]
  split
  · next hinvalid =>
    refine h.server rfl fun fd => ?_
    rw [hnone, listening, if_pos hinvalid]
  · next hvalid =>
    split
    · refine h.server rfl fun fd => ?_
      have hlistens : listening (w.withSocket o.socket) = [o.socket] := by
        rw [listening, if_neg]
        · rfl
        · exact hvalid
      rw [hnone, hlistens, ServerWorld.withSocket, List.count_append]
      simp only [List.count_nil]
      omega
    · refine h.server rfl fun fd => ?_
      have hdeaf : listening (w.withSocket o.socket).closeServer = [] := rfl
      have hback : (w.withSocket o.socket).closeServer.closed = w.closed ++ [o.socket] := if_pos hvalid
      have hgot : (w.withSocket o.socket).closeServer.opened = w.opened ++ [o.socket] := rfl
      rw [hnone, hdeaf, hback, hgot, List.count_append, List.count_append]
      omega

theorem Balanced.loginRet (h : Balanced w) (pBuff : List UInt8) :
    Balanced (handleMsgUserLoginRet w pBuff) := by
  rcases loginRet_cases w pBuff with hsame | ⟨u, i, result, data, size, -, hsent⟩
  · rw [hsame]
    exact h
  · have hlogged : Balanced { w with app := w.app.logged (.used i u (.loginRet result)) } :=
      h.server rfl fun _ => rfl
    rw [hsent]
    refine hlogged.called (stable_owned.sendData ?_ (hlogged.owned i) _ _)
      ((stable_opened (w.clients i).net.opened).sendData ?_ rfl _ _)
    · exact (connectionCallbacks_appOnly i).keeping fun _ _ hw => hw
    · exact (connectionCallbacks_appOnly i).keeping fun _ _ hw => hw

theorem Balanced.goneOnline (h : Balanced w) {recvMem sendMem : Memory} {o : SocketApi.AcceptOutcome}
    (p : ConnectionPool) (hfd : o.fd ≠ invalidSocket)
    (hnew : (w.clients i).socket = ClientSocket.new) :
    Balanced (withOnline recvMem sendMem o w i p) := by
  obtain ⟨n, hunused, hbalance⟩ := h.balance
  have hother : ∀ j ≠ i, (withOnline recvMem sendMem o w i p).clients j = w.clients j :=
    fun j hj => Function.update_of_ne hj _ _
  have hself : ((withOnline recvMem sendMem o w i p).clients i).net.opened =
      (w.clients i).net.opened ++ [o.fd] :=
    congrArg (fun c : Client => c.net.opened) (Function.update_self i _ w.clients)
  refine ⟨fun j => ?_, max n (i + 1), fun j hj => ?_, fun m hm fd => ?_⟩
  · by_cases hj : j = i
    · subst hj
      have hclient : (withOnline recvMem sendMem o w j p).clients j = _ := Function.update_self _ _ _
      have howned := h.owned j
      have hheld : held (acceptedSocket recvMem sendMem o) = [o.fd] := if_neg hfd
      unfold Owned ServerWorld.client at howned ⊢
      rw [hnew, held_new, List.append_nil] at howned
      rw [hclient, hheld]
      exact howned.append_right [o.fd]
    · have howned := h.owned j
      unfold Owned ServerWorld.client at howned ⊢
      rw [hother j hj]
      exact howned
  · rw [hother j (by omega)]
    exact hunused j (by omega)
  · have hi : i ∈ Finset.range m := Finset.mem_range.mpr (by omega)
    have hsum : ∑ j ∈ Finset.range m, ((withOnline recvMem sendMem o w i p).clients j).net.opened.count fd =
        ∑ j ∈ Finset.range m, (w.clients j).net.opened.count fd + [o.fd].count fd := by
      rw [← Finset.add_sum_erase _ _ hi, ← Finset.add_sum_erase _ _ hi, hself, List.count_append]
      have hrest := Finset.sum_congr rfl fun j (hj : j ∈ (Finset.range m).erase i) =>
        congrArg (fun c : Client => c.net.opened.count fd) (hother j (Finset.ne_of_mem_erase hj))
      rw [hrest]
      omega
    have hfd := hbalance m (by omega) fd
    have hopened : (withOnline recvMem sendMem o w i p).opened = w.opened ++ [o.fd] := rfl
    have hsame : listening (withOnline recvMem sendMem o w i p) = listening w := rfl
    have hclosed : (withOnline recvMem sendMem o w i p).closed = w.closed := rfl
    rw [hsum, hopened, hsame, hclosed, List.count_append]
    omega

theorem balanced_actKeeps : ActKeeps Balanced where
  openServer _ o hclosed h := h.openServer hclosed o
  recv := balanced_recvKeeps rfl
  loginRet _ pBuff h := h.loginRet pBuff
  mem _ _ h := h.server rfl fun _ => rfl

/-- A step, with what is known of the connections. -/
theorem Balanced.act (h : Balanced w) (hwf : Wf w) {a : NetAction}
    (ha : NetServer.act w a = some w') : Balanced w' := by
  refine balanced_actKeeps.act h (fun recvMem sendMem o _ heq => ?_) ha
  subst heq
  have hcases := hwf.accept_cases recvMem sendMem o
  generalize w.accept (callbacks recvMem sendMem) o = r at hcases ⊢
  cases hcases with
  | deaf hfun => exact h
  | waits hwaits => exact h.fdBit _
  | refused hw' htakes why =>
    subst hw'
    refine (h.fdBit w.server.socketFd).server rfl fun fd => ?_
    have hsame : ∀ v : ServerWorld NetServer, listening { v with
        opened := v.opened ++ [o.fd], closed := v.closed ++ [o.fd] } = listening v := fun _ => rfl
    rw [hsame, List.count_append, List.count_append]
    omega
  | @online w' i p hw' htakes hblock hip hidle =>
    subst hw'
    have hnew := (hwf.fdBit w.server.socketFd).idle i (getIdleConnect_some hidle).2.1
    exact (h.fdBit w.server.socketFd).goneOnline p htakes.fd hnew

end Steps

section Runs

variable {s : NetServer} {w : ServerWorld NetServer}

/-- What became of the descriptors that the server got: each was closed, by the server or by the
connection that it was handed to, or is listened on, or is held by a connection that serves. -/
structure DescriptorsKept (w : ServerWorld NetServer) : Prop where
  balance : ∃ n, (∀ i ≥ n, (w.clients i).net.closed = [] ∧ held (w.clients i).socket = []) ∧
    ∀ fd, w.opened.count fd = w.closed.count fd + (listening w).count fd + ∑ i ∈ Finset.range n,
      ((w.clients i).net.closed.count fd + (held (w.clients i).socket).count fd)
  idle : ∀ i, (w.app.connection i).nStatus = .unused → held (w.clients i).socket = []

/-- **No descriptor is lost or closed twice**, in any state that a run reaches. -/
theorem descriptors_kept (hs : Initial s) (h : ActionSystem.Reachable act (start s) w)
    (hfew : acceptedCount w ≤ 2 ^ 32) : DescriptorsKept w := by
  have hstart : Wf (start s) ∧ Balanced (start s) := by
    refine ⟨hs.wf, fun _ => List.Perm.refl _, 0, fun _ _ => rfl, fun m _ fd => ?_⟩
    have hnone : ∑ i ∈ Finset.range m, ((start s).clients i).net.opened.count fd = 0 :=
      Finset.sum_eq_zero fun _ _ => rfl
    rw [hnone]
    rfl
  obtain ⟨hwf, hbalanced⟩ := reachable_few (I := fun w => Wf w ∧ Balanced w) hstart
    (fun hw ha hfew' => ⟨hw.1.act ha hfew', hw.2.act hw.1 ha⟩) h hfew
  obtain ⟨n, hunused, hbalance⟩ := hbalanced.balance
  constructor
  · refine ⟨n, fun i hi => ?_, fun fd => ?_⟩
    · have howned := hbalanced.owned i
      unfold Owned ServerWorld.client at howned
      rw [hunused i hi] at howned
      exact List.append_eq_nil_iff.mp howned.nil_eq.symm
    · rw [hbalance n (Nat.le_refl n) fd]
      congr 1
      refine Finset.sum_congr rfl fun i _ => ?_
      rw [← List.count_append]
      exact (hbalanced.owned i).count_eq fd
  · intro i hi
    rw [hwf.idle i (by simp [Connection.idle, hi])]
    exact held_new

theorem descriptors_kept_visited : ∃ w, visited = some w ∧ DescriptorsKept w := by
  obtain ⟨w, hw, hreach, hfew⟩ := visited_reachable
  exact ⟨w, hw, descriptors_kept (init_initial _ _ _ _) hreach hfew⟩

end Runs

end NetServer

end MmDriver

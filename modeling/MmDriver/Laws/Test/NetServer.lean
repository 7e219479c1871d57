import MmDriver.Laws.Network.ServerSocket
import MmDriver.Laws.Test.PeekAgreement
import MmDriver.Lib.ActionSystem
import MmDriver.Test.NetServer

/-!
# Who is online

A connection of the pool is idle and closed, or it serves a client, and then it is online under its
own number, in the list of the server socket, and out in the log (`Wf`). Every step keeps this, as
long as the numbers do not come round.
-/

namespace MmDriver

open ByteMem World

namespace NetServer

/-! ## The pool -/

theorem connection_modify (s : NetServer) {i : Nat} (j : Nat) (f : Connection → Connection)
    (hi : i < s.connectionPool.clientSocketVec.length) :
    (s.modifyConnection i f).connection j = if j = i then f (s.connection i) else s.connection j := by
  simp only [connection, modifyConnection, ConnectionPool.modify, List.getD_eq_getElem?_getD,
    List.getElem?_modify]
  by_cases hj : j = i
  · rw [if_pos hj, hj, List.getElem?_eq_getElem hi]
    simp
  · rw [if_neg hj]
    simp [Ne.symm hj]

/-- A connection that is not idle is in the pool. -/
theorem lt_of_busy {s : NetServer} {i : Nat} (h : (s.connection i).idle = false) :
    i < s.connectionPool.clientSocketVec.length := by
  by_contra hout
  rw [connection, List.getD_eq_getElem?_getD, List.getElem?_eq_none (Nat.le_of_not_lt hout)] at h
  cases h

/-! ## Packets -/

/-- What the packet handlers of the connection `i` change. -/
structure Handled (i : Nat) (s s' : NetServer) : Prop where
  svc : s'.svc = s.svc
  messageDispatcher : s'.messageDispatcher = s.messageDispatcher
  kMCLogin2Http : s'.kMCLogin2Http = s.kMCLogin2Http
  uIDGenerator : s'.uIDGenerator = s.uIDGenerator
  kOnlineUser : s'.kOnlineUser = s.kOnlineUser
  asserted : s'.asserted = s.asserted
  length : s'.connectionPool.clientSocketVec.length = s.connectionPool.clientSocketVec.length
  others : ∀ j, j ≠ i → s'.connection j = s.connection j
  nUID : (s'.connection i).nUID = (s.connection i).nUID
  busy : (s.connection i).idle = false → (s'.connection i).idle = false
  log : ∃ uses : List NetUse, s'.log = s.log ++ uses.map (.used i (s.connection i).nUID)

theorem Handled.refl (i : Nat) (s : NetServer) : Handled i s s :=
  ⟨rfl, rfl, rfl, rfl, rfl, rfl, rfl, fun _ _ => rfl, rfl, id, [], (List.append_nil _).symm⟩

theorem Handled.trans {i : Nat} {s s' s'' : NetServer} (h : Handled i s s') (h' : Handled i s' s'') :
    Handled i s s'' := by
  obtain ⟨uses, huses⟩ := h.log
  obtain ⟨uses', huses'⟩ := h'.log
  refine ⟨h'.svc.trans h.svc, h'.messageDispatcher.trans h.messageDispatcher,
    h'.kMCLogin2Http.trans h.kMCLogin2Http, h'.uIDGenerator.trans h.uIDGenerator,
    h'.kOnlineUser.trans h.kOnlineUser, h'.asserted.trans h.asserted, h'.length.trans h.length,
    fun j hj => (h'.others j hj).trans (h.others j hj), h'.nUID.trans h.nUID,
    fun hbusy => h'.busy (h.busy hbusy), uses ++ uses', ?_⟩
  rw [huses', huses, h.nUID, List.map_append, List.append_assoc]

theorem sendMsgToHttp_handled (i : Nat) (s : NetServer) (pkMessage : Driver.Message) :
    Handled i s (s.sendMsgToHttp pkMessage).2 := by
  unfold sendMsgToHttp
  dsimp only
  split
  · exact ⟨rfl, rfl, rfl, rfl, rfl, rfl, rfl, fun _ _ => rfl, rfl, id, [], (List.append_nil _).symm⟩
  · exact ⟨rfl, rfl, rfl, rfl, rfl, rfl, rfl, fun _ _ => rfl, rfl, id, [], (List.append_nil _).symm⟩

theorem handlePacket_handled (m : Memory) (s : NetServer) (d : NetService.Dispatch)
    (hi : d.pConnect < s.connectionPool.clientSocketVec.length) :
    Handled d.pConnect s (handlePacket m s d) := by
  unfold handlePacket
  cases d.handler with
  | handlePacketDefault => exact .refl _ s
  | handlePacketUserLogin =>
    dsimp only
    unfold handlePacketUserLogin
    cases cgLogin.decode m d.pBuff d.packetHead.usPacketSize with
    | none => exact .refl _ s
    | some ptLogin =>
      dsimp only
      refine Handled.trans ?_ (sendMsgToHttp_handled _ _ _)
      have hself := connection_modify s d.pConnect
        (fun c => { c with nStatus := .verifying, sAccount := ptLogin.account }) hi
      rw [if_pos rfl] at hself
      refine ⟨rfl, rfl, rfl, rfl, rfl, rfl, List.length_modify .., fun j hj => ?_, ?_, fun _ => ?_,
        [.verifying ptLogin.account ptLogin.validateinfo], ?_⟩
      · exact (connection_modify s j _ hi).trans (if_neg hj)
      · have huid := congrArg Connection.nUID hself
        exact huid
      · have hidle := congrArg Connection.idle hself
        exact hidle
      · rw [hself]
        rfl

/-- The packets that `OnRecvMessage` hands on are those of its connection. -/
theorem dispatched_pConnect {svc : NetService} {i : Nat} {m : Memory} {n : Nat}
    {d : NetService.Dispatch} (hd : d ∈ (svc.onRecvMessage (some i) m 0 n).dispatched) :
    d.pConnect = i := by
  have hpeek : ∀ a n, ∀ d ∈ (svc.peekPacket (some i) m a n).dispatched, d.pConnect = i := by
    intro a n d hd
    rw [NetService.peekPacket_decoded] at hd
    split at hd
    · cases hd
    · obtain ⟨h, -, hhead⟩ := Option.map_eq_some_iff.mp hd
      exact (congrArg NetService.Dispatch.pConnect hhead).symm
  have hloop : ∀ t, ∀ d ∈ (svc.recvLoop (some i) m 0 n t).2, d.pConnect = i := by
    intro t
    fun_induction NetService.recvLoop svc (some i) m 0 n t with
    | case1 t r hread rest ih =>
      intro d hd
      rcases List.mem_append.mp hd with h | h
      · exact hpeek _ _ d (Option.mem_toList.mp h)
      · exact ih d h
    | case2 t r hread => exact fun d hd => hpeek _ _ d (Option.mem_toList.mp hd)
  have hresult : ∀ r : Nat × List NetService.Dispatch, (∀ d ∈ r.2, d.pConnect = i) →
      ∀ d ∈ (NetService.RecvResult.mk (TInt32.ofNat r.1) r.2).dispatched, d.pConnect = i :=
    fun r h => h
  rw [NetService.onRecvMessage_def] at hd
  exact hresult _ (hloop 0) d hd

theorem onRecvMessage_snd (s : NetServer) (i : Nat) (m : Memory) (n : Nat) :
    (s.onRecvMessage i m n).2 =
      (s.svc.onRecvMessage (some i) m 0 n).dispatched.foldl (handlePacket m) s := by
  rw [onRecvMessage]

theorem onRecvMessage_handled {s : NetServer} {i : Nat} (m : Memory) (n : Nat)
    (hi : i < s.connectionPool.clientSocketVec.length) :
    Handled i s (s.onRecvMessage i m n).2 := by
  have hall : ∀ (ds : List NetService.Dispatch) (s' : NetServer), Handled i s s' →
      (∀ d ∈ ds, d.pConnect = i) → Handled i s (ds.foldl (handlePacket m) s') := by
    intro ds
    induction ds with
    | nil => exact fun s' h _ => h
    | cons d ds ih =>
      intro s' h hds
      obtain ⟨hd, hrest⟩ := List.forall_mem_cons.mp hds
      have hlt : d.pConnect < s'.connectionPool.clientSocketVec.length := by
        rw [hd, h.length]
        exact hi
      exact ih _ (h.trans (hd ▸ handlePacket_handled m s' d hlt)) hrest
  rw [onRecvMessage_snd]
  exact hall _ s (.refl i s) fun d hd => dispatched_pConnect hd

theorem connectionCallbacks_appOnly (i : Nat) :
    AppOnly (connectionCallbacks i) fun s => s.onDisConnect i :=
  ⟨fun _ => rfl, fun _ _ _ => ⟨_, rfl⟩⟩

/-! ## The invariant -/

/-- The numbers that are given to the first connections. -/
def numbers (n : Nat) : List Nat := (List.range n).map fun k => TUint32.ofNat (k + 1)

/-- A server between two steps. -/
structure Wf (w : ServerWorld NetServer) : Prop where
  idle : ∀ i, (w.app.connection i).idle = true → (w.clients i).socket = ClientSocket.new
  serving : ∀ i, (w.app.connection i).idle = false → Serving (w.clients i).socket
  online : ∀ u i, w.app.kOnlineUser u = some i ↔
    (w.app.connection i).idle = false ∧ (w.app.connection i).nUID = u
  asserted : w.app.asserted = false
  listed : ∀ i, (w.app.connection i).idle = false → i ∈ w.server.clientContainer
  orderly : Slots.Orderly w.app.log
  out : ∀ i, Slots.out w.app.log i =
    if (w.app.connection i).idle then none else some (w.app.connection i).nUID
  keys : Slots.keys w.app.log = numbers (Slots.keys w.app.log).length
  uIDGenerator : w.app.uIDGenerator = TUint32.ofNat ((Slots.keys w.app.log).length + 1)

theorem Wf.out_busy {w : ServerWorld NetServer} (h : Wf w) {i : Nat}
    (hi : (w.app.connection i).idle = false) :
    Slots.out w.app.log i = some (w.app.connection i).nUID := by
  rw [h.out i, hi]
  rfl

/-- A number that was not given out yet. -/
theorem Wf.fresh {w : ServerWorld NetServer} (h : Wf w)
    (hfew : (Slots.keys w.app.log).length < 2 ^ 32) : w.app.uIDGenerator ∉ Slots.keys w.app.log := by
  have hkeys := h.keys
  rw [h.uIDGenerator]
  generalize (Slots.keys w.app.log).length = n at hfew hkeys
  rw [hkeys]
  intro hmem
  obtain ⟨k, hk, heq⟩ := List.mem_map.mp hmem
  have hlt := List.mem_range.mp hk
  unfold TUint32.ofNat at heq
  omega

/-- A number that is online was given out. -/
theorem Wf.online_mem {w : ServerWorld NetServer} (h : Wf w) {u i : Nat}
    (hu : w.app.kOnlineUser u = some i) : u ∈ Slots.keys w.app.log := by
  obtain ⟨hbusy, huid⟩ := (h.online u i).mp hu
  obtain ⟨since, hsince⟩ := Slots.exists_since (huid ▸ h.out_busy hbusy)
  obtain ⟨before, hlog⟩ := hsince.opened
  exact Slots.mem_keys.mpr ⟨i, hlog ▸ List.mem_append_right _ (.head _)⟩

/-- The log goes on with what a connection is used for. -/
theorem orderly_used {log : List (Slots.Event Nat Nat NetUse)} (h : Slots.Orderly log) {i u : Nat}
    (hout : Slots.out log i = some u) (uses : List NetUse) :
    Slots.Orderly (log ++ uses.map (.used i u)) ∧
      Slots.out (log ++ uses.map (.used i u)) = Slots.out log ∧
      Slots.keys (log ++ uses.map (.used i u)) = Slots.keys log := by
  induction uses generalizing log with
  | nil => simpa using h
  | cons use uses ih =>
    have hsame : Slots.out (log ++ [.used i u use]) = Slots.out log := Slots.out_snoc _ _
    have hkeys : Slots.keys (log ++ [.used i u use]) = Slots.keys log := by
      rw [Slots.keys_append]
      exact List.append_nil _
    obtain ⟨horderly, hrest, hkeysRest⟩ := ih (h.snoc (e := .used i u use) hout)
      (hsame ▸ hout)
    rw [List.map_cons, ← List.singleton_append, ← List.append_assoc]
    exact ⟨horderly, hrest.trans hsame, hkeysRest.trans hkeys⟩

section Calls

variable {w : ServerWorld NetServer} {i : Nat}

/-- The packet handlers of a serving connection. -/
theorem Wf.handled (h : Wf w) (hi : (w.app.connection i).idle = false) {a : NetServer}
    (ha : Handled i w.app a) : Wf { w with app := a } := by
  obtain ⟨uses, huses⟩ := ha.log
  have hidle : ∀ j, (a.connection j).idle = (w.app.connection j).idle := by
    intro j
    by_cases hj : j = i
    · rw [hj, ha.busy hi, hi]
    · rw [ha.others j hj]
  have huid : ∀ j, (a.connection j).nUID = (w.app.connection j).nUID := by
    intro j
    by_cases hj : j = i
    · rw [hj, ha.nUID]
    · rw [ha.others j hj]
  obtain ⟨horderly, hout, hkeys⟩ := orderly_used h.orderly (h.out_busy hi) uses
  rw [← huses] at horderly hout hkeys
  constructor
  · exact fun j hj => h.idle j ((hidle j).symm.trans hj)
  · exact fun j hj => h.serving j ((hidle j).symm.trans hj)
  · intro u j
    rw [ha.kOnlineUser, hidle, huid]
    exact h.online u j
  · exact ha.asserted.trans h.asserted
  · exact fun j hj => h.listed j ((hidle j).symm.trans hj)
  · exact horderly
  · intro j
    rw [hidle, huid, hout]
    exact h.out j
  · rw [hkeys]
    exact h.keys
  · rw [hkeys, ha.uIDGenerator]
    exact h.uIDGenerator

/-- A serving connection goes on to serve. -/
theorem Wf.kept (h : Wf w) {c : Client} (hc : Serving c.socket)
    (hi : (w.app.connection i).idle = false) :
    Wf { w with clients := Function.update w.clients i c } := by
  refine ⟨fun j hj => ?_, fun j hj => ?_, h.online, h.asserted, h.listed, h.orderly, h.out, h.keys,
    h.uIDGenerator⟩
  · have hne : j ≠ i := by
      rintro rfl
      exact absurd (hj.symm.trans hi) (by decide)
    dsimp only
    rw [Function.update_of_ne hne]
    exact h.idle j hj
  · by_cases hne : j = i
    · subst hne
      dsimp only
      rw [Function.update_self]
      exact hc
    · dsimp only
      rw [Function.update_of_ne hne]
      exact h.serving j hj

/-- `OnDisConnect` of a connection that is online. -/
theorem onDisConnect_eq {s : NetServer} {j : Nat}
    (h : s.kOnlineUser (s.connection i).nUID = some j) : s.onDisConnect i = { s with
      kOnlineUser := Function.update s.kOnlineUser (s.connection i).nUID none
      log := s.log ++ [.closed i (s.connection i).nUID]
      connectionPool := s.connectionPool.modify i fun c => { c with nStatus := .unused } } := by
  simp only [onDisConnect, h]
  rfl

theorem onDisConnect_connection {s : NetServer} {j : Nat}
    (h : s.kOnlineUser (s.connection i).nUID = some j) (hi : (s.connection i).idle = false)
    (k : Nat) : (s.onDisConnect i).connection k =
      if k = i then { s.connection i with nStatus := .unused } else s.connection k := by
  rw [onDisConnect_eq h]
  exact connection_modify s k (fun c => { c with nStatus := .unused }) (lt_of_busy hi)

/-- A serving connection is lost. -/
theorem Wf.lost (h : Wf w) {c : Client} (hc : c.socket = ClientSocket.new)
    (hi : (w.app.connection i).idle = false) :
    Wf { w with clients := Function.update w.clients i c, app := w.app.onDisConnect i } := by
  have honline : w.app.kOnlineUser (w.app.connection i).nUID = some i :=
    (h.online _ i).mpr ⟨hi, rfl⟩
  have hleft := onDisConnect_eq honline
  have hconn := onDisConnect_connection honline hi
  have hself : ((w.app.onDisConnect i).connection i).idle = true := by
    rw [hconn, if_pos rfl]
    rfl
  have hbusy : ∀ j, ((w.app.onDisConnect i).connection j).idle = false →
      j ≠ i ∧ (w.app.connection j).idle = false := by
    intro j hj
    rw [hconn] at hj
    split at hj
    · cases hj
    · next hne => exact ⟨hne, hj⟩
  have hlog : (w.app.onDisConnect i).log = w.app.log ++ [.closed i (w.app.connection i).nUID] := by
    rw [hleft]
  have hkeys : Slots.keys (w.app.onDisConnect i).log = Slots.keys w.app.log := by
    rw [hlog, Slots.keys_append]
    exact List.append_nil _
  constructor
  · intro j hj
    dsimp only at hj ⊢
    by_cases hne : j = i
    · subst hne
      rw [Function.update_self]
      exact hc
    · rw [Function.update_of_ne hne]
      rw [hconn, if_neg hne] at hj
      exact h.idle j hj
  · intro j hj
    obtain ⟨hne, hj⟩ := hbusy j hj
    dsimp only
    rw [Function.update_of_ne hne]
    exact h.serving j hj
  · intro u j
    dsimp only
    have hmap : (w.app.onDisConnect i).kOnlineUser =
        Function.update w.app.kOnlineUser (w.app.connection i).nUID none := by rw [hleft]
    rw [hmap]
    by_cases hu : u = (w.app.connection i).nUID
    · subst hu
      rw [Function.update_self]
      refine iff_of_false (by simp) fun ⟨hj, huid⟩ => ?_
      obtain ⟨hne, hj⟩ := hbusy j hj
      rw [hconn, if_neg hne] at huid
      have hsame := honline.symm.trans ((h.online _ j).mpr ⟨hj, huid⟩)
      exact hne (Option.some.inj hsame).symm
    · rw [Function.update_of_ne hu]
      by_cases hne : j = i
      · subst hne
        refine iff_of_false (fun hj => hu ?_) fun ⟨hj, _⟩ => (hbusy j hj).1 rfl
        exact ((h.online u j).mp hj).2.symm
      · rw [hconn, if_neg hne]
        exact h.online u j
  · have hasserted : (w.app.onDisConnect i).asserted = w.app.asserted := by rw [hleft]
    exact hasserted.trans h.asserted
  · exact fun j hj => h.listed j (hbusy j hj).2
  · dsimp only
    rw [hlog]
    exact h.orderly.snoc (h.out_busy hi)
  · intro j
    dsimp only
    rw [hlog, Slots.out_snoc, Slots.next, hconn]
    by_cases hne : j = i
    · subst hne
      rw [Function.update_self, if_pos rfl]
      rfl
    · rw [Function.update_of_ne hne, if_neg hne]
      exact h.out j
  · dsimp only
    rw [hkeys]
    exact h.keys
  · dsimp only
    rw [hkeys, show (w.app.onDisConnect i).uIDGenerator = w.app.uIDGenerator by rw [hleft]]
    exact h.uIDGenerator

/-- A call on a serving connection, whose handlers have run. -/
theorem Wf.called (h : Wf w) (hi : (w.app.connection i).idle = false) {a : NetServer}
    (ha : Handled i w.app a) {v : World NetServer}
    (hv : KeptOrLost (fun s => s.onDisConnect i) (w.clients i).socket a v) :
    Wf { w with clients := Function.update w.clients i ⟨v.socket, v.net⟩, app := v.app } := by
  have hhandled := h.handled hi ha
  have hbusy := ha.busy hi
  rcases hv with ⟨hserving, -, happ⟩ | ⟨hnew, happ⟩
  · rw [happ]
    exact hhandled.kept (c := ⟨v.socket, v.net⟩) hserving hbusy
  · rw [happ]
    exact hhandled.lost (c := ⟨v.socket, v.net⟩) hnew hbusy

/-- Nothing of it depends on the descriptors. -/
theorem Wf.congr {w' : ServerWorld NetServer} (h : Wf w) (hclients : w'.clients = w.clients)
    (happ : w'.app = w.app) (hlist : w'.server.clientContainer = w.server.clientContainer) :
    Wf w' := by
  constructor
  · rw [hclients, happ]
    exact h.idle
  · rw [hclients, happ]
    exact h.serving
  · rw [happ]
    exact h.online
  · rw [happ]
    exact h.asserted
  · rw [happ, hlist]
    exact h.listed
  · rw [happ]
    exact h.orderly
  · rw [happ]
    exact h.out
  · rw [happ]
    exact h.keys
  · rw [happ]
    exact h.uIDGenerator

/-- Nor on the memory. -/
theorem Wf.mem (h : Wf w) (mem : Memory) : Wf { w with app := { w.app with mem := mem } } :=
  ⟨h.idle, h.serving, h.online, h.asserted, h.listed, h.orderly, h.out, h.keys, h.uIDGenerator⟩

/-- `recv_ex` on an idle connection. -/
theorem Wf.recvEx_idle (h : Wf w) (hidle : (w.app.connection i).idle = true) :
    (w.onClient i (World.recvEx (connectionCallbacks i))).2 = w := by
  have hnone : World.recvEx (connectionCallbacks i) ⟨(w.clients i).socket, (w.clients i).net, w.app⟩ =
      (false, ⟨(w.clients i).socket, (w.clients i).net, w.app⟩) := by
    rw [World.recvEx, if_pos]
    rw [h.idle i hidle]
    rfl
  rw [ServerWorld.onClient, hnone]
  exact congrArg (fun clients => { w with clients := clients }) (Function.update_eq_self i w.clients)

/-- `recv_ex` on any connection. -/
theorem Wf.recvEx (h : Wf w) (i : Nat) :
    Wf (w.onClient i (World.recvEx (connectionCallbacks i))).2 := by
  cases hidle : (w.app.connection i).idle with
  | true =>
    rw [h.recvEx_idle hidle]
    exact h
  | false =>
    have hlt := lt_of_busy hidle
    obtain ⟨a, ha, hv⟩ := recvEx_serving (connectionCallbacks_appOnly i)
      (w := ⟨(w.clients i).socket, (w.clients i).net, w.app⟩) (h.serving i hidle)
    have hhandled : Handled i w.app a := by
      rcases ha with rfl | rfl
      · exact .refl i w.app
      · exact onRecvMessage_handled _ _ hlt
    exact h.called hidle hhandled hv

end Calls

end NetServer

end MmDriver

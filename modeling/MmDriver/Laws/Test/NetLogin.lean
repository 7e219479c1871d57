import MmDriver.Laws.Network.Outgoing
import MmDriver.Laws.Network.Packet
import MmDriver.Laws.Test.NetExchange

/-!
# The answer to a login

Connections are given out again and again, and an answer may come back when the client that asked is
gone. It is sent to the connection that is online under the number in it, or to none: so it reaches
the client that asked, or nobody.
-/

namespace MmDriver

open ByteMem World

namespace NetServer

section Online

variable {s : NetServer} {w : ServerWorld NetServer}

/-- The numbers that are online are those of the connections that serve, one to one. -/
structure OnlineExact (w : ServerWorld NetServer) : Prop where
  online : ∀ u i, w.app.getUser u = some i ↔ i < w.app.connectionPool.clientSocketVec.length ∧
    (w.app.connection i).nStatus ≠ .unused ∧ (w.app.connection i).nUID = u
  one : ∀ i j, (w.app.connection i).nStatus ≠ .unused → (w.app.connection j).nStatus ≠ .unused →
    (w.app.connection i).nUID = (w.app.connection j).nUID → i = j
  serving : ∀ i, (w.app.connection i).nStatus ≠ .unused → (w.clients i).socket.valid = true ∧
    (w.clients i).socket.funOnDisConnect = true ∧ i ∈ w.server.clientContainer
  closed : ∀ i, (w.app.connection i).nStatus = .unused → (w.clients i).socket = ClientSocket.new
  asserted : w.app.asserted = false

theorem idle_eq_false (c : Connection) : c.idle = false ↔ c.nStatus ≠ .unused := by
  simp [Connection.idle]

theorem Wf.onlineExact (h : Wf w) : OnlineExact w := by
  have honline : ∀ u i, w.app.kOnlineUser u = some i ↔
      (w.app.connection i).nStatus ≠ .unused ∧ (w.app.connection i).nUID = u := by
    intro u i
    rw [← idle_eq_false]
    exact h.online u i
  constructor
  · intro u i
    refine (honline u i).trans ⟨fun hi => ⟨lt_of_busy ((idle_eq_false _).mpr hi.1), hi⟩, And.right⟩
  · intro i j hi hj huid
    have hsame := ((honline _ i).mpr ⟨hi, rfl⟩).symm.trans ((honline _ j).mpr ⟨hj, huid.symm⟩)
    exact Option.some.inj hsame
  · intro i hi
    have hbusy := (idle_eq_false _).mpr hi
    exact ⟨(h.serving i hbusy).valid, (h.serving i hbusy).onDisConnect, h.listed i hbusy⟩
  · exact fun i hi => h.idle i (by simp [Connection.idle, hi])
  · exact h.asserted

/-- **Who is online**: in every state that a run reaches, as long as no number was given out twice. The
assertion of `OnDisConnect` has never failed. -/
theorem online_exact (hs : Initial s) (h : ActionSystem.Reachable act (start s) w)
    (hfew : acceptedCount w ≤ 2 ^ 32) : OnlineExact w := (reachable_wf hs h hfew).onlineExact

/-- The first connection is online again, under the third number. -/
theorem online_exact_visited : ∃ w, visited = some w ∧
    [w.app.getUser 1, w.app.getUser 2, w.app.getUser 3] = [none, some 1, some 0] ∧
    OnlineExact w := by
  have husers : visited.map (fun w => [w.app.getUser 1, w.app.getUser 2, w.app.getUser 3]) =
      some [none, some 1, some 0] := by decide +kernel
  obtain ⟨w, hw, hreach, hfew⟩ := visited_reachable
  refine ⟨w, hw, ?_, online_exact (init_initial _ _ _ _) hreach hfew⟩
  rw [hw] at husers
  exact Option.some.inj husers

end Online

/-! ## Who gets an answer -/

section Answer

variable {s : NetServer} {w : ServerWorld NetServer}

/-- The packet that carries an answer. -/
def answerFrame (result : Int32) : List UInt8 :=
  (PacketEncoder.headOf 2 (gcLogin.serialize ⟨result⟩).length).bytes ++ gcLogin.serialize ⟨result⟩

/-- An answer has no more than a tag and ten bytes. -/
theorem length_answer (result : Int32) : (gcLogin.serialize ⟨result⟩).length ≤ 11 := by
  have hvalue : ∀ n : UInt64, (Varint.encode n.toNat).length ≤ 10 := by
    intro n
    have hlog : Nat.log2 n.toNat < 64 := by
      by_cases hzero : n.toNat = 0
      · rw [hzero]
        decide
      · exact (Nat.log2_lt hzero).mpr n.toNat_lt
    rw [Varint.length_encode]
    omega
  have hone : gcLogin.serialize ⟨result⟩ =
      ProtoField.write ⟨1, .int32, GcLogin.result, fun v _ => ⟨v⟩⟩ ⟨result⟩ := List.append_nil _
  rw [hone, ProtoField.write]
  split
  · exact Nat.zero_le _
  · rw [List.length_append]
    have htag : (Varint.encode
        (ProtoField.tag ⟨1, .int32, GcLogin.result, fun v _ => ⟨v⟩⟩)).length = 1 := by
      rw [Varint.encode_of_lt (by decide)]
      rfl
    have hten := hvalue result.toInt64.toUInt64
    rw [htag]
    exact Nat.add_le_add_left hten 1

theorem encode_answer (result : Int32) : ∃ e,
    (PacketEncoder.mk (fun _ => 0) 0).encode (pLoginRet (gcLogin.toProto ⟨result⟩)) = (true, e) ∧
      e.frame = answerFrame result := by
  have hlen := length_answer result
  have hcarries : (pLoginRet (gcLogin.toProto ⟨result⟩)).Carries (gcLogin.serialize ⟨result⟩) := by
    refine ⟨rfl, fun m a n _ => ?_⟩
    simp only [pLoginRet, protoPacket, ProtoMessage.serializePartialToArray, Int.lt_irrefl, if_false,
      Bool.true_eq_false]
    rfl
  obtain ⟨htrue, hframe⟩ := (PacketEncoder.mk (fun _ => 0) 0).encode_frame hcarries (by omega)
  exact ⟨_, Prod.ext htrue rfl, hframe⟩

/-- The answer that is sent on the connection `i`. -/
def answerTo (i : Nat) : Slots.Event Nat Nat NetUse → Option Int32
  | .used j _ (.loginRet result) => if j = i then some result else none
  | .used _ _ (.verifying _ _) => none
  | .opened _ _ => none
  | .closed _ _ => none

/-- What the peer of a connection has got, and what waits for it: the answers since the connection was
given out, each whole and in order, less those that found no room. -/
def Answered (w : ServerWorld NetServer) (i : Nat) : Prop :=
  ∃ since, ∃ answers : List Int32, Slots.Since w.app.log i (w.app.connection i).nUID since ∧
    answers.Sublist (since.filterMap (answerTo i)) ∧
    Outgoing maxS2cPkgSize (w.clients i).socket (w.clients i).net (answers.flatMap answerFrame)

/-- A step that does not move a connection, and sends nothing on it. -/
theorem Answered.next {w' : ServerWorld NetServer} {i : Nat} (h : Answered w i)
    {more : List (Slots.Event Nat Nat NetUse)} (hlog : w'.app.log = w.app.log ++ more)
    (hmore : ∀ e ∈ more, ¬e.Moves i)
    (huid : (w'.app.connection i).nUID = (w.app.connection i).nUID)
    (hsame : SameSend (w.client i) (w'.client i)) : Answered w' i := by
  obtain ⟨since, answers, hsince, hanswers, hout⟩ := h
  refine ⟨since ++ more, answers, ?_, ?_, hsame.outgoing hout⟩
  · rw [hlog, huid]
    exact hsince.append hmore
  · rw [List.filterMap_append]
    exact hanswers.trans (List.sublist_append_left _ _)

/-- The connections that serve, with what their peers get. -/
structure Answers (w : ServerWorld NetServer) : Prop extends Wf w where
  answered : ∀ i, (w.app.connection i).idle = false → Answered w i

section Calls

variable {w : ServerWorld NetServer} {i : Nat}

theorem stays_used {i j u : Nat} {uses : List NetUse} :
    ∀ e ∈ uses.map (Slots.Event.used i u), ¬e.Moves j := by
  intro e he
  obtain ⟨use, -, rfl⟩ := List.mem_map.mp he
  exact id

/-- The packet handlers of a connection answer nobody. -/
theorem Answers.handled (h : Answers w) (hi : (w.app.connection i).idle = false) {a : NetServer}
    (ha : Handled i w.app a) : Answers { w with app := a } := by
  obtain ⟨uses, huses⟩ := ha.log
  refine ⟨h.toWf.handled hi ha, fun j hj => ?_⟩
  have hbusy : (w.app.connection j).idle = false ∧ (a.connection j).nUID = (w.app.connection j).nUID := by
    by_cases hne : j = i
    · subst hne
      exact ⟨hi, ha.nUID⟩
    · have hsame := ha.others j hne
      exact ⟨hsame ▸ hj, congrArg Connection.nUID hsame⟩
  exact (h.answered j hbusy.1).next huses stays_used hbusy.2 ⟨rfl, rfl, rfl, rfl, rfl⟩

/-- A connection goes on to serve, with what it sends. -/
theorem Answers.kept (h : Answers w) {c : Client} (hc : Serving c.socket)
    (hi : (w.app.connection i).idle = false)
    (hanswered : Answered { w with clients := Function.update w.clients i c } i) :
    Answers { w with clients := Function.update w.clients i c } := by
  refine ⟨h.toWf.kept hc hi, fun j hj => ?_⟩
  by_cases hne : j = i
  · exact hne ▸ hanswered
  · exact (h.answered j hj).next (List.append_nil _).symm (List.forall_mem_nil _) rfl
      (.of_clients (Function.update_of_ne hne _ _))

/-- A connection is lost. -/
theorem Answers.lost (h : Answers w) {c : Client} (hc : c.socket = ClientSocket.new)
    (hi : (w.app.connection i).idle = false) :
    Answers { w with clients := Function.update w.clients i c, app := w.app.onDisConnect i } := by
  have honline : w.app.kOnlineUser (w.app.connection i).nUID = some i :=
    (h.online _ i).mpr ⟨hi, rfl⟩
  have hconn := onDisConnect_connection honline hi
  refine ⟨h.toWf.lost hc hi, fun j hj => ?_⟩
  change ((w.app.onDisConnect i).connection j).idle = false at hj
  rw [hconn] at hj
  split at hj
  · cases hj
  · next hne =>
    have hlog : (w.app.onDisConnect i).log = w.app.log ++ [.closed i (w.app.connection i).nUID] := by
      rw [onDisConnect_eq honline]
    refine (h.answered j hj).next hlog (List.forall_mem_singleton.mpr (Ne.symm hne)) ?_
      (.of_clients (Function.update_of_ne hne _ _))
    rw [hconn, if_neg hne]

/-- A call on a serving connection, whose handlers have run: the connection is lost, or what it sends
is answers. -/
theorem Answers.called (h : Answers w) (hi : (w.app.connection i).idle = false) {v : World NetServer}
    {a : NetServer} (ha : Handled i w.app a)
    (hv : KeptOrLost (fun s => s.onDisConnect i) (w.clients i).socket a v)
    (hanswered : v.socket ≠ ClientSocket.new → Answered { w with
      clients := Function.update w.clients i ⟨v.socket, v.net⟩, app := a } i) :
    Answers { w with clients := Function.update w.clients i ⟨v.socket, v.net⟩, app := v.app } := by
  have hhandled := h.handled hi ha
  have hbusy := ha.busy hi
  rcases hv with ⟨hserving, -, happ⟩ | ⟨hnew, happ⟩
  · rw [happ]
    exact hhandled.kept (c := ⟨v.socket, v.net⟩) hserving hbusy (hanswered hserving.ne_new)
  · rw [happ]
    exact hhandled.lost (c := ⟨v.socket, v.net⟩) hnew hbusy

/-- `recv_ex` on any connection. -/
theorem Answers.recvEx (h : Answers w) (i : Nat) :
    Answers (w.onClient i (World.recvEx (connectionCallbacks i))).2 := by
  cases hidle : (w.app.connection i).idle with
  | true =>
    rw [h.toWf.recvEx_idle hidle]
    exact h
  | false =>
    have hserving := h.serving i hidle
    obtain ⟨a, ha, hv⟩ := recvEx_serving (connectionCallbacks_appOnly i) (w := w.client i) hserving
    have hsend := recvEx_sameSend (connectionCallbacks_appOnly i) (w := w.client i) hserving
    have hhandled : Handled i w.app a := by
      rcases ha with rfl | rfl
      · exact .refl i w.app
      · exact onRecvMessage_handled _ _ (lt_of_busy hidle)
    refine h.called hidle hhandled hv fun hkept => ?_
    have hsame := hsend.resolve_right hkept
    exact ((h.handled hidle hhandled).answered i (hhandled.busy hidle)).next (List.append_nil _).symm
      (List.forall_mem_nil _) rfl (hsame.client rfl (Function.update_self _ _ _))

/-- Nothing of it depends on the descriptors. -/
theorem Answers.congr {w' : ServerWorld NetServer} (h : Answers w) (hclients : w'.clients = w.clients)
    (happ : w'.app = w.app) (hlist : w'.server.clientContainer = w.server.clientContainer) :
    Answers w' := by
  refine ⟨h.toWf.congr hclients happ hlist, fun i hi => ?_⟩
  rw [happ] at hi
  refine (h.answered i hi).next ?_ (List.forall_mem_nil _) ?_ (.of_clients (by rw [hclients]))
  · rw [happ, List.append_nil]
  · rw [happ]

theorem Answers.mem (h : Answers w) (mem : Memory) :
    Answers { w with app := { w.app with mem := mem } } :=
  ⟨h.toWf.mem mem, fun i hi => (h.answered i hi).next (List.append_nil _).symm
    (List.forall_mem_nil _) rfl (.of_clients rfl)⟩

theorem Answers.fdBit (h : Answers w) (fd : Int) : Answers (w.fdBit fd) :=
  h.congr (w.fdBit_clients fd) (w.fdBit_app fd) (congrArg _ (w.fdBit_server fd))

theorem answers_recvKeeps {cb : ServerCallbacks NetServer} (hcb : cb.client = connectionCallbacks) :
    ServerWorld.RecvKeeps cb Answers where
  fdBit _ fd h := h.fdBit fd
  purge _ h := ⟨h.toWf.purge, fun i hi => (h.answered i hi).next (List.append_nil _).symm
    (List.forall_mem_nil _) rfl (.of_clients rfl)⟩
  recvEx _ i h := hcb ▸ h.recvEx i

/-- A connection that goes online has been answered nothing. -/
theorem Answers.goneOnline (h : Answers w) {recvMem sendMem : Memory} {o : SocketApi.AcceptOutcome}
    {p : ConnectionPool} (hp : w.app.connectionPool.getIdleConnect = (some i, p))
    (hwf : Wf (withOnline recvMem sendMem o w i p)) :
    Answers (withOnline recvMem sendMem o w i p) := by
  have hconn := goneOnline_connection hp
  refine ⟨hwf, fun j hj => ?_⟩
  change ((w.app.goneOnline p i).connection j).idle = false at hj
  rw [hconn] at hj
  split at hj
  · next heq =>
    subst heq
    have huid : ((w.app.goneOnline p j).connection j).nUID = w.app.uIDGenerator := by
      rw [hconn, if_pos rfl]
    have hsocket : (withOnline recvMem sendMem o w j p).clients j = _ := Function.update_self _ _ _
    refine ⟨[], [], ?_, List.Sublist.slnil, [], ?_, ?_⟩
    · change Slots.Since (w.app.log ++ [_]) j ((w.app.goneOnline p j).connection j).nUID []
      rw [huid]
      exact .snoc _ _ _
    · rw [hsocket]
      exact ⟨rfl, rfl, Nat.le_refl _, Nat.zero_le _, rfl⟩
    · rw [hsocket]
      rfl
  · next hne =>
    have huid : ((w.app.goneOnline p i).connection j).nUID = (w.app.connection j).nUID := by
      rw [hconn, if_neg hne]
    have hlog : (w.app.goneOnline p i).log = w.app.log ++ [.opened i w.app.uIDGenerator] := rfl
    exact (h.answered j hj).next hlog (List.forall_mem_singleton.mpr (Ne.symm hne)) huid
      (.of_clients (Function.update_of_ne hne _ _))

/-- Trying to accept. -/
theorem Answers.accept (h : Answers w) {recvMem sendMem : Memory} {o : SocketApi.AcceptOutcome}
    (hfew : (Slots.keys (w.accept (callbacks recvMem sendMem) o).2.app.log).length ≤ 2 ^ 32) :
    Answers (w.accept (callbacks recvMem sendMem) o).2 := by
  have hwf := h.toWf.accept hfew
  have hbit := h.fdBit w.server.socketFd
  have hcases := h.toWf.accept_cases recvMem sendMem o
  generalize w.accept (callbacks recvMem sendMem) o = r at hcases hwf ⊢
  cases hcases with
  | deaf hfun => exact h
  | waits hwaits => exact hbit
  | refused hw' htakes why =>
    subst hw'
    exact hbit.congr rfl rfl rfl
  | @online w' i p hw' htakes hblock hip hidle =>
    subst hw'
    exact hbit.goneOnline hidle hwf

/-- An answer is sent whole, or it finds no room, or the connection is lost. -/
theorem Answers.sent (h : Answers w) (hi : (w.app.connection i).idle = false) (u : Nat)
    {e : PacketEncoder} {result : Int32} (hframe : e.frame = answerFrame result) :
    let a := w.app.logged (.used i u (.loginRet result))
    let v := (World.sendData (connectionCallbacks i) ⟨(w.clients i).socket, (w.clients i).net, a⟩
      (some e.szBuf) e.usSize).2
    v.socket ≠ ClientSocket.new → Answered { w with
      clients := Function.update w.clients i ⟨v.socket, v.net⟩, app := a } i := by
  intro a v hkept
  obtain ⟨since, answers, hsince, hanswers, hout⟩ := h.answered i hi
  have hsize : e.usSize = 4 + (gcLogin.serialize ⟨result⟩).length := by
    rw [← slice_length e.szBuf 0 e.usSize, ← PacketEncoder.frame, hframe, answerFrame, List.length_append]
    rfl
  have hlen := length_answer result
  have hpos : 0 < e.usSize := by omega
  have hroom : e.usSize ≤ maxS2cPkgSize :=
    Nat.le_trans (by omega) (by decide : 15 ≤ maxS2cPkgSize)
  have hsent := Outgoing.sendData (connectionCallbacks_appOnly i) (by decide)
    (w := ⟨(w.clients i).socket, (w.clients i).net, a⟩) (h.serving i hi) hout e.szBuf
    hpos hroom
  have hnext : Slots.Since a.log i (a.connection i).nUID (since ++ [.used i u (.loginRet result)]) :=
    hsince.append (List.forall_mem_singleton.mpr id)
  have hgiven : (since ++ [Slots.Event.used i u (NetUse.loginRet result)]).filterMap (answerTo i) =
      since.filterMap (answerTo i) ++ [result] := by
    rw [List.filterMap_append]
    simp [answerTo]
  have hclient : Function.update w.clients i ⟨v.socket, v.net⟩ i = ⟨v.socket, v.net⟩ :=
    Function.update_self _ _ _
  have hout' := hsent.resolve_left hkept
  unfold Answered
  dsimp only
  rw [hclient]
  split at hout'
  · refine ⟨_, answers ++ [result], hnext, ?_, ?_⟩
    · rw [hgiven]
      exact hanswers.append (List.Sublist.refl _)
    · rw [show slice e.szBuf 0 e.usSize = answerFrame result from hframe] at hout'
      rw [List.flatMap_append, List.flatMap_singleton]
      exact hout'
  · refine ⟨_, answers, hnext, ?_, ?_⟩
    · rw [hgiven]
      exact hanswers.trans (List.sublist_append_left _ _)
    · rw [List.append_nil] at hout'
      exact hout'

/-- The answer to a login is sent to the connection that is online under its number. -/
theorem Answers.loginRet (h : Answers w) (pBuff : List UInt8) :
    Answers (handleMsgUserLoginRet w pBuff) := by
  unfold handleMsgUserLoginRet
  cases hnRetLogin.parseFromArray pBuff with
  | none => exact h
  | some msgRetLogin =>
    dsimp only
    cases huser : w.app.getUser msgRetLogin.uid.toNat with
    | none => exact h
    | some pUser =>
      obtain ⟨e, hencode, hframe⟩ := encode_answer msgRetLogin.result
      obtain ⟨hbusy, huid⟩ := (h.online _ pUser).mp huser
      dsimp only
      rw [hencode, if_neg Bool.noConfusion]
      exact h.called hbusy (loginRet_handled huid msgRetLogin.result)
        (sendData_serving (connectionCallbacks_appOnly pUser) (h.serving pUser hbusy) _ _)
        (h.sent hbusy _ hframe)

theorem answers_actKeeps : ActKeeps Answers where
  openServer w o _ h := by
    obtain ⟨happ, hclients, hlist⟩ := openServer_app w o
    exact h.congr hclients happ hlist
  recv := answers_recvKeeps rfl
  loginRet _ pBuff h := h.loginRet pBuff
  mem _ mem h := h.mem mem

theorem Answers.act (h : Answers w) {w' : ServerWorld NetServer} {a : NetAction}
    (ha : act w a = some w') (hfew : acceptedCount w' ≤ 2 ^ 32) : Answers w' := by
  refine answers_actKeeps.act h (fun recvMem sendMem o _ heq => ?_) ha
  subst heq
  exact h.accept hfew

theorem Initial.answers {s : NetServer} (hs : Initial s) : Answers (start s) := by
  refine ⟨hs.wf, fun i hi => absurd hi ?_⟩
  have hnew : s.connection i = Connection.new := by
    rw [connection, hs.pool]
    rfl
  change (s.connection i).idle ≠ false
  rw [hnew]
  decide

end Calls

end Answer

end NetServer

end MmDriver

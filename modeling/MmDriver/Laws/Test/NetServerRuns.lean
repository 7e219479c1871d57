import MmDriver.Laws.Test.NetServer

/-!
# A server runs

Every step of a server keeps `Wf`, as long as no number was given out twice (`Wf.act`), and the log
only grows. So the numbers that are online are those of the connections that serve, in every state
that is reached, and the assertion of `OnDisConnect` never fails.
-/

namespace MmDriver

open ByteMem World

namespace NetServer

/-! ## Looking at the clients -/

section Recv

variable {w : ServerWorld NetServer} {cb : ServerCallbacks NetServer}

theorem Wf.fdBit (h : Wf w) (fd : Int) : Wf (w.fdBit fd) :=
  h.congr (w.fdBit_clients fd) (w.fdBit_app fd) (congrArg _ (w.fdBit_server fd))

/-- The clients that serve stay in the list. -/
theorem Wf.purge (h : Wf w) : Wf { w with server := { w.server with
    clientContainer := w.server.clientContainer.filter fun i => (w.clients i).socket.valid } } := by
  refine ⟨h.idle, h.serving, h.online, h.asserted, fun i hi => ?_, h.orderly, h.out, h.keys,
    h.uIDGenerator⟩
  exact List.mem_filter.mpr ⟨h.listed i hi, (h.serving i hi).valid⟩

theorem wf_recvKeeps (hcb : cb.client = connectionCallbacks) : ServerWorld.RecvKeeps cb Wf :=
  ⟨fun _ fd h => h.fdBit fd, fun _ h => h.purge, fun _ i h => hcb ▸ h.recvEx i⟩

end Recv

/-! ## Accepting -/

/-- What `get_idle_connect` gives: an idle connection of the pool, which may have got one more. -/
theorem getIdleConnect_some {p p' : ConnectionPool} {i : Nat}
    (h : p.getIdleConnect = (some i, p')) :
    i < p'.clientSocketVec.length ∧ (p.clientSocketVec.getD i Connection.new).idle = true ∧
      ∀ j, p'.clientSocketVec.getD j Connection.new = p.clientSocketVec.getD j Connection.new := by
  unfold ConnectionPool.getIdleConnect at h
  split at h
  · next i' hfirst =>
    obtain ⟨hi, rfl⟩ := Prod.mk.inj h
    obtain rfl := Option.some.inj hi
    obtain ⟨hlt, hidle, -⟩ := List.findIdx?_eq_some_iff_getElem.mp hfirst
    refine ⟨hlt, ?_, fun _ => rfl⟩
    rw [List.getD_eq_getElem?_getD, List.getElem?_eq_getElem hlt]
    exact hidle
  · split at h
    · cases (Prod.mk.inj h).1
    · obtain ⟨hi, rfl⟩ := Prod.mk.inj h
      obtain rfl := Option.some.inj hi
      refine ⟨by simp, by simp [Connection.new, Connection.idle], fun j => ?_⟩
      simp only [List.getD_eq_getElem?_getD, List.getElem?_append]
      split
      · rfl
      · next hj =>
        rw [List.getElem?_eq_none (Nat.le_of_not_lt hj)]
        cases j - p.clientSocketVec.length with
        | zero => rfl
        | succ k => rfl

theorem getIdleConnect_none {p p' : ConnectionPool} (h : p.getIdleConnect = (none, p')) :
    p' = p ∧ maxClientConnection ≤ p.clientSocketVec.length := by
  unfold ConnectionPool.getIdleConnect at h
  split at h
  · cases (Prod.mk.inj h).1
  · split at h
    · next hfull => exact ⟨(Prod.mk.inj h).2.symm, hfull⟩
    · cases (Prod.mk.inj h).1

/-- The socket of a connection that was just accepted. -/
def acceptedSocket (recvMem sendMem : Memory) (o : SocketApi.AcceptOutcome) : ClientSocket :=
  { ClientSocket.new with
    socketFd := o.fd
    socketStatus := .connected
    uIP := o.uIP
    usPort := o.usPort
    nRecvBufSize := maxC2sPkgSize
    recvBuffer := some recvMem
    nSendBufSize := maxS2cPkgSize
    sendBuffer := some sendMem
    funOnDisConnect := true
    funOnRecvMessage := true }

/-- The service behind a new connection. -/
def goneOnline (s : NetServer) (p : ConnectionPool) (i : Nat) : NetServer :=
  let s' := { s with connectionPool := p }.modifyConnection i fun c =>
    { c with nStatus := .connected, nUID := s.uIDGenerator }
  { s' with
    uIDGenerator := TUint32.ofNat (s.uIDGenerator + 1)
    kOnlineUser := match s.kOnlineUser s.uIDGenerator with
      | some _ => s.kOnlineUser
      | none => Function.update s.kOnlineUser s.uIDGenerator (some i)
    log := s.log ++ [.opened i s.uIDGenerator] }

/-- The server with a new connection in the place `i`. -/
def withOnline (recvMem sendMem : Memory) (o : SocketApi.AcceptOutcome) (w : ServerWorld NetServer)
    (i : Nat) (p : ConnectionPool) : ServerWorld NetServer :=
  { w with
    clients := Function.update w.clients i ⟨acceptedSocket recvMem sendMem o,
      { (w.clients i).net with
        recvs := o.recvs, sends := o.sends, sent := [], opened := (w.clients i).net.opened ++ [o.fd] }⟩
    server := { w.server with clientContainer := w.server.clientContainer ++ [i] }
    opened := w.opened ++ [o.fd]
    app := goneOnline w.app p i }

/-- The server takes a connection from the system: it has its callback, and the calls succeed. -/
structure Takes (w : ServerWorld NetServer) (o : SocketApi.AcceptOutcome) : Prop where
  funOnConnect : w.server.funOnConnect = true
  select : o.select ≠ SocketApi.socketError
  isSet : o.isSet = true
  fd : o.fd ≠ invalidSocket

/-- What `accept` leaves: nobody is called, nobody is there, a descriptor is closed again, or an idle
connection gets it. -/
inductive Accepts (recvMem sendMem : Memory) (o : SocketApi.AcceptOutcome)
    (w : ServerWorld NetServer) : Bool × ServerWorld NetServer → Prop where
  | deaf (hfun : w.server.funOnConnect = false) : Accepts recvMem sendMem o w (false, w)
  | waits (hwaits : ¬Takes w o) : Accepts recvMem sendMem o w (false, w.fdBit w.server.socketFd)
  | refused {w' : ServerWorld NetServer} (hw' : w' = w.fdBit w.server.socketFd) (htakes : Takes w o)
      (why : o.setNonBlock = false ∨ ipCheck o.uIP = false ∨
        w'.app.connectionPool.getIdleConnect.1 = none) :
      Accepts recvMem sendMem o w (false, { w' with
        opened := w'.opened ++ [o.fd], closed := w'.closed ++ [o.fd] })
  | online {w' : ServerWorld NetServer} {i : Nat} {p : ConnectionPool}
      (hw' : w' = w.fdBit w.server.socketFd) (htakes : Takes w o) (hblock : o.setNonBlock = true)
      (hip : ipCheck o.uIP = true) (hidle : w'.app.connectionPool.getIdleConnect = (some i, p)) :
      Accepts recvMem sendMem o w (true, withOnline recvMem sendMem o w' i p)

section Accept

variable {w : ServerWorld NetServer} {recvMem sendMem : Memory} {o : SocketApi.AcceptOutcome}

/-- What becomes of a descriptor. -/
theorem Wf.accepted_cases (h : Wf w) (hfd : o.fd ≠ invalidSocket) (recvMem sendMem : Memory) :
    (w.accepted (callbacks recvMem sendMem) o = (false, { w with closed := w.closed ++ [o.fd] }) ∧
      (ipCheck o.uIP = false ∨ w.app.connectionPool.getIdleConnect.1 = none)) ∨
    ∃ i p, ipCheck o.uIP = true ∧ w.app.connectionPool.getIdleConnect = (some i, p) ∧
      w.accepted (callbacks recvMem sendMem) o =
        (true, { withOnline recvMem sendMem o w i p with opened := w.opened }) := by
  have hconnect : (callbacks recvMem sendMem).onConnect w o.uIP o.usPort =
      onNewConnec recvMem sendMem w o.uIP := rfl
  unfold ServerWorld.accepted
  rw [hconnect, onNewConnec]
  by_cases hip : ipCheck o.uIP = false
  · rw [if_pos hip]
    exact .inl ⟨rfl, .inl hip⟩
  · rw [if_neg hip]
    cases hidle : w.app.connectionPool.getIdleConnect with
    | mk r p =>
      cases r with
      | none =>
        obtain ⟨rfl, hfull⟩ := getIdleConnect_none hidle
        exact .inl ⟨rfl, .inr rfl⟩
      | some i =>
        obtain ⟨-, hconn, -⟩ := getIdleConnect_some hidle
        have hnew : (w.clients i).socket = ClientSocket.new := h.idle i hconn
        have hclosed : World.close ⟨(w.clients i).socket, (w.clients i).net,
            { w.app with connectionPool := p }⟩ =
            ⟨ClientSocket.new, (w.clients i).net, { w.app with connectionPool := p }⟩ := by
          rw [World.close, hnew]
          rfl
        refine .inr ⟨i, p, Bool.eq_true_of_not_eq_false hip, rfl, ?_⟩
        simp only [ServerWorld.onClient, hclosed, Function.update_idem, Function.update_self,
          ClientSocket.setFd, if_neg hfd]
        rfl

/-- Every way through `accept`. -/
theorem Wf.accept_cases (h : Wf w) (recvMem sendMem : Memory) (o : SocketApi.AcceptOutcome) :
    Accepts recvMem sendMem o w (w.accept (callbacks recvMem sendMem) o) := by
  have hbit := h.fdBit w.server.socketFd
  unfold ServerWorld.accept
  split
  · next hfun => exact .deaf hfun
  · next hfun =>
    dsimp only
    split
    · next hselect => exact .waits fun htakes => htakes.select hselect
    · next hselect =>
      split
      · next hset =>
        split
        · next hfd => exact .waits fun htakes => htakes.fd hfd
        · next hfd =>
          have htakes : Takes w o := ⟨Bool.eq_true_of_not_eq_false hfun, hselect, hset, hfd⟩
          split
          · next hblock => exact .refused rfl htakes (.inl hblock)
          · next hblock =>
            have hgot : Wf { w.fdBit w.server.socketFd with
                opened := (w.fdBit w.server.socketFd).opened ++ [o.fd] } := hbit.congr rfl rfl rfl
            rcases hgot.accepted_cases hfd recvMem sendMem with ⟨heq, why⟩ | ⟨i, p, hip, hidle, heq⟩
            · rw [heq]
              exact .refused rfl htakes (.inr why)
            · rw [heq]
              exact .online rfl htakes (Bool.eq_true_of_not_eq_false hblock) hip hidle
      · next hset => exact .waits fun htakes => hset htakes.isSet

theorem acceptedSocket_serving (hfd : o.fd ≠ invalidSocket) :
    Serving (acceptedSocket recvMem sendMem o) :=
  ⟨⟨rfl, hfd⟩, rfl, rfl, Nat.zero_le _⟩

theorem goneOnline_keys (s : NetServer) (p : ConnectionPool) (i : Nat) :
    Slots.keys (s.goneOnline p i).log = Slots.keys s.log ++ [s.uIDGenerator] :=
  Slots.keys_append _ _

/-- The connections behind a new one. -/
theorem goneOnline_connection {s : NetServer} {p : ConnectionPool} {i : Nat}
    (hp : s.connectionPool.getIdleConnect = (some i, p)) (j : Nat) :
    (s.goneOnline p i).connection j =
      if j = i then { s.connection i with nStatus := .connected, nUID := s.uIDGenerator }
      else s.connection j := by
  obtain ⟨hlt, -, hsame⟩ := getIdleConnect_some hp
  have hmodify := connection_modify { s with connectionPool := p } j
    (fun c => { c with nStatus := .connected, nUID := s.uIDGenerator }) hlt
  have hconn : ∀ k, NetServer.connection { s with connectionPool := p } k = s.connection k := hsame
  rw [hconn, hconn] at hmodify
  exact hmodify

/-- An idle connection goes online, under a number that is new. -/
theorem Wf.goneOnline (h : Wf w) (hfd : o.fd ≠ invalidSocket) {i : Nat} {p : ConnectionPool}
    (hp : w.app.connectionPool.getIdleConnect = (some i, p))
    (hfew : (Slots.keys w.app.log).length < 2 ^ 32) :
    Wf (withOnline recvMem sendMem o w i p) := by
  have hconn := goneOnline_connection hp
  have hidle : (w.app.connection i).idle = true := (getIdleConnect_some hp).2.1
  have hfresh := h.fresh hfew
  have hnone : w.app.kOnlineUser w.app.uIDGenerator = none :=
    Option.eq_none_iff_forall_ne_some.mpr fun j hj => hfresh (h.online_mem hj)
  have honline : (w.app.goneOnline p i).kOnlineUser =
      Function.update w.app.kOnlineUser w.app.uIDGenerator (some i) := by
    simp only [NetServer.goneOnline, hnone]
  have hkeys := goneOnline_keys w.app p i
  have hself : ((w.app.goneOnline p i).connection i).idle = false := by
    rw [hconn, if_pos rfl]
    rfl
  have hbusy : ∀ j, ((w.app.goneOnline p i).connection j).idle = false →
      j = i ∨ j ≠ i ∧ (w.app.connection j).idle = false := by
    intro j hj
    rw [hconn] at hj
    split at hj
    · next heq => exact .inl heq
    · next hne => exact .inr ⟨hne, hj⟩
  unfold withOnline
  constructor
  · intro j hj
    dsimp only at hj ⊢
    by_cases hne : j = i
    · subst hne
      exact absurd (hself.symm.trans hj) (by decide)
    · rw [Function.update_of_ne hne]
      rw [hconn, if_neg hne] at hj
      exact h.idle j hj
  · intro j hj
    dsimp only
    rcases hbusy j hj with rfl | ⟨hne, hj⟩
    · rw [Function.update_self]
      exact acceptedSocket_serving hfd
    · rw [Function.update_of_ne hne]
      exact h.serving j hj
  · intro u j
    dsimp only
    rw [honline]
    by_cases hne : j = i
    · subst hne
      rw [hconn, if_pos rfl]
      by_cases hu : u = w.app.uIDGenerator
      · subst hu
        rw [Function.update_self]
        exact iff_of_true rfl ⟨rfl, rfl⟩
      · rw [Function.update_of_ne hu]
        refine iff_of_false (fun hj => ?_) fun ⟨_, huid⟩ => hu huid.symm
        exact absurd (((h.online u j).mp hj).1.symm.trans hidle) (by decide)
    · rw [hconn, if_neg hne]
      by_cases hu : u = w.app.uIDGenerator
      · subst hu
        rw [Function.update_self]
        refine iff_of_false (fun heq => hne (Option.some.inj heq).symm) fun hj => ?_
        exact hfresh (h.online_mem ((h.online _ j).mpr hj))
      · rw [Function.update_of_ne hu]
        exact h.online u j
  · exact h.asserted
  · intro j hj
    dsimp only
    rcases hbusy j hj with rfl | ⟨-, hj⟩
    · exact List.mem_append_right _ (.head _)
    · exact List.mem_append_left _ (h.listed j hj)
  · have hout : Slots.out w.app.log i = none := by
      rw [h.out i, if_pos hidle]
    exact h.orderly.snoc (e := .opened i w.app.uIDGenerator) ⟨hout, hfresh⟩
  · intro j
    change Slots.out (w.app.log ++ [.opened i w.app.uIDGenerator]) j = _
    dsimp only
    rw [Slots.out_snoc, Slots.next, hconn]
    by_cases hne : j = i
    · subst hne
      rw [Function.update_self, if_pos rfl]
      rfl
    · rw [Function.update_of_ne hne, if_neg hne]
      exact h.out j
  · dsimp only
    rw [hkeys, List.length_append, List.length_singleton, numbers, List.range_succ, List.map_append,
      ← numbers, ← h.keys, h.uIDGenerator]
    rfl
  · dsimp only
    rw [hkeys, List.length_append, List.length_singleton]
    have hgen := h.uIDGenerator
    have hnext : (w.app.goneOnline p i).uIDGenerator = TUint32.ofNat (w.app.uIDGenerator + 1) := rfl
    rw [hnext, hgen]
    unfold TUint32.ofNat
    omega

/-- Trying to accept keeps everything, if there is a new number to give out. -/
theorem Wf.accept (h : Wf w)
    (hfew : (Slots.keys (w.accept (callbacks recvMem sendMem) o).2.app.log).length ≤ 2 ^ 32) :
    Wf (w.accept (callbacks recvMem sendMem) o).2 := by
  have hbit := h.fdBit w.server.socketFd
  have hcases := h.accept_cases recvMem sendMem o
  generalize w.accept (callbacks recvMem sendMem) o = r at hcases hfew ⊢
  cases hcases with
  | deaf hfun => exact h
  | waits hwaits => exact hbit
  | refused hw' htakes why =>
    subst hw'
    exact hbit.congr rfl rfl rfl
  | @online w' i p hw' htakes hblock hip hidle =>
    subst hw'
    refine hbit.goneOnline htakes.fd hidle ?_
    change (Slots.keys (NetServer.goneOnline _ p i).log).length ≤ 2 ^ 32 at hfew
    rw [goneOnline_keys, List.length_append, List.length_singleton] at hfew
    exact hfew

end Accept

/-- Trying to accept leaves the server's own socket and its callback. -/
theorem accept_server (w : ServerWorld NetServer) (recvMem sendMem : Memory)
    (o : SocketApi.AcceptOutcome) :
    (w.accept (callbacks recvMem sendMem) o).2.server.socketFd = w.server.socketFd ∧
      (w.accept (callbacks recvMem sendMem) o).2.server.funOnConnect = w.server.funOnConnect := by
  have haccepted : ∀ v : ServerWorld NetServer, v.server = w.server →
      let w' := (v.accepted (callbacks recvMem sendMem) o).2
      w'.server.socketFd = w.server.socketFd ∧ w'.server.funOnConnect = w.server.funOnConnect := by
    intro v hv
    have hconnect : (onNewConnec recvMem sendMem v o.uIP).2.server = v.server := by
      unfold onNewConnec
      split
      · rfl
      · dsimp only
        split
        · rfl
        · rfl
    have hsame := hconnect.trans hv
    have hfd := congrArg ServerSocket.socketFd hsame
    have hfun := congrArg ServerSocket.funOnConnect hsame
    unfold ServerWorld.accepted
    dsimp only
    split
    · exact ⟨hfd, hfun⟩
    · exact ⟨hfd, hfun⟩
  have hbit := w.fdBit_server w.server.socketFd
  unfold ServerWorld.accept
  split
  · exact ⟨rfl, rfl⟩
  · dsimp only
    split
    · exact ⟨congrArg _ hbit, congrArg _ hbit⟩
    · split
      · split
        · exact ⟨congrArg _ hbit, congrArg _ hbit⟩
        · split
          · exact ⟨congrArg _ hbit, congrArg _ hbit⟩
          · exact haccepted _ hbit
      · exact ⟨congrArg _ hbit, congrArg _ hbit⟩

/-! ## Messages -/

/-- What every turn keeps is kept by the loop. -/
theorem messageLoop_keeps {σ η : Type} {I : σ → Prop}
    {recv : Memory → Memory → Nat → MsgQueue.PopResult} {dispatcher : Nat → Option η}
    {call : σ → Memory → MessageDispatch η → σ × Memory}
    (hcall : ∀ app m turn, I app → I (call app m turn).1) {turns : Nat} {app : σ} (happ : I app)
    {m buf : Memory} {bufSize : Nat} {r : LoopResult σ η}
    (h : messageLoop recv dispatcher call turns app m buf bufSize = some r) : I r.app := by
  induction turns generalizing app m buf bufSize r with
  | zero => cases h
  | succ turns ih =>
    rw [messageLoop] at h
    dsimp only at h
    split at h
    · obtain rfl := Option.some.inj h
      exact happ
    · split at h
      · obtain rfl := Option.some.inj h
        exact happ
      · obtain ⟨t, ht, rfl⟩ := Option.map_eq_some_iff.mp h
        exact @ih _ (hcall _ _ _ happ) _ _ _ t ht

/-- What `HandleMsgUserLoginRet` keeps is kept by `TickHttpMsg`. -/
theorem tickHttpMsg_keeps {I : ServerWorld NetServer → Prop}
    (hret : ∀ w pBuff, I w → I (handleMsgUserLoginRet w pBuff))
    (hmem : ∀ w mem, I w → I { w with app := { w.app with mem := mem } })
    {turns : Nat} {w w' : ServerWorld NetServer} (h : I w) (ht : tickHttpMsg turns w = some w') :
    I w' := by
  obtain ⟨r, hr, rfl⟩ := Option.map_eq_some_iff.mp ht
  refine hmem _ _ (messageLoop_keeps (fun app m turn happ => ?_) h hr)
  unfold NetService.handleMsg
  cases turn.handler with
  | none => exact happ
  | some handler =>
    cases handler with
    | handleMsgDefault => exact happ
    | handleMsgUserLoginRet => exact hret app turn.pBuff happ

/-- A property that every step but accepting keeps. -/
structure ActKeeps (I : ServerWorld NetServer → Prop) : Prop where
  openServer : ∀ w o, w.validServer = false → I w → I (w.openServer o).2
  recv : ServerWorld.RecvKeeps (callbacks (fun _ => 0) fun _ => 0) I
  loginRet : ∀ w pBuff, I w → I (handleMsgUserLoginRet w pBuff)
  mem : ∀ w mem, I w → I { w with app := { w.app with mem := mem } }

/-- A step keeps it, if accepting does. -/
theorem ActKeeps.act {I : ServerWorld NetServer → Prop} (hI : ActKeeps I) {w w' : ServerWorld NetServer}
    {a : NetAction} (h : I w) (haccept : ∀ recvMem sendMem o, a = .accept recvMem sendMem o →
      w' = (w.accept (callbacks recvMem sendMem) o).2 → I w') (ha : act w a = some w') : I w' := by
  cases a with
  | openServer o =>
    rw [NetServer.act] at ha
    split at ha
    · cases ha
    · next hclosed =>
      obtain rfl := Option.some.inj ha
      exact hI.openServer w o (Bool.eq_false_of_not_eq_true hclosed) h
  | accept recvMem sendMem o =>
    rw [NetServer.act] at ha
    split at ha
    · exact haccept recvMem sendMem o rfl (Option.some.inj ha).symm
    · cases ha
  | recv o =>
    rw [NetServer.act] at ha
    split at ha
    · obtain rfl := Option.some.inj ha
      exact hI.recv.recv h o
    · cases ha
  | tickHttpMsg turns => exact tickHttpMsg_keeps hI.loginRet hI.mem h ha
  | others mem =>
    obtain rfl := Option.some.inj ha
    exact hI.mem w mem h

theorem loginRet_handled {s : NetServer} {i u : Nat} (hu : (s.connection i).nUID = u)
    (result : Int32) : Handled i s (s.logged (.used i u (.loginRet result))) := by
  refine ⟨rfl, rfl, rfl, rfl, rfl, rfl, rfl, fun _ _ => rfl, rfl, id, [.loginRet result], ?_⟩
  rw [hu]
  rfl

/-- An answer that can be read is sent on the connection that is online under its number, or nothing
happens. -/
theorem loginRet_parsed (w : ServerWorld NetServer) (pBuff : List UInt8) :
    handleMsgUserLoginRet w pBuff = w ∨ ∃ msgRetLogin i data size,
      hnRetLogin.parseFromArray pBuff = some msgRetLogin ∧
      w.app.kOnlineUser msgRetLogin.uid.toNat = some i ∧
      let answered := Slots.Event.used i msgRetLogin.uid.toNat (NetUse.loginRet msgRetLogin.result)
      handleMsgUserLoginRet w pBuff = (ServerWorld.onClient { w with app := w.app.logged answered } i
        fun v => World.sendData (connectionCallbacks i) v data size).2 := by
  unfold handleMsgUserLoginRet
  cases hparse : hnRetLogin.parseFromArray pBuff with
  | none => exact .inl rfl
  | some msgRetLogin =>
    dsimp only
    cases huser : w.app.getUser msgRetLogin.uid.toNat with
    | none => exact .inl rfl
    | some pUser =>
      dsimp only
      split
      · exact .inl rfl
      · exact .inr ⟨msgRetLogin, pUser, _, _, rfl, huser, rfl⟩

theorem loginRet_cases (w : ServerWorld NetServer) (pBuff : List UInt8) :
    handleMsgUserLoginRet w pBuff = w ∨ ∃ u i result data size, w.app.kOnlineUser u = some i ∧
      handleMsgUserLoginRet w pBuff = (ServerWorld.onClient
        { w with app := w.app.logged (.used i u (.loginRet result)) } i
        fun v => World.sendData (connectionCallbacks i) v data size).2 := by
  rcases loginRet_parsed w pBuff with hsame | ⟨msgRetLogin, i, data, size, -, huser, hsent⟩
  · exact .inl hsame
  · exact .inr ⟨_, i, _, data, size, huser, hsent⟩

/-- It keeps the invariant. -/
theorem Wf.loginRet {w : ServerWorld NetServer} (h : Wf w) (pBuff : List UInt8) :
    Wf (handleMsgUserLoginRet w pBuff) := by
  rcases loginRet_cases w pBuff with hsame | ⟨u, i, result, data, size, huser, hsent⟩
  · rw [hsame]
    exact h
  · obtain ⟨hbusy, huid⟩ := (h.online _ i).mp huser
    rw [hsent]
    exact h.called hbusy (loginRet_handled huid result)
      (sendData_serving (connectionCallbacks_appOnly i) (h.serving i hbusy) _ _)

/-! ## The application -/

/-- A property of the service that the callbacks of its connections keep. -/
structure CallbackKeeps (A : NetServer → Prop) : Prop where
  onDisConnect : ∀ s i, A s → A (s.onDisConnect i)
  handlePacket : ∀ m s d, A s → A (handlePacket m s d)

/-- A property that its other handlers keep too. -/
structure AppKeeps (A : NetServer → Prop) : Prop extends CallbackKeeps A where
  loginRet : ∀ s i u result, A s → A (s.logged (.used i u (.loginRet result)))
  mem : ∀ s mem, A s → A { s with mem := mem }

section App

variable {A : NetServer → Prop} {w w' : ServerWorld NetServer}

theorem CallbackKeeps.keeping (hA : CallbackKeeps A) (i : Nat) :
    Keeping (fun w : World NetServer => A w.app) (connectionCallbacks i) where
  onDisConnect w h := hA.onDisConnect w.app i h
  onRecvMessage w m n h := by
    have hall : ∀ (ds : List NetService.Dispatch) (s : NetServer), A s →
        A (ds.foldl (NetServer.handlePacket (m.getD fun _ => 0)) s) := by
      intro ds
      induction ds with
      | nil => exact fun s hs => hs
      | cons d ds ih => exact fun s hs => ih _ (hA.handlePacket _ s d hs)
    change A (w.app.onRecvMessage i (m.getD fun _ => 0) n).2
    rw [onRecvMessage_snd]
    exact hall _ _ h

theorem CallbackKeeps.recvKeeps (hA : CallbackKeeps A) (recvMem sendMem : Memory) :
    ServerWorld.RecvKeeps (callbacks recvMem sendMem) fun w => A w.app := by
  refine ⟨fun w fd h => ?_, fun _ h => h, fun w i h => ?_⟩
  · rw [w.fdBit_app]
    exact h
  · exact (stable_app A).recvEx (hA.keeping i) h

theorem CallbackKeeps.sendData (hA : CallbackKeeps A) (h : A w.app) (i : Nat)
    (data : Option (Nat → UInt8)) (size : Nat) :
    A (w.onClient i fun v => World.sendData (connectionCallbacks i) v data size).2.app :=
  (stable_app A).sendData (hA.keeping i) h data size

theorem openServer_app (w : ServerWorld NetServer) (o : SocketApi.ListenOutcome) :
    (w.openServer o).2.app = w.app ∧ (w.openServer o).2.clients = w.clients ∧
      (w.openServer o).2.server.clientContainer = w.server.clientContainer := by
  rw [w.openServer_eq]
  split
  · exact ⟨rfl, rfl, rfl⟩
  · split
    · exact ⟨rfl, rfl, rfl⟩
    · exact ⟨rfl, rfl, rfl⟩

theorem AppKeeps.actKeeps (hA : AppKeeps A) : ActKeeps fun w => A w.app where
  openServer w o _ h := by
    rw [(openServer_app w o).1]
    exact h
  recv := hA.recvKeeps _ _
  loginRet w pBuff h := by
    rcases loginRet_cases w pBuff with hsame | ⟨u, i, result, data, size, -, hsent⟩
    · rw [hsame]
      exact h
    · rw [hsent]
      exact hA.sendData (hA.loginRet _ i u result h) i data size
  mem w mem h := hA.mem w.app mem h

/-- The service behind an `accept`. -/
theorem accept_app (w : ServerWorld NetServer) (recvMem sendMem : Memory)
    (o : SocketApi.AcceptOutcome) :
    (w.accept (callbacks recvMem sendMem) o).2.app = w.app ∨
      ∃ i p, w.app.connectionPool.getIdleConnect = (some i, p) ∧
        (w.accept (callbacks recvMem sendMem) o).2.app = w.app.goneOnline p i := by
  have hconnect : ∀ v : ServerWorld NetServer, v.app = w.app →
      (onNewConnec recvMem sendMem v o.uIP).2.app = w.app ∨
        ∃ i p, w.app.connectionPool.getIdleConnect = (some i, p) ∧
          (onNewConnec recvMem sendMem v o.uIP).2.app = w.app.goneOnline p i := by
    intro v hv
    unfold onNewConnec
    split
    · exact .inl hv
    · cases hidle : v.app.connectionPool.getIdleConnect with
      | mk r p =>
        rw [hv] at hidle
        cases r with
        | none =>
          obtain rfl := (getIdleConnect_none hidle).1
          refine .inl ?_
          dsimp only
          rw [hv]
        | some i =>
          refine .inr ⟨i, p, hidle, ?_⟩
          rw [← hv]
          rfl
  have haccepted : ∀ v : ServerWorld NetServer, v.app = w.app →
      (v.accepted (callbacks recvMem sendMem) o).2.app = w.app ∨
        ∃ i p, w.app.connectionPool.getIdleConnect = (some i, p) ∧
          (v.accepted (callbacks recvMem sendMem) o).2.app = w.app.goneOnline p i := by
    intro v hv
    have happ := hconnect v hv
    unfold ServerWorld.accepted
    dsimp only
    split
    · exact happ
    · exact happ
  have hbit := w.fdBit_app w.server.socketFd
  unfold ServerWorld.accept
  split
  · exact .inl rfl
  · dsimp only
    split
    · exact .inl hbit
    · split
      · split
        · exact .inl hbit
        · split
          · exact .inl hbit
          · exact haccepted _ hbit
      · exact .inl hbit

/-- A step keeps what the handlers keep, if a new connection does. -/
theorem AppKeeps.act (hA : AppKeeps A) (h : A w.app)
    (honline : ∀ i p, w.app.connectionPool.getIdleConnect = (some i, p) → A (w.app.goneOnline p i))
    {a : NetAction} (ha : act w a = some w') : A w'.app := by
  refine hA.actKeeps.act h (fun recvMem sendMem o _ heq => ?_) ha
  subst heq
  rcases accept_app w recvMem sendMem o with hsame | ⟨i, p, hidle, hnew⟩
  · rw [hsame]
    exact h
  · rw [hnew]
    exact honline i p hidle

/-- What the log has to do with the handlers: they add events to it, and give nothing out. -/
theorem appKeeps_log {L : List (Slots.Event Nat Nat NetUse) → Prop}
    (hL : ∀ log e, e.openedKey = none → L log → L (log ++ [e])) : AppKeeps fun s => L s.log where
  onDisConnect s i h := by
    unfold NetServer.onDisConnect
    dsimp only
    split
    · exact hL _ _ rfl h
    · exact h
  handlePacket m s d h := by
    have hsent : ∀ s m, L s.log → L (sendMsgToHttp s m).2.log := by
      intro s m hs
      unfold sendMsgToHttp
      dsimp only
      split
      · exact hs
      · exact hs
    unfold NetServer.handlePacket
    cases d.handler with
    | handlePacketDefault => exact h
    | handlePacketUserLogin =>
      dsimp only
      unfold handlePacketUserLogin
      cases cgLogin.decode m d.pBuff d.packetHead.usPacketSize with
      | none => exact h
      | some ptLogin => exact hsent _ _ (hL _ _ rfl h)
  loginRet _ _ _ _ h := hL _ _ rfl h
  mem _ _ h := h

/-- The log only grows. -/
theorem act_log {a : NetAction} (ha : act w a = some w') : w.app.log <+: w'.app.log := by
  have hkeeps : AppKeeps fun s => w.app.log <+: s.log :=
    appKeeps_log fun log e _ h => h.trans (List.prefix_append _ _)
  exact hkeeps.act (List.prefix_refl _) (fun _ _ _ => List.prefix_append _ _) ha

end App

/-! ## Runs -/

section Runs

variable {w w' : ServerWorld NetServer}

/-- How many connections were accepted. -/
def acceptedCount (w : ServerWorld NetServer) : Nat := (Slots.keys w.app.log).length

theorem act_acceptedCount {a : NetAction} (ha : act w a = some w') :
    acceptedCount w ≤ acceptedCount w' := by
  obtain ⟨more, hmore⟩ := act_log ha
  rw [acceptedCount, acceptedCount, ← hmore, Slots.keys_append, List.length_append]
  exact Nat.le_add_right _ _

theorem wf_actKeeps : ActKeeps Wf where
  openServer w o _ h := by
    obtain ⟨happ, hclients, hlist⟩ := openServer_app w o
    exact h.congr hclients happ hlist
  recv := wf_recvKeeps rfl
  loginRet _ pBuff h := h.loginRet pBuff
  mem _ mem h := h.mem mem

/-- A step, with no number given out twice. -/
theorem Wf.act (h : Wf w) {a : NetAction} (ha : act w a = some w')
    (hfew : acceptedCount w' ≤ 2 ^ 32) : Wf w' := by
  refine wf_actKeeps.act h (fun recvMem sendMem o _ heq => ?_) ha
  subst heq
  exact h.accept hfew

/-- A service that was just initialized. -/
structure Initial (s : NetServer) : Prop where
  pool : s.connectionPool = ⟨[]⟩
  kOnlineUser : s.kOnlineUser = fun _ => none
  uIDGenerator : s.uIDGenerator = 1
  asserted : s.asserted = false
  log : s.log = []

theorem init_initial (serviceID : Int16) (kMCLogin2Http : MessageChannel) (mem szMsgBuf : Memory) :
    Initial (init serviceID kMCLogin2Http mem szMsgBuf) := ⟨rfl, rfl, rfl, rfl, rfl⟩

theorem Initial.wf {s : NetServer} (h : Initial s) : Wf (start s) := by
  have hidle : ∀ i, s.connection i = Connection.new := by
    intro i
    rw [connection, h.pool]
    rfl
  have hbusy : ∀ i, (s.connection i).idle ≠ false := by
    intro i
    rw [hidle]
    decide
  refine ⟨fun _ _ => rfl, fun i hi => absurd hi (hbusy i), fun u i => ?_, h.asserted,
    fun i hi => absurd hi (hbusy i), ?_, fun i => ?_, ?_, ?_⟩
  · change s.kOnlineUser u = some i ↔ _
    rw [h.kOnlineUser]
    exact iff_of_false (by simp) fun hi => hbusy i hi.1
  · change Slots.Orderly s.log
    rw [h.log]
    exact .nil
  · change Slots.out s.log i = if (s.connection i).idle then none else _
    rw [h.log, hidle]
    rfl
  · change Slots.keys s.log = numbers (Slots.keys s.log).length
    rw [h.log]
    rfl
  · change s.uIDGenerator = TUint32.ofNat ((Slots.keys s.log).length + 1)
    rw [h.uIDGenerator, h.log]
    rfl

/-- What every step keeps holds along a run in which the numbers do not come round. -/
theorem reachable_few {I : ServerWorld NetServer → Prop} {s : NetServer} (hstart : I (start s))
    (hstep : ∀ {w w'} {a : NetAction}, I w → NetServer.act w a = some w' →
      acceptedCount w' ≤ 2 ^ 32 → I w')
    (h : ActionSystem.Reachable NetServer.act (start s) w) (hfew : acceptedCount w ≤ 2 ^ 32) : I w := by
  have hrun : acceptedCount w ≤ 2 ^ 32 → I w := by
    refine h.invariant (I := fun w => acceptedCount w ≤ 2 ^ 32 → I w) (fun _ => hstart) ?_
    intro w a w' hw ha hfew'
    exact hstep (hw (Nat.le_trans (act_acceptedCount ha) hfew')) ha hfew'
  exact hrun hfew

theorem reachable_wf {s : NetServer} (hs : Initial s)
    (h : ActionSystem.Reachable NetServer.act (start s) w) (hfew : acceptedCount w ≤ 2 ^ 32) : Wf w :=
  reachable_few hs.wf (fun hw ha hfew' => hw.act ha hfew') h hfew

end Runs

/-! ## A tick of the network -/

section Tick

/-- The loop of `accept_ex` is steps that accept. -/
theorem acceptEx_run (recvMem sendMem : Memory) (os : List SocketApi.AcceptOutcome)
    {w : ServerWorld NetServer} (hvalid : w.validServer = true) :
    let w' := (w.acceptEx (callbacks recvMem sendMem) os).2
    w'.validServer = true ∧ ∃ as, ActionSystem.run act w as = some w' := by
  induction os generalizing w with
  | nil => exact ⟨hvalid, [], rfl⟩
  | cons o os ih =>
    have hsame := (accept_server w recvMem sendMem o).1
    have hstep : act w (.accept recvMem sendMem o) =
        some (w.accept (callbacks recvMem sendMem) o).2 := if_pos hvalid
    have hnext : (w.accept (callbacks recvMem sendMem) o).2.validServer = true := by
      rw [ServerWorld.validServer, hsame]
      exact hvalid
    obtain ⟨hvalid', as, hrun⟩ := ih hnext
    rw [ServerWorld.acceptEx]
    dsimp only at hvalid' hrun ⊢
    split
    · refine ⟨hnext, [.accept recvMem sendMem o], ?_⟩
      rw [ActionSystem.run, hstep]
      rfl
    · refine ⟨hvalid', .accept recvMem sendMem o :: as, ?_⟩
      rw [ActionSystem.run, hstep]
      exact hrun

/-- `TickNetwork` is steps of the service: it opens its socket, or it accepts up to ten connections and
looks at its clients. -/
theorem tickNetwork_run (w : ServerWorld NetServer) (o : NetworkOutcome) :
    ∃ as, ActionSystem.run act w as = some (tickNetwork w o) := by
  unfold tickNetwork
  split
  · next hinvalid =>
    split
    · exact ⟨[], rfl⟩
    · refine ⟨[.openServer o.listen], ?_⟩
      have hstep : act w (.openServer o.listen) = some (w.openServer o.listen).2 :=
        if_neg (by rw [hinvalid]; decide)
      rw [ActionSystem.run, hstep]
      rfl
  · next hvalid =>
    obtain ⟨hvalid', as, hrun⟩ := acceptEx_run o.recvMem o.sendMem (o.accepts.take 10)
      (Bool.eq_true_of_not_eq_false hvalid)
    dsimp only
    generalize (w.acceptEx (callbacks o.recvMem o.sendMem) (o.accepts.take 10)).2 = w' at *
    have hstep : act w' (.recv o.select) =
        some (w'.recv (callbacks o.recvMem o.sendMem) o.select).2 := if_pos hvalid'
    refine ⟨as ++ [.recv o.select], ?_⟩
    rw [ActionSystem.run_append, hrun, Option.bind_some, ActionSystem.run, hstep]
    rfl

end Tick

/-! ## Clients come and go -/

/-- A service on a channel that nobody reads. -/
def quietService : NetServer :=
  init 1 (MessageChannel.new ⟨0, 0⟩ ⟨0, 0⟩) (fun _ => 0) fun _ => 0

/-- The server listens on descriptor 3. -/
def listens : NetAction := .openServer ⟨3, true, true, true, true, true, true⟩

/-- A client of this machine, on descriptor 4, that sends nothing and goes. -/
def visitor : SocketApi.AcceptOutcome := ⟨1, true, 4, true, 0x7F000001, 5000, true, [.closed], []⟩

/-- A client of the same network, on descriptor 5, that stays. -/
def guest : SocketApi.AcceptOutcome := ⟨1, true, 5, true, 0x0A000001, 5001, true, [], []⟩

/-- The server behind two have come, one has gone, and another one has come in its place. -/
def visited : Option (ServerWorld NetServer) :=
  ActionSystem.run act (start quietService)
    [listens, .accept (fun _ => 0) (fun _ => 0) visitor, .accept (fun _ => 0) (fun _ => 0) guest,
      .recv ⟨1, fun fd => fd = 4⟩, .recv ⟨0, fun _ => false⟩,
      .accept (fun _ => 0) (fun _ => 0) visitor]

theorem visited_reachable : ∃ w, visited = some w ∧
    ActionSystem.Reachable act (start quietService) w ∧ acceptedCount w ≤ 2 ^ 32 := by
  have hcount : visited.map acceptedCount = some 3 := by decide +kernel
  obtain ⟨w, hw, hthree⟩ := Option.map_eq_some_iff.mp hcount
  exact ⟨w, hw, (ActionSystem.Reachable.refl _ _).run hw, by rw [hthree]; decide⟩

end NetServer

end MmDriver

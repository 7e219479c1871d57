import MmDriver.Laws.Test.NetServerRuns

/-!
# Who gets in

A client is served only from an address that `IPCheck` lets pass, and no more than
`MAX_CLIENT_CONNECTION` are. And nobody gets in any more once an `open` has failed behind `socket`: its
`close` takes the server's callback away, and nothing gives it back.
-/

namespace MmDriver

open ByteMem World

namespace NetServer

/-! ## Addresses -/

section Admitted

variable {w w' : ServerWorld NetServer} {s : NetServer} {i : Nat}

/-- Every connection that is not closed has a peer that may come in. -/
structure Admitted (w : ServerWorld NetServer) : Prop extends Wf w where
  allowed : ∀ i, (w.clients i).socket ≠ ClientSocket.new → ipCheck (w.clients i).socket.uIP = true

/-- One connection has changed. -/
theorem Admitted.update (h : Admitted w) {c : Client} (hwf : Wf w')
    (hclients : w'.clients = Function.update w.clients i c)
    (hc : c.socket ≠ ClientSocket.new → ipCheck c.socket.uIP = true) : Admitted w' := by
  refine ⟨hwf, fun j hj => ?_⟩
  rw [hclients] at hj ⊢
  by_cases hne : j = i
  · subst hne
    rw [Function.update_self] at hj ⊢
    exact hc hj
  · rw [Function.update_of_ne hne] at hj ⊢
    exact h.allowed j hj

theorem Admitted.congr (h : Admitted w) (hwf : Wf w') (hclients : w'.clients = w.clients) :
    Admitted w' := ⟨hwf, by rw [hclients]; exact h.allowed⟩

/-- What a call on a serving connection leaves of its peer. -/
theorem Admitted.keptOrLost (h : Admitted w) (hi : (w.app.connection i).idle = false)
    {left : NetServer → NetServer} {a : NetServer} {v : World NetServer}
    (hv : KeptOrLost left (w.clients i).socket a v) (hnew : v.socket ≠ ClientSocket.new) :
    ipCheck v.socket.uIP = true := by
  rcases hv with ⟨-, hsteady, -⟩ | ⟨hlost, -⟩
  · rw [hsteady.uIP]
    exact h.allowed i (h.serving i hi).ne_new
  · exact absurd hlost hnew

theorem admitted_actKeeps : ActKeeps Admitted where
  openServer w o _ h := by
    obtain ⟨happ, hclients, hlist⟩ := openServer_app w o
    exact h.congr (h.toWf.congr hclients happ hlist) hclients
  recv := by
    refine ⟨fun w fd h => h.congr (h.toWf.fdBit fd) (w.fdBit_clients fd),
      fun w h => h.congr h.toWf.purge rfl, fun w i h => ?_⟩
    cases hidle : (w.app.connection i).idle with
    | true =>
      have hsame := h.toWf.recvEx_idle hidle
      change Admitted (w.onClient i (World.recvEx (connectionCallbacks i))).2
      rw [hsame]
      exact h
    | false =>
      obtain ⟨a, -, hv⟩ := recvEx_serving (connectionCallbacks_appOnly i) (w := w.client i)
        (h.serving i hidle)
      exact h.update (h.toWf.recvEx i) rfl (h.keptOrLost hidle hv)
  loginRet w pBuff h := by
    have hwf := h.toWf.loginRet pBuff
    rcases loginRet_cases w pBuff with hsame | ⟨u, i, result, data, size, huser, hsent⟩
    · rw [hsame]
      exact h
    · rw [hsent] at hwf ⊢
      have hbusy := ((h.online _ i).mp huser).1
      have hv := sendData_serving (connectionCallbacks_appOnly i)
        (w := ⟨(w.clients i).socket, (w.clients i).net, w.app.logged (.used i u (.loginRet result))⟩)
        (h.serving i hbusy) data size
      exact h.update hwf rfl (h.keptOrLost hbusy hv)
  mem w mem h := h.congr (h.toWf.mem mem) rfl

theorem Admitted.act (h : Admitted w) {a : NetAction} (ha : NetServer.act w a = some w')
    (hfew : acceptedCount w' ≤ 2 ^ 32) : Admitted w' := by
  refine admitted_actKeeps.act h (fun recvMem sendMem o _ heq => ?_) ha
  subst heq
  have hwf := h.toWf.accept hfew
  have hbit : Admitted (w.fdBit w.server.socketFd) :=
    h.congr (h.toWf.fdBit _) (w.fdBit_clients _)
  have hcases := h.toWf.accept_cases recvMem sendMem o
  generalize w.accept (callbacks recvMem sendMem) o = r at hcases hwf ⊢
  cases hcases with
  | deaf hfun => exact h
  | waits hwaits => exact hbit
  | refused hw' htakes why =>
    subst hw'
    exact hbit.congr hwf rfl
  | @online w' i p hw' htakes hblock hip hidle =>
    subst hw'
    exact hbit.update hwf rfl fun _ => hip

/-- The size of the pool. -/
theorem appKeeps_length {P : Nat → Prop} :
    AppKeeps fun s => P s.connectionPool.clientSocketVec.length where
  onDisConnect s i h := by
    unfold NetServer.onDisConnect
    dsimp only
    split
    · rw [logged, modifyConnection, ConnectionPool.modify]
      dsimp only
      rw [List.length_modify]
      exact h
    · exact h
  handlePacket m s d h := by
    have hsent : ∀ s m, P s.connectionPool.clientSocketVec.length →
        P (sendMsgToHttp s m).2.connectionPool.clientSocketVec.length := by
      intro s m hs
      unfold sendMsgToHttp
      dsimp only
      split
      · exact hs
      · exact hs
    unfold NetServer.handlePacket
    cases d.handler with
    | handlePacketDefault => exact h
    | handlePacketUserLogin =>
      dsimp only
      unfold handlePacketUserLogin
      cases cgLogin.decode m d.pBuff d.packetHead.usPacketSize with
      | none => exact h
      | some ptLogin =>
        refine hsent _ _ ?_
        rw [logged, modifyConnection, ConnectionPool.modify]
        dsimp only
        rw [List.length_modify]
        exact h
  loginRet _ _ _ _ h := h
  mem _ _ h := h

theorem getIdleConnect_length {p p' : ConnectionPool} (h : p.getIdleConnect = (some i, p'))
    (hp : p.clientSocketVec.length ≤ maxClientConnection) :
    p'.clientSocketVec.length ≤ maxClientConnection := by
  unfold ConnectionPool.getIdleConnect at h
  split at h
  · rwa [← (Prod.mk.inj h).2]
  · split at h
    · cases (Prod.mk.inj h).1
    · next hroom =>
      rw [← (Prod.mk.inj h).2, List.length_append, List.length_singleton]
      omega

theorem few_act (h : w.app.connectionPool.clientSocketVec.length ≤ maxClientConnection)
    {a : NetAction} (ha : NetServer.act w a = some w') :
    w'.app.connectionPool.clientSocketVec.length ≤ maxClientConnection := by
  refine (appKeeps_length (P := fun n => n ≤ maxClientConnection)).act h (fun i p hidle => ?_) ha
  change (p.clientSocketVec.modify i _).length ≤ maxClientConnection
  rw [List.length_modify]
  exact getIdleConnect_length hidle h

/-- Who is served: no more clients than there may be, each from an address that may come in. -/
structure Serves (w : ServerWorld NetServer) : Prop where
  few : w.app.connectionPool.clientSocketVec.length ≤ maxClientConnection
  inside : ∀ i, (w.app.connection i).nStatus ≠ .unused →
    i < w.app.connectionPool.clientSocketVec.length ∧ ipCheck (w.clients i).socket.uIP = true

/-- **Who is served**, in any state that a run reaches. -/
theorem serves_allowed (hs : Initial s) (h : ActionSystem.Reachable NetServer.act (start s) w)
    (hfew : acceptedCount w ≤ 2 ^ 32) : Serves w := by
  have hstart : Admitted (start s) := ⟨hs.wf, fun i hi => absurd rfl hi⟩
  have hadmitted := reachable_few hstart (fun hw ha hfew' => hw.act ha hfew') h hfew
  have hpool : w.app.connectionPool.clientSocketVec.length ≤ maxClientConnection := by
    refine h.invariant ?_ fun w a w' hw ha => few_act hw ha
    change s.connectionPool.clientSocketVec.length ≤ maxClientConnection
    rw [hs.pool]
    decide
  refine ⟨hpool, fun i hi => ?_⟩
  have hbusy : (w.app.connection i).idle = false := by simp [Connection.idle, hi]
  exact ⟨lt_of_busy hbusy, hadmitted.allowed i (hadmitted.serving i hbusy).ne_new⟩

theorem serves_allowed_visited : ∃ w, visited = some w ∧ Serves w := by
  obtain ⟨w, hw, hreach, hfew⟩ := visited_reachable
  exact ⟨w, hw, serves_allowed (init_initial _ _ _ _) hreach hfew⟩

end Admitted

/-! ## A deaf server -/

section Deaf

variable {w w' : ServerWorld NetServer} {s : NetServer} {as : List NetAction}

/-- The step opens a socket and closes it again. -/
def ClosesAgain : NetAction → Prop
  | .openServer o => o.socket ≠ invalidSocket ∧ ServerWorld.listens o = false
  | .accept _ _ _ => False
  | .recv _ => False
  | .tickHttpMsg _ => False
  | .others _ => False

/-- The callback is taken away by such a step only, and never given back. -/
theorem act_funOnConnect {a : NetAction} (ha : NetServer.act w a = some w') :
    w'.server.funOnConnect = true ↔ w.server.funOnConnect = true ∧ ¬ClosesAgain a := by
  have hsame : w'.server.funOnConnect = w.server.funOnConnect → ¬ClosesAgain a →
      (w'.server.funOnConnect = true ↔ w.server.funOnConnect = true ∧ ¬ClosesAgain a) := by
    intro heq ha
    rw [heq]
    exact ⟨fun h => ⟨h, ha⟩, And.left⟩
  cases a with
  | openServer o =>
    rw [NetServer.act] at ha
    split at ha
    · cases ha
    · obtain rfl := Option.some.inj ha
      rw [w.openServer_eq] at hsame ⊢
      split
      · next hinvalid =>
        rw [if_pos hinvalid] at hsame
        exact hsame rfl fun hcloses => hcloses.1 hinvalid
      · next hvalid =>
        rw [if_neg hvalid] at hsame
        split
        · next hlistens =>
          rw [if_pos hlistens] at hsame
          exact hsame rfl fun hcloses => absurd (hlistens.symm.trans hcloses.2) Bool.noConfusion
        · next hfails =>
          refine iff_of_false Bool.noConfusion fun h => h.2 ⟨hvalid, ?_⟩
          exact Bool.eq_false_of_not_eq_true hfails
  | accept recvMem sendMem o =>
    rw [NetServer.act] at ha
    split at ha
    · obtain rfl := Option.some.inj ha
      exact hsame (accept_server w recvMem sendMem o).2 id
    · cases ha
  | recv o =>
    have hkeeps : ∀ b, ServerWorld.RecvKeeps (callbacks (fun _ => 0) fun _ => 0)
        fun w => w.server.funOnConnect = b := fun b =>
      ⟨fun w fd h => (congrArg _ (w.fdBit_server fd)).trans h, fun _ h => h, fun _ _ h => h⟩
    rw [NetServer.act] at ha
    split at ha
    · obtain rfl := Option.some.inj ha
      exact hsame ((hkeeps _).recv rfl o) id
    · cases ha
  | tickHttpMsg turns =>
    refine hsame (tickHttpMsg_keeps (I := fun v => v.server.funOnConnect = w.server.funOnConnect)
      (fun v pBuff hv => ?_) (fun _ _ hv => hv) rfl ha) id
    rcases loginRet_cases v pBuff with hsame | ⟨u, i, result, data, size, -, hsent⟩
    · rw [hsame]
      exact hv
    · rw [hsent]
      exact hv
  | others mem =>
    obtain rfl := Option.some.inj ha
    exact hsame rfl id

theorem run_funOnConnect (hrun : ActionSystem.run NetServer.act w as = some w') :
    w'.server.funOnConnect = true ↔ w.server.funOnConnect = true ∧ ∀ a ∈ as, ¬ClosesAgain a := by
  induction as generalizing w with
  | nil =>
    cases hrun
    simp
  | cons a as ih =>
    obtain ⟨v, hv, hrest⟩ := Option.bind_eq_some_iff.mp hrun
    rw [ih hrest, act_funOnConnect hv, List.forall_mem_cons, and_assoc]

/-- A server without its callback accepts nobody. -/
theorem deaf_act (h : w.server.funOnConnect = false) {a : NetAction}
    (ha : NetServer.act w a = some w') :
    w'.server.funOnConnect = false ∧ acceptedCount w' = acceptedCount w := by
  constructor
  · rw [Bool.eq_false_iff, ne_eq, act_funOnConnect ha, h]
    exact fun hboth => Bool.noConfusion hboth.1
  · have hkeeps : AppKeeps fun s => (Slots.keys s.log).length = acceptedCount w := by
      refine appKeeps_log (L := fun log => (Slots.keys log).length = acceptedCount w) fun log e he h => ?_
      rw [Slots.keys_append, List.length_append, h]
      simp [Slots.keys, he]
    refine hkeeps.actKeeps.act rfl (fun recvMem sendMem o _ heq => ?_) ha
    have hdeaf : (w.accept (callbacks recvMem sendMem) o).2 = w := by
      rw [ServerWorld.accept, if_pos h]
    rw [heq, hdeaf]
    rfl

/-- The system has a connection for the server, from an address that may come in, and there is a place
for it. -/
structure Welcome (w : ServerWorld NetServer) (o : SocketApi.AcceptOutcome) : Prop where
  select : o.select ≠ SocketApi.socketError
  isSet : o.isSet = true
  fd : o.fd ≠ invalidSocket
  setNonBlock : o.setNonBlock = true
  ip : ipCheck o.uIP = true
  room : w.app.connectionPool.getIdleConnect.1 ≠ none

/-- What `accept` makes of `w` when the connection `i` gets the descriptor: it answers true, the
connection is listed, is connected to the peer, and serves. -/
structure TakenIn (w : ServerWorld NetServer) (o : SocketApi.AcceptOutcome)
    (r : Bool × ServerWorld NetServer) (i : Nat) : Prop where
  answer : r.1 = true
  listed : r.2.server.clientContainer = w.server.clientContainer ++ [i]
  socketFd : (r.2.clients i).socket.socketFd = o.fd
  socketStatus : (r.2.clients i).socket.socketStatus = .connected
  uIP : (r.2.clients i).socket.uIP = o.uIP
  nStatus : (r.2.app.connection i).nStatus = .connected
  app : ∃ p, w.app.connectionPool.getIdleConnect = (some i, p) ∧ r.2.app = w.app.goneOnline p i

/-- What becomes of a descriptor for which there is a place. -/
theorem accepted_takenIn (w : ServerWorld NetServer) {o : SocketApi.AcceptOutcome}
    (hfd : o.fd ≠ invalidSocket) (hip : ipCheck o.uIP = true) {i : Nat} {p : ConnectionPool}
    (hidle : w.app.connectionPool.getIdleConnect = (some i, p)) (recvMem sendMem : Memory) :
    TakenIn w o (w.accepted (callbacks recvMem sendMem) o) i := by
  have hconnect : (callbacks recvMem sendMem).onConnect w o.uIP o.usPort =
      onNewConnec recvMem sendMem w o.uIP := rfl
  unfold ServerWorld.accepted
  rw [hconnect, onNewConnec, if_neg (by rw [hip]; decide)]
  simp only [hidle, ServerWorld.onClient, World.close, Function.update_idem, Function.update_self,
    ClientSocket.setFd, if_neg hfd]
  refine ⟨rfl, rfl, ?_, ?_, ?_, ?_, p, hidle, rfl⟩
  · dsimp only
    rw [Function.update_self]
    rfl
  · dsimp only
    rw [Function.update_self]
    rfl
  · dsimp only
    rw [Function.update_self]
    rfl
  · exact congrArg Connection.nStatus ((goneOnline_connection hidle i).trans (if_pos rfl))

/-- A server that has its callback takes in whoever is welcome. -/
theorem accept_takenIn {w : ServerWorld NetServer} (hfun : w.server.funOnConnect = true)
    {o : SocketApi.AcceptOutcome} (ho : Welcome w o) (recvMem sendMem : Memory) :
    ∃ i, TakenIn w o (w.accept (callbacks recvMem sendMem) o) i := by
  obtain ⟨i, hi⟩ := Option.ne_none_iff_exists'.mp ho.room
  have happ := w.fdBit_app w.server.socketFd
  have hserver := w.fdBit_server w.server.socketFd
  have hidle : w.app.connectionPool.getIdleConnect =
      (some i, w.app.connectionPool.getIdleConnect.2) := by rw [← hi]
  have htaken := accepted_takenIn { w.fdBit w.server.socketFd with
    opened := (w.fdBit w.server.socketFd).opened ++ [o.fd] } ho.fd ho.ip
    ((congrArg (fun s => s.connectionPool.getIdleConnect) happ).trans hidle) recvMem sendMem
  refine ⟨i, ?_⟩
  rw [ServerWorld.accept, if_neg (by rw [hfun]; decide)]
  dsimp only
  rw [if_neg ho.select, if_pos ho.isSet, if_neg ho.fd, if_neg (by rw [ho.setNonBlock]; decide)]
  obtain ⟨hanswer, hlisted, hsocketFd, hstatus, huIP, hserves, p, hp, hleft⟩ := htaken
  refine ⟨hanswer, hlisted.trans ?_, hsocketFd, hstatus, huIP, hserves, p, ?_, hleft.trans ?_⟩
  · exact congrArg (fun s : ServerSocket => s.clientContainer ++ [i]) hserver
  · exact (congrArg (fun s : NetServer => s.connectionPool.getIdleConnect) happ).symm.trans hp
  · exact congrArg (fun s : NetServer => s.goneOnline p i) happ

/-- **A deaf server**: as long as no `open` has failed behind `socket`, whoever is welcome is taken in;
and once one has, nobody ever is again, whatever happens. -/
theorem accepts_until (hrun : ActionSystem.run NetServer.act (start s) as = some w) :
    ((∀ a ∈ as, ¬ClosesAgain a) → ∀ recvMem sendMem o, Welcome w o →
      ∃ i, TakenIn w o (w.accept (callbacks recvMem sendMem) o) i) ∧
    ((∃ a ∈ as, ClosesAgain a) → ∀ bs w', ActionSystem.run NetServer.act w bs = some w' →
      acceptedCount w' = acceptedCount w ∧
        ∀ recvMem sendMem o, w'.accept (callbacks recvMem sendMem) o = (false, w')) := by
  have hfun : w.server.funOnConnect = true ↔ ∀ a ∈ as, ¬ClosesAgain a := by
    rw [run_funOnConnect hrun]
    exact and_iff_right rfl
  constructor
  · intro hnone recvMem sendMem o ho
    exact accept_takenIn (hfun.mpr hnone) ho recvMem sendMem
  · rintro ⟨a, ha, hcloses⟩ bs w' hlater
    have hdeaf : w.server.funOnConnect = false := by
      rw [Bool.eq_false_iff, ne_eq, hfun]
      exact fun hnone => hnone a ha hcloses
    obtain ⟨hdeaf', hcount⟩ := ((ActionSystem.Reachable.refl _ _).run hlater).invariant
      (I := fun v => v.server.funOnConnect = false ∧ acceptedCount v = acceptedCount w)
      ⟨hdeaf, rfl⟩ (fun v b v' hv hb => by
        obtain ⟨hdeaf', hcount⟩ := deaf_act hv.1 hb
        exact ⟨hdeaf', hcount.trans hv.2⟩)
    exact ⟨hcount, fun recvMem sendMem o => by rw [ServerWorld.accept, if_pos hdeaf']⟩

/-- The address is taken at first, and free later. -/
def lateListens : List NetAction := [.openServer ⟨3, true, false, true, true, true, true⟩, listens]

theorem visitor_welcome : Welcome (start quietService) visitor where
  select := by decide
  isSet := rfl
  fd := by decide
  setNonBlock := rfl
  ip := by decide
  room := by decide

/-- A server that listens at once takes its visitor in; one that listens late does not. -/
theorem accepts_until_late :
    (∃ w i, ActionSystem.run NetServer.act (start quietService) [listens] = some w ∧
      TakenIn w visitor (w.accept (callbacks (fun _ => 0) fun _ => 0) visitor) i) ∧
    ∃ w, ActionSystem.run NetServer.act (start quietService) lateListens = some w ∧
      w.accept (callbacks (fun _ => 0) fun _ => 0) visitor = (false, w) := by
  obtain ⟨w, hw⟩ : ∃ w, ActionSystem.run NetServer.act (start quietService) [listens] = some w :=
    ⟨_, rfl⟩
  obtain ⟨late, hlate⟩ :
      ∃ w, ActionSystem.run NetServer.act (start quietService) lateListens = some w := ⟨_, rfl⟩
  have hopens : ∀ a ∈ [listens], ¬ClosesAgain a := by
    intro a ha hcloses
    rw [List.mem_singleton.mp ha] at hcloses
    exact absurd hcloses.2 (by decide)
  have hwelcome : Welcome w visitor := by
    obtain rfl := Option.some.inj hw
    exact ⟨visitor_welcome.select, rfl, visitor_welcome.fd, rfl, visitor_welcome.ip,
      visitor_welcome.room⟩
  have hdeaf : ∃ a ∈ lateListens, ClosesAgain a := ⟨_, .head _, Int.noConfusion, rfl⟩
  obtain ⟨i, hi⟩ := (accepts_until hw).1 hopens (fun _ => 0) (fun _ => 0)
    visitor hwelcome
  exact ⟨⟨w, i, hw, hi⟩, late, hlate,
    ((accepts_until hlate).2 hdeaf [] late rfl).2 _ _ _⟩

end Deaf

end NetServer

end MmDriver

import MmDriver.Laws.Network.ClientLife
import MmDriver.Laws.Network.DisconnectOnce
import MmDriver.Network.ServerSocket

/-!
# What a call on a client leaves

The callbacks of a server leave their connection alone and change the application's state only
(`AppOnly`). So a call on a connection that serves leaves it serving, or lost with the application
told (`KeptOrLost`). And what the callbacks keep is kept by every call on any connection, if it is
about the application and the descriptors only (`Stable`).
-/

namespace MmDriver

open ByteMem

namespace World

variable {ω : Type}

/-- A connection with both callbacks. -/
structure Serving (c : ClientSocket) : Prop where
  live : c.Live
  onDisConnect : c.funOnDisConnect = true
  onRecvMessage : c.funOnRecvMessage = true
  room : c.recvBufferLen ≤ maxC2sPkgSize

theorem Serving.sendOnly {c c' : ClientSocket} (h : Serving c) (hsend : SendOnly c c') :
    Serving c' := by
  have hlive := hsend.live h.live
  rw [SendOnly] at hsend
  refine ⟨hlive, ?_, ?_, ?_⟩
  · rw [hsend]
    exact h.onDisConnect
  · rw [hsend]
    exact h.onRecvMessage
  · rw [hsend]
    exact h.room

theorem Serving.atStop {w : World ω} (h : Serving w.socket) : Serving w.atStop.socket := by
  have hread := offers_length_le w.net.recvs (maxC2sPkgSize - w.socket.recvBufferLen)
  have hroom := h.room
  refine ⟨h.live, h.onDisConnect, h.onRecvMessage, ?_⟩
  simp only [World.atStop, gathered]
  omega

theorem Serving.valid {c : ClientSocket} (h : Serving c) : c.valid = true := by
  obtain ⟨hstatus, hfd⟩ := h.live
  simp [ClientSocket.valid, hstatus, hfd]

/-- A serving connection is none that was lost. -/
theorem Serving.ne_new {c : ClientSocket} (h : Serving c) : c ≠ ClientSocket.new := by
  rintro rfl
  exact absurd h.live (by decide)

/-- The same descriptor and the same peer. -/
structure Steady (c c' : ClientSocket) : Prop where
  socketFd : c'.socketFd = c.socketFd
  uIP : c'.uIP = c.uIP

theorem Steady.refl (c : ClientSocket) : Steady c c := ⟨rfl, rfl⟩

theorem Steady.of_sendOnly {c c' : ClientSocket} (h : SendOnly c c') : Steady c c' := by
  rw [SendOnly] at h
  constructor
  · rw [h]
  · rw [h]

/-- Callbacks that change the application's state only: `left` when the connection is lost. -/
structure AppOnly (cb : Callbacks ω) (left : ω → ω) : Prop where
  onDisConnect : ∀ w, cb.onDisConnect w = { w with app := left w.app }
  onRecvMessage : ∀ w m n, ∃ a, (cb.onRecvMessage w m n).2 = { w with app := a }

/-- The connection `c` serves on, or it is lost and the application told. -/
def KeptOrLost (left : ω → ω) (c : ClientSocket) (a : ω) (w : World ω) : Prop :=
  Serving w.socket ∧ Steady c w.socket ∧ w.app = a ∨ w.socket = ClientSocket.new ∧ w.app = left a

section Calls

variable {cb : Callbacks ω} {left : ω → ω} (hcb : AppOnly cb left) {w : World ω}

include hcb

theorem disconnect_serving (h : w.socket.funOnDisConnect = true) :
    (disconnect cb w).socket = ClientSocket.new ∧ (disconnect cb w).app = left w.app := by
  rw [disconnect, if_pos h, hcb.onDisConnect]
  exact ⟨rfl, rfl⟩

theorem afterCallback_serving (h : Serving w.socket) (iRet : ConnErrorCode) (nReadLen : Int) :
    KeptOrLost left w.socket w.app (afterCallback cb iRet nReadLen w).2 := by
  have hmax : maxC2sPkgSize = 5120 := rfl
  have hroom := h.room
  unfold afterCallback
  split
  · exact .inr (disconnect_serving hcb h.onDisConnect)
  · split
    · exact .inl ⟨h, .refl _, rfl⟩
    · split
      · exact .inl ⟨h, .refl _, rfl⟩
      · next hmore =>
        rw [TInt32.ofNat_eq (by omega)] at hmore
        have hle : SizeT.sub w.socket.recvBufferLen nReadLen.toNat ≤ maxC2sPkgSize := by
          rw [SizeT.sub_eq (by omega) (by omega)]
          omega
        exact .inl ⟨⟨h.live, h.onDisConnect, h.onRecvMessage, hle⟩, ⟨rfl, rfl⟩, rfl⟩

/-- `recv_ex` on a serving connection: the receive callback is called, or not. -/
theorem recvEx_serving (h : Serving w.socket) : ∃ a,
    (a = w.app ∨ a = (cb.onRecvMessage w.atStop w.atStop.socket.recvBuffer
      w.atStop.socket.recvBufferLen).2.app) ∧ KeptOrLost left w.socket a (recvEx cb w).2 := by
  have hstop := h.atStop
  have hcalls : w.stopOf = .full ∨ w.stopOf = .wouldBlock → ∃ a,
      (a = w.app ∨ a = (cb.onRecvMessage w.atStop w.atStop.socket.recvBuffer
        w.atStop.socket.recvBufferLen).2.app) ∧ KeptOrLost left w.socket a (recvEx cb w).2 := by
    intro hwhy
    obtain ⟨a, ha⟩ := hcb.onRecvMessage w.atStop w.atStop.socket.recvBuffer
      w.atStop.socket.recvBufferLen
    rw [recvEx_calls cb h.live h.room h.onRecvMessage hwhy, ha]
    refine ⟨a, .inr rfl, ?_⟩
    rcases afterCallback_serving hcb (w := { w.atStop with app := a }) hstop _ _ with
      ⟨hserving, hsteady, happ⟩ | hlost
    · exact .inl ⟨hserving, ⟨hsteady.socketFd, hsteady.uIP⟩, happ⟩
    · exact .inr hlost
  have hlost : w.stopOf = .closed ∨ w.stopOf = .error → ∃ a,
      (a = w.app ∨ a = (cb.onRecvMessage w.atStop w.atStop.socket.recvBuffer
        w.atStop.socket.recvBufferLen).2.app) ∧ KeptOrLost left w.socket a (recvEx cb w).2 := by
    intro hwhy
    rw [recvEx_lost cb h.live h.room h.onRecvMessage hwhy]
    exact ⟨w.app, .inl rfl, .inr (disconnect_serving hcb hstop.onDisConnect)⟩
  cases hwhy : w.stopOf with
  | full => exact hcalls (.inl hwhy)
  | wouldBlock => exact hcalls (.inr hwhy)
  | closed => exact hlost (.inl hwhy)
  | error => exact hlost (.inr hwhy)

/-- `send_data` on a serving connection. -/
theorem sendData_serving (h : Serving w.socket) (data : Option (Nat → UInt8)) (size : Nat) :
    KeptOrLost left w.socket w.app (sendData cb w data size).2 := by
  have hspec := senderStep_spec cb w (.sendData data size)
  by_cases hfails : SendDetects w (.sendData data size)
  · obtain ⟨v, hside, heq⟩ := hspec.fails hfails
    have hv := h.sendOnly hside.socket
    obtain ⟨hnew, happ⟩ := disconnect_serving hcb (w := v) hv.onDisConnect
    change (sendData cb w data size).2 = _ at heq
    rw [heq]
    exact .inr ⟨hnew, by rw [happ, hside.app]⟩
  · have hside := hspec.sends hfails
    exact .inl ⟨h.sendOnly hside.socket, .of_sendOnly hside.socket, hside.app⟩

end Calls

/-! ## What the callbacks keep -/

/-- The same application, and the same descriptors opened, closed and held. -/
structure Alike (w w' : World ω) : Prop extends SameOwner w w' where
  app : w'.app = w.app

/-- A property of these that closing keeps. -/
structure Stable (I : World ω → Prop) : Prop where
  alike : ∀ {w w' : World ω}, Alike w w' → I w → I w'
  close : ∀ w, I w → I w.close

section Keeps

variable {I : World ω → Prop} {cb : Callbacks ω} (hI : Stable I) (hcb : Keeping I cb) {w : World ω}

include hI hcb

theorem Stable.disconnect (h : I w) : I (disconnect cb w) := by
  unfold World.disconnect
  split
  · exact hI.close _ (hcb.onDisConnect w h)
  · exact hI.close w h

theorem Stable.recvLoop (h : I w) : I (recvLoop cb w).2 := by
  have hread : ∀ (w : World ω) len, I w → I { w with net := (SocketApi.recvEx w.net len).net } :=
    fun w len hw => hI.alike ⟨recvEx_sameOwner w len, rfl⟩ hw
  fun_induction World.recvLoop cb w with
  | case1 w usBuffSize hroom r hpos ih =>
    have hnext : Alike { w with net := r.net } (w.received r) := ⟨⟨rfl, rfl, rfl⟩, rfl⟩
    exact ih (hI.alike hnext (hread w usBuffSize h))
  | case2 w usBuffSize hroom r hpos hzero => exact hI.disconnect hcb (hread w usBuffSize h)
  | case3 w usBuffSize hroom r hpos hzero hblock => exact hread w usBuffSize h
  | case4 w usBuffSize hroom r hpos hzero hblock => exact hI.disconnect hcb (hread w usBuffSize h)
  | case5 w usBuffSize hroom => exact h

theorem Stable.recvData (h : I w) : I (recvData cb w).2 := by
  unfold World.recvData
  split
  · exact hI.recvLoop hcb h
  · exact h

theorem Stable.afterCallback (h : I w) (iRet : ConnErrorCode) (nReadLen : Int) :
    I (afterCallback cb iRet nReadLen w).2 := by
  unfold World.afterCallback
  split
  · exact hI.disconnect hcb h
  · split
    · exact h
    · split
      · exact h
      · have hnext : Alike w (w.consumed nReadLen.toNat) := ⟨⟨rfl, rfl, rfl⟩, rfl⟩
        exact hI.alike hnext h

theorem Stable.recvEx (h : I w) : I (recvEx cb w).2 := by
  have hdata := hI.recvData hcb h
  unfold World.recvEx
  split
  · exact h
  · dsimp only
    split
    · exact hI.afterCallback hcb (hcb.onRecvMessage _ _ _ hdata) _ _
    · exact hI.disconnect hcb hdata

theorem Stable.sendFresh (h : I w) (data : Nat → UInt8) (size : Nat) :
    I (sendFresh cb w data size).2 := by
  have hloop := sendLoop_sendsUpTo w.net data size
  unfold World.sendFresh
  generalize sendLoop w.net data size = r at hloop
  have hsent : I { w with net := r.net } := hI.alike ⟨⟨hloop.opened, hloop.closed, rfl⟩, rfl⟩ h
  obtain ⟨stop, accepted, net⟩ := r
  cases stop with
  | drained => exact hsent
  | stalled =>
    have hnext : Alike { w with net := net } { w with
        net := net
        socket := appended w.socket (fun i => data (accepted + i)) (size - accepted) } :=
      ⟨⟨rfl, rfl, rfl⟩, rfl⟩
    exact hI.alike hnext hsent
  | failed => exact hI.disconnect hcb hsent

theorem Stable.sendData (h : I w) (data : Option (Nat → UInt8)) (size : Nat) :
    I (sendData cb w data size).2 := by
  have hflush : I (flush w).2 := hI.alike ⟨flush_sameOwner w, rfl⟩ h
  cases data with
  | none => exact h
  | some data =>
    unfold World.sendData
    generalize flush w = r at hflush
    obtain ⟨stop, w'⟩ := r
    dsimp only at hflush ⊢
    split
    · exact h
    · split
      · exact h
      · cases stop with
        | drained =>
          have hnext : Alike w' w'.rewound := ⟨⟨rfl, rfl, rfl⟩, rfl⟩
          exact hI.sendFresh hcb (hI.alike hnext hflush) data size
        | stalled =>
          have hnext : Alike w' { w' with socket := (cache w'.socket data size
              (SizeT.sub w'.socket.sendTail w'.socket.sendHead)).2 } :=
            ⟨⟨rfl, rfl, cache_socketFd _ _ _ _⟩, rfl⟩
          exact hI.alike hnext hflush
        | failed => exact hI.disconnect hcb hflush

end Keeps

/-- What depends on the application only. -/
theorem stable_app (I : ω → Prop) : Stable fun w : World ω => I w.app :=
  ⟨fun h hw => h.app.symm ▸ hw, fun _ hw => hw⟩

/-- The descriptors that were opened. -/
theorem stable_opened (l : List Int) : Stable fun w : World ω => w.net.opened = l := by
  refine ⟨fun h hw => h.opened.trans hw, fun w hw => ?_⟩
  unfold World.close
  dsimp only
  split
  · exact hw
  · exact hw

/-- What does not depend on the application. -/
theorem AppOnly.keeping {I : World ω → Prop} {cb : Callbacks ω} {left : ω → ω} (hcb : AppOnly cb left)
    (happ : ∀ w a, I w → I { w with app := a }) : Keeping I cb where
  onDisConnect w h := by
    rw [hcb.onDisConnect]
    exact happ w _ h
  onRecvMessage w m n h := by
    obtain ⟨a, ha⟩ := hcb.onRecvMessage w m n
    rw [ha]
    exact happ w a h

theorem stable_owned : Stable (Owned (ω := ω)) :=
  ⟨fun h hw => h.toSameOwner.owned hw, fun _ hw => hw.close⟩

end World

/-! ## The clients of a server -/

namespace ServerWorld

variable {ω : Type}

/-- A client with its application. -/
def client (w : ServerWorld ω) (i : Nat) : World ω :=
  ⟨(w.clients i).socket, (w.clients i).net, w.app⟩

/-- A call on a client leaves the others alone. -/
theorem onClient_clients {α : Type} (w : ServerWorld ω) {i j : Nat} (call : World ω → α × World ω)
    (h : j ≠ i) : (w.onClient i call).2.clients j = w.clients j := Function.update_of_ne h _ _

theorem fdBit_clients (w : ServerWorld ω) (fd : Int) : (w.fdBit fd).clients = w.clients := by
  unfold fdBit
  split <;> rfl

theorem fdBit_app (w : ServerWorld ω) (fd : Int) : (w.fdBit fd).app = w.app := by
  unfold fdBit
  split <;> rfl

theorem fdBit_server (w : ServerWorld ω) (fd : Int) : (w.fdBit fd).server = w.server := by
  unfold fdBit
  split <;> rfl

/-- The bits of a list of clients. -/
theorem foldl_fdBit (ids : List Nat) (w : ServerWorld ω) :
    let w' := ids.foldl (fun w i => w.fdBit (w.clients i).socket.socketFd) w
    w'.clients = w.clients ∧ w'.app = w.app ∧ w'.server = w.server := by
  induction ids generalizing w with
  | nil => exact ⟨rfl, rfl, rfl⟩
  | cons i ids ih =>
    obtain ⟨hclients, happ, hserver⟩ := ih (w.fdBit (w.clients i).socket.socketFd)
    exact ⟨hclients.trans (fdBit_clients w _), happ.trans (fdBit_app w _),
      hserver.trans (fdBit_server w _)⟩

theorem purge_spec (w : ServerWorld ω) :
    w.purge.clients = w.clients ∧ w.purge.app = w.app ∧ w.purge.server = { w.server with
      clientContainer := w.server.clientContainer.filter fun i => (w.clients i).socket.valid } :=
  foldl_fdBit _ _

/-- The calls behind `socket` succeed. -/
def listens (o : SocketApi.ListenOutcome) : Bool :=
  o.reuseAddr && o.bind && o.sndBuf && o.rcvBuf && o.listen && o.setNonBlock

/-- The server with a socket. -/
def withSocket (w : ServerWorld ω) (fd : Int) : ServerWorld ω :=
  { w with server := { w.server with socketFd := fd }, opened := w.opened ++ [fd] }

/-- `open` gets no socket, or keeps it, or closes it again. -/
theorem openServer_eq (w : ServerWorld ω) (o : SocketApi.ListenOutcome) : w.openServer o =
    if o.socket = invalidSocket then
      (false, { w with server := { w.server with socketFd := o.socket } })
    else if listens o then (true, w.withSocket o.socket)
    else (false, (w.withSocket o.socket).closeServer) := by
  unfold openServer
  dsimp only
  split
  · rfl
  · obtain ⟨fd, reuseAddr, bind, sndBuf, rcvBuf, listen, setNonBlock⟩ := o
    cases reuseAddr with
    | false => rfl
    | true => cases bind with
      | false => rfl
      | true => cases sndBuf with
        | false => rfl
        | true => cases rcvBuf with
          | false => rfl
          | true => cases listen with
            | false => rfl
            | true => cases setNonBlock with
              | false => rfl
              | true => rfl

/-- A property that the bits, the first loop and each client keep. -/
structure RecvKeeps (cb : ServerCallbacks ω) (I : ServerWorld ω → Prop) : Prop where
  fdBit : ∀ w fd, I w → I (w.fdBit fd)
  purge : ∀ w, I w → I { w with server := { w.server with
    clientContainer := w.server.clientContainer.filter fun i => (w.clients i).socket.valid } }
  recvEx : ∀ w i, I w → I (w.onClient i (World.recvEx (cb.client i))).2

section Recv

variable {cb : ServerCallbacks ω} {I : ServerWorld ω → Prop} {w : ServerWorld ω}

theorem RecvKeeps.visit (hI : RecvKeeps cb I) (h : I w) (ready : Int → Bool) (i : Nat) :
    I (visit cb ready w i) := by
  have hbit := hI.fdBit w (w.clients i).socket.socketFd h
  unfold ServerWorld.visit
  dsimp only
  split
  · exact hI.recvEx _ i hbit
  · exact hbit

theorem RecvKeeps.foldl {f : ServerWorld ω → Nat → ServerWorld ω} (hf : ∀ w i, I w → I (f w i))
    (h : I w) (ids : List Nat) : I (ids.foldl f w) := by
  induction ids generalizing w with
  | nil => exact h
  | cons i ids ih => exact ih (hf w i h)

/-- `recv` keeps it. -/
theorem RecvKeeps.recv (hI : RecvKeeps cb I) (h : I w) (o : SocketApi.SelectOutcome) :
    I (w.recv cb o).2 := by
  have hpurge : I w.purge := RecvKeeps.foldl (fun w i => hI.fdBit w _) (hI.purge w h) _
  unfold ServerWorld.recv
  dsimp only
  split
  · split
    · exact hpurge
    · exact RecvKeeps.foldl (I := I) (fun w i hw => hI.visit hw o.ready i) hpurge _
  · exact hpurge

end Recv

end ServerWorld

end MmDriver

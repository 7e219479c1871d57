import MmDriver.Laws.Network.ClientSend

/-!
# The life of a descriptor

A connection holds at most one descriptor, and `close` is the only member that closes it: the
descriptors that were opened are those that were closed and the one that is held (`Owned`). Every
call keeps this, with one exception: `connect_nonblock` closes the descriptor of a pending attempt
that fails, and `connect` then closes it again.

The callbacks are the application's. What is assumed of them is that they act on the connection
through its calls (`ThroughCalls`).
-/

namespace MmDriver

open ByteMem CallMachine

namespace World

variable {ω : Type}

/-! ## Ownership -/

/-- The descriptor a connection holds, if it holds one. -/
def held (c : ClientSocket) : List Int := if c.socketFd = invalidSocket then [] else [c.socketFd]

/-- What was opened is what was closed and what is held. -/
def Owned (w : World ω) : Prop := w.net.opened.Perm (w.net.closed ++ held w.socket)

/-- The same descriptors are opened, closed and held. -/
structure SameOwner (w w' : World ω) : Prop where
  opened : w'.net.opened = w.net.opened
  closed : w'.net.closed = w.net.closed
  socketFd : w'.socket.socketFd = w.socket.socketFd

theorem SameOwner.owned {w w' : World ω} (h : SameOwner w w') (hw : Owned w) : Owned w' := by
  rw [Owned, held, h.opened, h.closed, h.socketFd]
  exact hw

theorem held_new : held ClientSocket.new = [] := rfl

theorem Owned.close {w : World ω} (h : Owned w) : Owned w.close := by
  unfold Owned World.close held at *
  rw [if_pos (show ClientSocket.new.socketFd = invalidSocket from rfl), List.append_nil]
  by_cases hfd : w.socket.socketFd = invalidSocket
  · rw [if_pos hfd, List.append_nil] at h
    rwa [if_neg (not_not.mpr hfd)]
  · rw [if_neg hfd] at h
    rwa [if_pos hfd]

/-- Callbacks that keep a property of the connection. -/
structure Keeping (I : World ω → Prop) (cb : Callbacks ω) : Prop where
  onDisConnect : ∀ w, I w → I (cb.onDisConnect w)
  onRecvMessage : ∀ w m n, I w → I (cb.onRecvMessage w m n).2

section Calls

variable {cb : Callbacks ω} (hcb : Keeping Owned cb) {w : World ω}

include hcb in
theorem Owned.disconnect (h : Owned w) : Owned (disconnect cb w) := by
  unfold World.disconnect
  split
  · exact (hcb.onDisConnect w h).close
  · exact h.close

/-- Reading leaves the descriptors alone. -/
theorem recvEx_sameOwner (w : World ω) (len : Nat) :
    SameOwner w { w with net := (SocketApi.recvEx w.net len).net } := by
  unfold SocketApi.recvEx
  split <;> exact ⟨rfl, rfl, rfl⟩

include hcb in
theorem Owned.recvLoop (h : Owned w) : Owned (recvLoop cb w).2 := by
  fun_induction World.recvLoop cb w with
  | case1 w usBuffSize hroom r hread ih =>
    refine ih ?_
    have hsame := recvEx_sameOwner w usBuffSize
    have hnext : SameOwner w (w.received r) := ⟨hsame.opened, hsame.closed, rfl⟩
    exact hnext.owned h
  | case2 w usBuffSize hroom r hread hzero =>
    exact Owned.disconnect hcb ((recvEx_sameOwner w usBuffSize).owned h)
  | case3 w usBuffSize hroom r hread hzero hblock => exact (recvEx_sameOwner w usBuffSize).owned h
  | case4 w usBuffSize hroom r hread hzero hblock =>
    exact Owned.disconnect hcb ((recvEx_sameOwner w usBuffSize).owned h)
  | case5 w usBuffSize hroom => exact h

include hcb in
theorem Owned.recvData (h : Owned w) : Owned (recvData cb w).2 := by
  unfold World.recvData
  split
  · exact h.recvLoop hcb
  · exact h

include hcb in
theorem Owned.afterCallback (h : Owned w) (iRet : ConnErrorCode) (nReadLen : Int) :
    Owned (afterCallback cb iRet nReadLen w).2 := by
  unfold World.afterCallback
  split
  · exact h.disconnect hcb
  · split
    · exact h
    · split <;> exact h

include hcb in
theorem Owned.recvEx (h : Owned w) : Owned (recvEx cb w).2 := by
  have hdata := h.recvData hcb
  unfold World.recvEx
  generalize World.recvData cb w = r at hdata
  split
  · exact h
  · dsimp only
    split
    · exact Owned.afterCallback hcb (hcb.onRecvMessage _ _ _ hdata) _ _
    · exact hdata.disconnect hcb

/-- Writing leaves the descriptors alone. -/
theorem flush_sameOwner (w : World ω) : SameOwner w (flush w).2 := by
  have hloop := sendLoop_sendsUpTo w.net (sendPtr w.socket)
    (SizeT.sub w.socket.sendTail w.socket.sendHead)
  rw [flush]
  exact ⟨hloop.opened, hloop.closed, rfl⟩

theorem cache_socketFd (c : ClientSocket) (data : Nat → UInt8) (size dataRemainedBytes : Nat) :
    (cache c data size dataRemainedBytes).2.socketFd = c.socketFd := by
  unfold cache
  split
  · rfl
  · split <;> rfl

theorem Owned.cache (h : Owned w) (data : Nat → UInt8) (size dataRemainedBytes : Nat) :
    Owned { w with socket := (World.cache w.socket data size dataRemainedBytes).2 } := by
  have hsame : SameOwner w
      { w with socket := (World.cache w.socket data size dataRemainedBytes).2 } :=
    ⟨rfl, rfl, cache_socketFd _ _ _ _⟩
  exact hsame.owned h

theorem Owned.sendCache (h : Owned w) (data : Option (Nat → UInt8)) (size : Nat) :
    Owned (sendCache w data size).2 := by
  cases data with
  | none => exact h
  | some data =>
    unfold World.sendCache
    dsimp only
    split
    · exact h
    · split
      · exact h
      · exact h.cache _ _ _

include hcb in
theorem Owned.sendCacheData (h : Owned w) : Owned (sendCacheData cb w).2 := by
  have hflush := (flush_sameOwner w).owned h
  unfold World.sendCacheData
  generalize flush w = r at hflush
  obtain ⟨stop, w'⟩ := r
  split
  · exact h
  · cases stop with
    | drained => exact hflush
    | stalled => exact hflush
    | failed => exact hflush.disconnect hcb

include hcb in
theorem Owned.sendFresh (h : Owned w) (data : Nat → UInt8) (size : Nat) :
    Owned (sendFresh cb w data size).2 := by
  have hloop := sendLoop_sendsUpTo w.net data size
  unfold World.sendFresh
  generalize sendLoop w.net data size = r at hloop
  have hsame : SameOwner w { w with net := r.net } := ⟨hloop.opened, hloop.closed, rfl⟩
  have hsent := hsame.owned h
  obtain ⟨stop, accepted, net⟩ := r
  cases stop with
  | drained => exact hsent
  | stalled => exact hsent
  | failed => exact hsent.disconnect hcb

include hcb in
theorem Owned.sendData (h : Owned w) (data : Option (Nat → UInt8)) (size : Nat) :
    Owned (sendData cb w data size).2 := by
  have hflush := (flush_sameOwner w).owned h
  cases data with
  | none => exact h
  | some data =>
    unfold World.sendData
    generalize flush w = r at hflush
    obtain ⟨stop, w'⟩ := r
    dsimp only at hflush ⊢
    split
    · exact h
    · split
      · exact h
      · cases stop with
        | drained => exact Owned.sendFresh hcb (w := w'.rewound) hflush data size
        | stalled => exact hflush.cache _ _ _
        | failed => exact hflush.disconnect hcb

/-! ## Opening and connecting -/

theorem Owned.open (h : Owned w) (localIp : Bool) (o : SocketApi.OpenOutcome) :
    Owned (World.open w localIp o).2 := by
  have hclosed : w.close.net.opened.Perm w.close.net.closed := by
    have hperm := h.close
    rw [Owned, show w.close.socket = ClientSocket.new from rfl, held_new, List.append_nil] at hperm
    exact hperm
  unfold World.open SocketApi.socketEx
  dsimp only
  by_cases hfd : o.socket = invalidSocket
  · rw [if_pos hfd]
    exact h.close
  · rw [if_neg hfd]
    dsimp only
    rw [if_neg hfd]
    have hopened : ∀ status, Owned
        { w.close with
          net := { w.close.net with
            recvs := o.recvs, sends := o.sends, opened := w.close.net.opened ++ [o.socket] }
          socket := { w.close.socket with socketFd := o.socket, socketStatus := status } } := by
      intro status
      rw [Owned, held, if_neg hfd]
      exact hclosed.append_right _
    split
    · exact (hopened .closed).close
    · exact hopened .opened

end Calls

/-- The attempt was pending and then failed in a way in which `connect_nonblock` closes the
descriptor. -/
def ClosesInside (timeout : Int) (o : SocketApi.ConnectOutcome) : Prop :=
  0 ≤ timeout ∧ o.setNonBlock = true ∧ o.connect = .inProgress ∧
    (o.select ≤ 0 ∨ o.isSet = false ∨ o.getsockopt = false ∨ o.soError ≠ 0)

instance (timeout : Int) (o : SocketApi.ConnectOutcome) : Decidable (ClosesInside timeout o) :=
  inferInstanceAs (Decidable (_ ∧ _))

/-- `connect_nonblock` closes the descriptor exactly in these cases. -/
theorem connectNonblock_closesInside {timeout : Int} {o : SocketApi.ConnectOutcome}
    (h : ClosesInside timeout o) (net : Net) (s : Int) :
    SocketApi.connectNonblock net s timeout o = (false, SocketApi.closesocketEx net s) := by
  obtain ⟨htimeout, hnonblock, hpending, hfailed⟩ := h
  unfold SocketApi.connectNonblock
  rw [if_neg (Int.not_lt.mpr htimeout), if_neg (by simp [hnonblock]), hpending]
  dsimp only
  split
  · rfl
  · next hselect =>
    split
    · next hset =>
      split
      · rfl
      · next hopt =>
        split
        · rfl
        · next herr => simp_all
    · rfl

theorem connectNonblock_leaves {timeout : Int} {o : SocketApi.ConnectOutcome}
    (h : ¬ClosesInside timeout o) (net : Net) (s : Int) :
    (SocketApi.connectNonblock net s timeout o).2 = net := by
  unfold SocketApi.connectNonblock
  split
  · rfl
  · next htimeout =>
    split
    · rfl
    · next hnonblock =>
      have hpending : o.connect = .inProgress →
          ¬(o.select ≤ 0 ∨ o.isSet = false ∨ o.getsockopt = false ∨ o.soError ≠ 0) :=
        fun hstart hfailed =>
          h ⟨Int.not_lt.mp htimeout, Bool.eq_true_of_not_eq_false hnonblock, hstart, hfailed⟩
      split
      · rfl
      · rfl
      · next hstart =>
        obtain ⟨hselect, hset, hopt, herr⟩ : ¬o.select ≤ 0 ∧ ¬o.isSet = false ∧
            ¬o.getsockopt = false ∧ ¬o.soError ≠ 0 := by
          simpa only [not_or] using hpending hstart
        rw [if_neg hselect, if_pos (Bool.eq_true_of_not_eq_false hset), if_neg hopt, if_neg herr]

/-- `connect` keeps the descriptors when `connect_nonblock` leaves the closing to it. -/
theorem Owned.connect {w : World ω} (h : Owned w) {timeout : Int} {o : SocketApi.ConnectOutcome}
    (hleaves : ¬ClosesInside timeout o) : Owned (connect w timeout o).2 := by
  have hnet := connectNonblock_leaves hleaves w.net w.socket.socketFd
  unfold World.connect
  split
  · exact h
  · generalize SocketApi.connectNonblock w.net w.socket.socketFd timeout o = r at hnet
    obtain ⟨ret, net⟩ := r
    subst hnet
    dsimp only
    split
    · exact h.close
    · split
      · exact h.close
      · exact h

/-! ## Calls and runs -/

/-- What an application and its poll loop may call. -/
inductive ClientCall where
  | «open» (localIp : Bool) (o : SocketApi.OpenOutcome)
  | connect (timeout : Int) (o : SocketApi.ConnectOutcome)
  | recvEx
  | sendData (data : Option (Nat → UInt8)) (size : Nat)
  | sendCache (data : Option (Nat → UInt8)) (size : Nat)
  | sendCacheData
  | disconnect
  | close
  | setBufSize (nRecvBufSize nSendBufSize : Nat) (recvMem sendMem : Memory)
  | setOnDisConnectFun
  | setOnRecvMessageFun

/-- One call. -/
def clientStep (cb : Callbacks ω) (w : World ω) : ClientCall → World ω × Unit
  | .open localIp o => ((World.open w localIp o).2, ())
  | .connect timeout o => ((World.connect w timeout o).2, ())
  | .recvEx => ((World.recvEx cb w).2, ())
  | .sendData data size => ((World.sendData cb w data size).2, ())
  | .sendCache data size => ((World.sendCache w data size).2, ())
  | .sendCacheData => ((World.sendCacheData cb w).2, ())
  | .disconnect => (World.disconnect cb w, ())
  | .close => (w.close, ())
  | .setBufSize r s mr ms => ({ w with socket := w.socket.setBufSize r s mr ms }, ())
  | .setOnDisConnectFun => ({ w with socket := { w.socket with funOnDisConnect := true } }, ())
  | .setOnRecvMessageFun => ({ w with socket := { w.socket with funOnRecvMessage := true } }, ())

/-- The call does not make `connect_nonblock` close the descriptor of the connection: it is no
`connect`, or finds nothing to connect, or meets other answers. -/
def LeavesClosing (w : World ω) : ClientCall → Prop
  | .connect timeout o =>
    w.socket.socketStatus = .opened → w.socket.socketFd ≠ invalidSocket → ¬ClosesInside timeout o
  | _ => True

/-- What a callback does: it changes the application's state and makes calls, in any order. -/
inductive CallbackRun (cb : Callbacks ω) : World ω → World ω → Prop where
  | done (w : World ω) : CallbackRun cb w w
  | app {w w' : World ω} (a : ω) : CallbackRun cb { w with app := a } w' → CallbackRun cb w w'
  | call {w w' : World ω} (k : ClientCall) : LeavesClosing w k →
      CallbackRun cb (clientStep cb w k).1 w' → CallbackRun cb w w'

/-- Callbacks that act on the connection only through its calls, none of which makes
`connect_nonblock` close the descriptor. The callbacks that run inside such a call are again of
this kind; those that make no calls end the nesting. -/
inductive ThroughCalls : Callbacks ω → Prop where
  | still {cb : Callbacks ω} (onDisConnect : ∀ w, ∃ a, cb.onDisConnect w = { w with app := a })
      (onRecvMessage : ∀ w m n, ∃ a, (cb.onRecvMessage w m n).2 = { w with app := a }) :
      ThroughCalls cb
  | nested {cb : Callbacks ω} (inner : World ω → Callbacks ω) (hinner : ∀ w, ThroughCalls (inner w))
      (onDisConnect : ∀ w, CallbackRun (inner w) w (cb.onDisConnect w))
      (onRecvMessage : ∀ w m n, CallbackRun (inner w) w (cb.onRecvMessage w m n).2) :
      ThroughCalls cb

/-- One call keeps the descriptors. -/
theorem Owned.step {cb : Callbacks ω} (hcb : Keeping Owned cb) {w : World ω} (h : Owned w)
    {k : ClientCall} (hk : LeavesClosing w k) : Owned (clientStep cb w k).1 := by
  cases k with
  | «open» localIp o => exact h.open localIp o
  | connect timeout o =>
    by_cases hready : w.socket.socketStatus = .opened ∧ w.socket.socketFd ≠ invalidSocket
    · exact h.connect (hk hready.1 hready.2)
    · have hnothing : World.connect w timeout o = (false, w) := by
        rw [World.connect, if_pos]
        rwa [not_and_or, not_not] at hready
      rw [clientStep, hnothing]
      exact h
  | recvEx => exact h.recvEx hcb
  | sendData data size => exact h.sendData hcb data size
  | sendCache data size => exact h.sendCache data size
  | sendCacheData => exact h.sendCacheData hcb
  | disconnect => exact h.disconnect hcb
  | close => exact h.close
  | setBufSize r s mr ms => exact h
  | setOnDisConnectFun => exact h
  | setOnRecvMessageFun => exact h

theorem CallbackRun.owned {cb : Callbacks ω} (hcb : Keeping Owned cb) {w w' : World ω}
    (hrun : CallbackRun cb w w') (h : Owned w) : Owned w' := by
  induction hrun with
  | done w => exact h
  | app a _ ih => exact ih h
  | call k hk _ ih => exact ih (h.step hcb hk)

/-- Callbacks that act through calls keep the descriptors. -/
theorem ThroughCalls.keeping {cb : Callbacks ω} (h : ThroughCalls cb) : Keeping Owned cb := by
  induction h with
  | still onDisConnect onRecvMessage =>
    constructor
    · intro w hw
      obtain ⟨a, ha⟩ := onDisConnect w
      exact ha ▸ hw
    · intro w m n hw
      obtain ⟨a, ha⟩ := onRecvMessage w m n
      exact ha ▸ hw
  | nested inner _ onDisConnect onRecvMessage ih =>
    constructor
    · exact fun w hw => (onDisConnect w).owned (ih w) hw
    · exact fun w m n hw => (onRecvMessage w m n).owned (ih w) hw

/-- No descriptor was closed more often than it was opened, and after `close` each was closed as
often as it was opened. -/
structure ClosedOnce (w : World ω) : Prop where
  once : ∀ fd, w.net.closed.count fd ≤ w.net.opened.count fd
  closes : ∀ fd, w.close.net.closed.count fd = w.close.net.opened.count fd

theorem Owned.closedOnce {w : World ω} (h : Owned w) : ClosedOnce w := by
  constructor
  · intro fd
    rw [h.count_eq fd, List.count_append]
    exact Nat.le_add_right _ _
  · intro fd
    have hclosed := h.close
    rw [hclosed.count_eq fd, List.count_append]
    rfl

/-- A descriptor that `connect_nonblock` has closed is closed again. -/
theorem Owned.connect_twice {w : World ω} (h : Owned w) {timeout : Int}
    {o : SocketApi.ConnectOutcome} (hopened : w.socket.socketStatus = .opened)
    (hfd : w.socket.socketFd ≠ invalidSocket) (hcloses : ClosesInside timeout o) :
    ¬ClosedOnce (World.connect w timeout o).2 := by
  intro honce
  have htwice : (World.connect w timeout o).2.net =
      { w.net with closed := w.net.closed ++ [w.socket.socketFd] ++ [w.socket.socketFd] } := by
    have hnone : ¬(w.socket.socketStatus ≠ .opened ∨ w.socket.socketFd = invalidSocket) := by
      rintro (hstatus | hfd')
      · exact hstatus hopened
      · exact hfd hfd'
    rw [World.connect, if_neg hnone, connectNonblock_closesInside hcloses]
    dsimp only
    rw [if_pos rfl]
    simp only [World.close, SocketApi.closesocketEx, if_pos hfd]
  have hcount := honce.once w.socket.socketFd
  rw [htwice] at hcount
  have hheld : held w.socket = [w.socket.socketFd] := if_neg hfd
  have howned := h.count_eq w.socket.socketFd
  rw [hheld] at howned
  simp only [List.count_append, List.count_singleton_self] at hcount howned
  omega

/-- **Each descriptor is closed once, over every run.** From a new connection, whatever the system
calls answer: the property holds after every call exactly when `connect_nonblock` never closes a
descriptor itself. -/
theorem closed_once_iff {cb : Callbacks ω} (hcb : ThroughCalls cb) {w : World ω}
    (hsocket : w.socket = ClientSocket.new) (hopened : w.net.opened = [])
    (hclosed : w.net.closed = []) (ks : List ClientCall) :
    Along (clientStep cb) (fun w k => ClosedOnce (clientStep cb w k).1) w ks ↔
      Along (clientStep cb) LeavesClosing w ks := by
  have hkeeps := hcb.keeping
  have hstart : Owned w := by
    rw [Owned, hsocket, hopened, hclosed, held_new]
    exact List.Perm.refl _
  refine Along.congr_invariant Owned (fun _ => True) ?_ ?_ hstart fun _ _ => trivial
  · exact fun w k _ h hk => h.step hkeeps hk
  · intro w k _ h
    constructor
    · intro honce
      cases k with
      | connect timeout o =>
        exact fun hopened hfd hcloses => h.connect_twice hopened hfd hcloses honce
      | _ => trivial
    · exact fun hk => (h.step hkeeps hk).closedOnce

/-! ## Two attempts -/

/-- A new connection. -/
def newConnection : World Unit := ⟨ClientSocket.new, ⟨[], [], [], [], []⟩, ()⟩

/-- The system gives the descriptor 3. -/
def opensThree : ClientCall := .open false ⟨3, true, [.closed], []⟩

/-- An attempt that succeeds after a wait. -/
def connectsLater : SocketApi.ConnectOutcome := ⟨true, .inProgress, 1, true, true, 0, true⟩

/-- An attempt that is still pending when `select` gives up. -/
def timesOut : SocketApi.ConnectOutcome := ⟨true, .inProgress, 0, false, true, 0, true⟩

theorem idle_throughCalls : ThroughCalls idle :=
  .still (fun w => ⟨w.app, rfl⟩) (fun w _ _ => ⟨w.app, rfl⟩)

theorem closed_once_iff_run :
    let calls := [opensThree, .connect 2 connectsLater, .recvEx, .close]
    Along (clientStep idle) (fun w k => ClosedOnce (clientStep idle w k).1) newConnection calls ↔
      Along (clientStep idle) LeavesClosing newConnection calls :=
  closed_once_iff idle_throughCalls rfl rfl rfl _

/-- The timeout closes descriptor 3 twice. -/
theorem timeout_closes_twice :
    ¬Along (clientStep idle) (fun w k => ClosedOnce (clientStep idle w k).1) newConnection
      [opensThree, .connect 2 timesOut] :=
  fun h => absurd (h.2.1.once 3) (by decide)

end World

end MmDriver

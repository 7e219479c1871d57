import MmDriver.Laws.Network.ClientRecv
import MmDriver.Laws.Network.SendBounds

/-!
# One notification for a session

A connection is lost in one of four members, and two of them may notice it in the same call:
`recv_data` disconnects and its caller `recv_ex` disconnects once more, or the receive callback
sends, the send fails, and `recv_ex` then looks at the callback's answer. `disconnect` calls the
disconnect callback and `close` takes it away, so the application hears of it once.

`Detects` says, by what the socket and the callback answer, whether a call finds the connection
lost. `notified_once` counts the calls of the disconnect callback against it.
-/

namespace MmDriver

open ByteMem CallMachine

namespace World

/-! ## What the socket answers to a sender -/

/-- A socket with this script reports an error before it has accepted `n` bytes or would block. -/
def meetsError : List SendEvent → Nat → Bool
  | _, 0 => false
  | [], _ + 1 => false
  | .accept k :: later, n + 1 =>
    let a := min k (min (TUint32.ofNat (n + 1)) (2 ^ 31 - 1))
    if a = 0 then false else meetsError later (n + 1 - a)
  | .wouldBlock :: _, _ + 1 => false
  | .error :: _, _ + 1 => true

/-- One write that takes something leaves the rest of the question to the rest of the script. -/
theorem sendEx_meetsError {net : Net} {ptr : Nat → UInt8} {n : Nat} (hn : 0 < n)
    (hsent : (SocketApi.sendEx net ptr (TUint32.ofNat n)).ret > 0) :
    meetsError net.sends n =
      let r := SocketApi.sendEx net ptr (TUint32.ofNat n)
      meetsError r.net.sends (n - r.ret.toNat) := by
  obtain ⟨n, rfl⟩ := Nat.exists_eq_add_one_of_ne_zero (Nat.ne_of_gt hn)
  unfold SocketApi.sendEx at hsent ⊢
  split at hsent
  · exact absurd hsent (Int.not_lt.mpr ConnErrorCode.wouldBlock.toInt_nonpos)
  · next k later hsends =>
    rw [hsends, meetsError]
    exact if_neg (Nat.ne_of_gt (Int.natCast_pos.mp hsent))
  · exact absurd hsent (Int.not_lt.mpr ConnErrorCode.wouldBlock.toInt_nonpos)
  · exact absurd hsent (Int.not_lt.mpr ConnErrorCode.unknown.toInt_nonpos)

/-- One write that takes nothing: an error, or nothing for now. -/
theorem sendEx_meetsError_none {net : Net} {ptr : Nat → UInt8} {n : Nat} (hn : 0 < n)
    (hsent : ¬(SocketApi.sendEx net ptr (TUint32.ofNat n)).ret > 0) :
    meetsError net.sends n = true ↔
      let r := SocketApi.sendEx net ptr (TUint32.ofNat n)
      r.ret < 0 ∧ ConnErrorCode.wouldBlock.toInt ≠ r.ret := by
  obtain ⟨n, rfl⟩ := Nat.exists_eq_add_one_of_ne_zero (Nat.ne_of_gt hn)
  unfold SocketApi.sendEx at hsent ⊢
  split at hsent
  · next hsends =>
    rw [hsends]
    exact iff_of_false Bool.false_ne_true fun h => h.2 rfl
  · next k later hsends =>
    have hnone : min k (min (TUint32.ofNat (n + 1)) (2 ^ 31 - 1)) = 0 :=
      Nat.eq_zero_of_not_pos fun hpos => hsent (Int.natCast_pos.mpr hpos)
    rw [hsends, meetsError, if_pos hnone]
    exact iff_of_false Bool.false_ne_true fun h =>
      absurd h.1 (Int.not_lt.mpr (Int.natCast_nonneg _))
  · next later hsends =>
    rw [hsends]
    exact iff_of_false Bool.false_ne_true fun h => h.2 rfl
  · next later hsends =>
    rw [hsends]
    have hcode : ConnErrorCode.unknown.toInt < 0 ∧
        ConnErrorCode.wouldBlock.toInt ≠ ConnErrorCode.unknown.toInt := by decide
    exact iff_of_true rfl hcode

/-- The loop around `send_ex` fails on an error of the socket. -/
theorem sendLoop_failed_iff (net : Net) (ptr : Nat → UInt8) (n : Nat) :
    (sendLoop net ptr n).stop = .failed ↔ meetsError net.sends n = true := by
  fun_induction sendLoop net ptr n with
  | case1 net ptr n hn r hsent rest ih =>
    rw [sendEx_meetsError hn hsent]
    exact ih
  | case2 net ptr n hn r hsent hfail =>
    exact iff_of_true rfl ((sendEx_meetsError_none hn hsent).mpr hfail)
  | case3 net ptr n hn r hsent hfail =>
    exact iff_of_false SendStop.noConfusion fun h =>
      hfail ((sendEx_meetsError_none hn hsent).mp h)
  | case4 net ptr n hn =>
    rw [Nat.eq_zero_of_not_pos hn]
    exact iff_of_false SendStop.noConfusion (by cases net.sends <;> exact Bool.false_ne_true)

/-! ## The senders -/

/-- A call of a sender, with any arguments. -/
inductive SenderCall where
  | sendData (data : Option (Nat → UInt8)) (size : Nat)
  | sendCache (data : Option (Nat → UInt8)) (size : Nat)
  | sendCacheData

section Senders

variable {ω : Type}

/-- One call, with the code it answers. -/
def senderStep (cb : Callbacks ω) (w : World ω) : SenderCall → World ω × ConnErrorCode
  | .sendData data size => let r := sendData cb w data size; (r.2, r.1)
  | .sendCache data size => let r := sendCache w data size; (r.2, r.1)
  | .sendCacheData => let r := sendCacheData cb w; (r.2, r.1)

/-- How many bytes the senders take for pending. -/
def pendingLen (w : World ω) : Nat := SizeT.sub w.socket.sendTail w.socket.sendHead

/-- The call meets a hard error: while the pending bytes go out, or behind them with the fresh
ones. -/
def SendDetects (w : World ω) : SenderCall → Prop
  | .sendData data size => data.isSome ∧ size ≠ 0 ∧ w.socket.Live ∧
      (meetsError w.net.sends (pendingLen w) = true ∨
        (takes w.net.sends (pendingLen w)).1 = pendingLen w ∧
          meetsError (takes w.net.sends (pendingLen w)).2 size = true)
  | .sendCache _ _ => False
  | .sendCacheData => w.socket.Live ∧ meetsError w.net.sends (pendingLen w) = true

/-- Nothing but the sending side differs. -/
structure SendSide (w w' : World ω) : Prop where
  socket : SendOnly w.socket w'.socket
  recvs : w'.net.recvs = w.net.recvs
  app : w'.app = w.app

theorem SendSide.refl (w : World ω) : SendSide w w := ⟨.refl _, rfl, rfl⟩

theorem SendSide.trans {w w' w'' : World ω} (h : SendSide w w') (h' : SendSide w' w'') :
    SendSide w w'' :=
  ⟨h.socket.trans h'.socket, h'.recvs.trans h.recvs, h'.app.trans h.app⟩

/-- `flush`, by what the socket answers. -/
theorem flush_spec (w : World ω) :
    SendSide w (flush w).2 ∧
      ((flush w).1 = .failed ↔ meetsError w.net.sends (pendingLen w) = true) ∧
      ((flush w).1 = .drained ↔ (takes w.net.sends (pendingLen w)).1 = pendingLen w) ∧
      (flush w).2.net.sends = (takes w.net.sends (pendingLen w)).2 := by
  have hloop := sendLoop_sendsUpTo w.net (sendPtr w.socket) (pendingLen w)
  have hfailed := sendLoop_failed_iff w.net (sendPtr w.socket) (pendingLen w)
  obtain ⟨haccepted, hsends⟩ := sendLoop_takes w.net (sendPtr w.socket) (pendingLen w)
  rw [flush, ← haccepted]
  exact ⟨⟨rfl, hloop.recvs, rfl⟩, hfailed, hloop.drained, hsends⟩

theorem cache_sendOnly (c : ClientSocket) (data : Nat → UInt8) (size dataRemainedBytes : Nat) :
    SendOnly c (cache c data size dataRemainedBytes).2 := by
  unfold cache
  split
  · rfl
  · split <;> rfl

/-- What a sender leaves: where it met a hard error it has disconnected, and else only the sending
side has changed. -/
structure Sends (cb : Callbacks ω) (w : World ω) (failed : Prop) (w' : World ω) : Prop where
  fails : failed → ∃ v, SendSide w v ∧ w' = disconnect cb v
  sends : ¬failed → SendSide w w'

theorem sendFresh_spec (cb : Callbacks ω) (w : World ω) (data : Nat → UInt8) (size : Nat) :
    Sends cb w (meetsError w.net.sends size = true) (sendFresh cb w data size).2 := by
  have hloop := sendLoop_sendsUpTo w.net data size
  have hfailed := sendLoop_failed_iff w.net data size
  unfold sendFresh
  generalize sendLoop w.net data size = r at hloop hfailed
  have hside : SendSide w { w with net := r.net } := ⟨.refl _, hloop.recvs, rfl⟩
  obtain ⟨stop, accepted, net⟩ := r
  rw [← hfailed]
  cases stop with
  | drained => exact ⟨SendStop.noConfusion, fun _ => hside⟩
  | stalled => exact ⟨SendStop.noConfusion, fun _ => ⟨rfl, hloop.recvs, rfl⟩⟩
  | failed => exact ⟨fun _ => ⟨_, hside, rfl⟩, fun h => absurd rfl h⟩

theorem sendCache_spec (w : World ω) (data : Option (Nat → UInt8)) (size : Nat) :
    SendSide w (sendCache w data size).2 := by
  cases data with
  | none => exact .refl w
  | some data =>
    unfold sendCache
    dsimp only
    split
    · exact .refl w
    · split
      · exact .refl w
      · exact ⟨cache_sendOnly _ _ _ _, rfl, rfl⟩

theorem sendCacheData_spec (cb : Callbacks ω) {w : World ω} (hlive : w.socket.Live) :
    Sends cb w (meetsError w.net.sends (pendingLen w) = true) (sendCacheData cb w).2 := by
  obtain ⟨hside, hfailed, -, -⟩ := flush_spec w
  rw [sendCacheData, if_neg (not_not.mpr hlive), ← hfailed]
  generalize flush w = r at hside
  obtain ⟨stop, w'⟩ := r
  cases stop with
  | drained => exact ⟨SendStop.noConfusion, fun _ => hside.trans ⟨rfl, rfl, rfl⟩⟩
  | stalled => exact ⟨SendStop.noConfusion, fun _ => hside⟩
  | failed => exact ⟨fun _ => ⟨w', hside, rfl⟩, fun h => absurd rfl h⟩

theorem sendData_spec (cb : Callbacks ω) {w : World ω} (hlive : w.socket.Live)
    (data : Nat → UInt8) {size : Nat} (hsize : size ≠ 0) :
    Sends cb w (meetsError w.net.sends (pendingLen w) = true ∨
        (takes w.net.sends (pendingLen w)).1 = pendingLen w ∧
          meetsError (takes w.net.sends (pendingLen w)).2 size = true)
      (sendData cb w (some data) size).2 := by
  obtain ⟨hside, hfailed, hdrained, hsends⟩ := flush_spec w
  rw [← hfailed, ← hdrained, ← hsends]
  unfold sendData
  dsimp only
  rw [if_neg hsize, if_neg (not_not.mpr hlive)]
  generalize flush w = r at hside
  obtain ⟨stop, w'⟩ := r
  cases stop with
  | drained =>
    have hrewound : SendSide w w'.rewound := hside.trans ⟨rfl, rfl, rfl⟩
    have hfresh := sendFresh_spec cb w'.rewound data size
    constructor
    · intro h
      obtain ⟨-, herror⟩ := h.resolve_left SendStop.noConfusion
      obtain ⟨v, hv, heq⟩ := hfresh.fails herror
      exact ⟨v, hrewound.trans hv, heq⟩
    · exact fun h => hrewound.trans (hfresh.sends fun herror => h (.inr ⟨rfl, herror⟩))
  | stalled =>
    constructor
    · rintro (hfail | ⟨hdrain, -⟩)
      · exact SendStop.noConfusion hfail
      · exact SendStop.noConfusion hdrain
    · exact fun _ => hside.trans ⟨cache_sendOnly _ _ _ _, rfl, rfl⟩
  | failed => exact ⟨fun _ => ⟨w', hside, rfl⟩, fun h => absurd (.inl rfl) h⟩

/-- A callback that acts on the connection by sending only leaves the receiving side as it is, or
the connection closed. -/
def LeavesReceiving (w w' : World ω) : Prop :=
  w'.socket = ClientSocket.new ∨ SendOnly w.socket w'.socket ∧ w'.net.recvs = w.net.recvs

/-- Every call of a sender. -/
theorem senderStep_spec (cb : Callbacks ω) (w : World ω) (k : SenderCall) :
    Sends cb w (SendDetects w k) (senderStep cb w k).1 := by
  cases k with
  | sendCache data size => exact ⟨False.elim, fun _ => sendCache_spec w data size⟩
  | sendCacheData =>
    by_cases hlive : w.socket.Live
    · have hspec := sendCacheData_spec cb hlive
      exact ⟨fun h => hspec.fails h.2, fun h => hspec.sends fun herror => h ⟨hlive, herror⟩⟩
    · have hsame : (senderStep cb w .sendCacheData).1 = w := by
        simp only [senderStep, sendCacheData, if_pos hlive]
      rw [hsame]
      exact ⟨fun h => absurd h.1 hlive, fun _ => .refl w⟩
  | sendData data size =>
    by_cases hready : data.isSome ∧ size ≠ 0 ∧ w.socket.Live
    · obtain ⟨hdata, hsize, hlive⟩ := hready
      obtain ⟨data, rfl⟩ := Option.isSome_iff_exists.mp hdata
      have hspec := sendData_spec cb hlive data hsize
      exact ⟨fun h => hspec.fails h.2.2.2,
        fun h => hspec.sends fun herror => h ⟨hdata, hsize, hlive, herror⟩⟩
    · have hsame : (senderStep cb w (.sendData data size)).1 = w := by
        cases data with
        | none => rfl
        | some data =>
          simp only [senderStep, sendData]
          split
          · rfl
          · next hsize =>
            rw [if_pos fun hlive => hready ⟨rfl, hsize, hlive⟩]
      rw [hsame]
      exact ⟨fun h => absurd ⟨h.1, h.2.1, h.2.2.1⟩ hready, fun _ => .refl w⟩

/-- A closed connection takes nothing. -/
theorem senderStep_closed (cb : Callbacks ω) {w : World ω} (hclosed : w.socket = ClientSocket.new)
    (k : SenderCall) : ¬SendDetects w k ∧ (senderStep cb w k).1 = w := by
  have hlive : ¬w.socket.Live := by rw [hclosed]; decide
  cases k with
  | sendCache data size =>
    refine ⟨id, ?_⟩
    cases data with
    | none => rfl
    | some data =>
      simp only [senderStep, sendCache]
      split <;> rfl
  | sendCacheData =>
    refine ⟨fun h => hlive h.1, ?_⟩
    simp only [senderStep, sendCacheData, if_pos hlive]
  | sendData data size =>
    refine ⟨fun h => hlive h.2.2.1, ?_⟩
    cases data with
    | none => rfl
    | some data =>
      simp only [senderStep, sendData]
      split <;> rfl

end Senders

/-! ## The application -/

/-- The application's state, and how often the disconnect callback has been called. -/
structure Counted (α : Type) where
  user : α
  notified : Nat

section Application

variable {α : Type}

/-- What a receive callback does: it answers, or changes the application's state, or sends and goes
on by what the send has left and answered. -/
inductive RecvAct (α : Type) where
  | answer (nReadLen : Int)
  | update (user : α) (next : RecvAct α)
  | send (k : SenderCall) (next : World (Counted α) → ConnErrorCode → RecvAct α)

/-- An application: what its disconnect callback makes of its state, and how its receive callback
acts. -/
structure Application (α : Type) where
  onDisConnect : World (Counted α) → α
  onRecvMessage : World (Counted α) → Option Memory → Nat → RecvAct α

/-- The callbacks of an application whose receive callback acts so, inside that callback: a send
calls the disconnect callback only. -/
def Application.sending (a : Application α) : Callbacks (Counted α) where
  onDisConnect w := { w with app := ⟨a.onDisConnect w, w.app.notified + 1⟩ }
  onRecvMessage w _ _ := (0, w)

/-- A receive callback runs. -/
def RecvAct.run (a : Application α) : RecvAct α → World (Counted α) → Int × World (Counted α)
  | .answer nReadLen, w => (nReadLen, w)
  | .update user next, w => next.run a { w with app := { w.app with user := user } }
  | .send k next, w =>
    let r := senderStep a.sending w k
    (next r.1 r.2).run a r.1

/-- The callbacks of an application. -/
def Application.callbacks (a : Application α) : Callbacks (Counted α) where
  onDisConnect := a.sending.onDisConnect
  onRecvMessage w m len := (a.onRecvMessage w m len).run a w

/-- A send of the receive callback meets a hard error. -/
def RecvAct.Detects (a : Application α) : RecvAct α → World (Counted α) → Prop
  | .answer _, _ => False
  | .update user next, w => next.Detects a { w with app := { w.app with user := user } }
  | .send k next, w =>
    SendDetects w k ∨
      let r := senderStep a.sending w k
      (next r.1 r.2).Detects a r.1

/-- A connection with both callbacks. -/
structure Connected (w : World (Counted α)) : Prop where
  live : w.socket.Live
  onDisConnect : w.socket.funOnDisConnect = true
  onRecvMessage : w.socket.funOnRecvMessage = true
  room : w.socket.recvBufferLen ≤ maxC2sPkgSize

theorem Connected.sendSide {w w' : World (Counted α)} (h : Connected w) (hside : SendSide w w') :
    Connected w' := by
  have hsocket := hside.socket
  rw [SendOnly] at hsocket
  constructor
  · exact hside.socket.live h.live
  · rw [hsocket]
    exact h.onDisConnect
  · rw [hsocket]
    exact h.onRecvMessage
  · rw [hsocket]
    exact h.room

/-- The connection was lost, and the application has been told. -/
structure Lost (w w' : World (Counted α)) : Prop where
  closed : w'.socket = ClientSocket.new
  notified : w'.app.notified = w.app.notified + 1

/-- The connection lives, and the application has not been told anything. -/
structure Stays (w w' : World (Counted α)) : Prop where
  connected : Connected w'
  notified : w'.app.notified = w.app.notified

variable {a : Application α} {w : World (Counted α)}

theorem close_closed (hclosed : w.socket = ClientSocket.new) : w.close = w := by
  obtain ⟨socket, net, app⟩ := w
  dsimp only at hclosed
  subst hclosed
  simp [close, ClientSocket.new]

/-- A closed connection has no callback to call. -/
theorem disconnect_closed (cb : Callbacks (Counted α)) (hclosed : w.socket = ClientSocket.new) :
    disconnect cb w = w := by
  have hnone : ¬w.socket.funOnDisConnect = true := by rw [hclosed]; decide
  rw [disconnect, if_neg hnone, close_closed hclosed]

/-- The first disconnect tells the application. -/
theorem disconnect_lost (h : w.socket.funOnDisConnect = true) :
    Lost w (disconnect a.callbacks w) := by
  rw [disconnect, if_pos h]
  exact ⟨rfl, rfl⟩

/-! ## The receive callback -/

/-- On a closed connection the callback's sends find nothing. -/
theorem RecvAct.run_closed (act : RecvAct α) (hclosed : w.socket = ClientSocket.new) :
    (act.run a w).2.socket = ClientSocket.new ∧ (act.run a w).2.app.notified = w.app.notified := by
  induction act generalizing w with
  | answer nReadLen => exact ⟨hclosed, rfl⟩
  | update user next ih => exact @ih { w with app := { w.app with user := user } } hclosed
  | send k next ih =>
    have hsame := (senderStep_closed a.sending hclosed k).2
    have hnext := @ih (senderStep a.sending w k).1 (senderStep a.sending w k).2
      (senderStep a.sending w k).1 (hsame.symm ▸ hclosed)
    rw [hsame] at hnext
    rw [RecvAct.run, hsame]
    exact hnext

/-- On a live connection the application is told of the first send that fails. -/
theorem RecvAct.run_connected (act : RecvAct α) (h : Connected w) :
    (act.Detects a w → Lost w (act.run a w).2) ∧
      (¬act.Detects a w → Stays w (act.run a w).2) := by
  induction act generalizing w with
  | answer nReadLen => exact ⟨False.elim, fun _ => ⟨h, rfl⟩⟩
  | update user next ih =>
    obtain ⟨hlost, hstays⟩ := @ih { w with app := { w.app with user := user } }
      ⟨h.live, h.onDisConnect, h.onRecvMessage, h.room⟩
    exact ⟨fun hd => ⟨(hlost hd).closed, (hlost hd).notified⟩,
      fun hd => ⟨(hstays hd).connected, (hstays hd).notified⟩⟩
  | send k next ih =>
    have hspec := senderStep_spec a.sending w k
    rw [RecvAct.run, RecvAct.Detects]
    by_cases hfails : SendDetects w k
    · obtain ⟨v, hside, heq⟩ := hspec.fails hfails
      have hlost : Lost v (senderStep a.sending w k).1 := by
        rw [heq]
        exact disconnect_lost (h.sendSide hside).onDisConnect
      obtain ⟨hclosed, hnotified⟩ :=
        (next (senderStep a.sending w k).1 (senderStep a.sending w k).2).run_closed hlost.closed
      refine ⟨fun _ => ⟨hclosed, ?_⟩, fun hnone => absurd (.inl hfails) hnone⟩
      rw [hnotified, hlost.notified, hside.app]
    · have hside := hspec.sends hfails
      obtain ⟨hlost, hstays⟩ := ih _ (senderStep a.sending w k).2 (h.sendSide hside)
      have happ := congrArg Counted.notified hside.app
      refine ⟨fun hd => ?_, fun hd => ?_⟩
      · have hl := hlost (hd.resolve_left hfails)
        exact ⟨hl.closed, hl.notified.trans (congrArg (· + 1) happ)⟩
      · have hs := hstays fun hdetects => hd (.inr hdetects)
        exact ⟨hs.connected, hs.notified.trans happ⟩

/-- Whatever it does, the callback leaves the receiving side alone or the connection closed. -/
theorem RecvAct.run_leavesReceiving (act : RecvAct α) (w : World (Counted α)) :
    LeavesReceiving w (act.run a w).2 := by
  induction act generalizing w with
  | answer nReadLen => exact .inr ⟨.refl _, rfl⟩
  | update user next ih => exact ih { w with app := { w.app with user := user } }
  | send k next ih =>
    have hspec := senderStep_spec a.sending w k
    rw [RecvAct.run]
    by_cases hfails : SendDetects w k
    · obtain ⟨v, -, heq⟩ := hspec.fails hfails
      refine .inl (RecvAct.run_closed _ ?_).1
      rw [heq]
      rfl
    · have hside := hspec.sends hfails
      rcases ih _ (senderStep a.sending w k).2 (senderStep a.sending w k).1 with hnew | ⟨honly, hrecvs⟩
      · exact .inl hnew
      · exact .inr ⟨hside.socket.trans honly, hrecvs.trans hside.recvs⟩

/-! ## `recv_ex` -/

/-- What the receive callback answers and leaves when `recv_ex` calls it. -/
def called (a : Application α) (w : World (Counted α)) : Int × World (Counted α) :=
  a.callbacks.onRecvMessage w.atStop w.atStop.socket.recvBuffer w.atStop.socket.recvBufferLen

/-- A send of the receive callback that `recv_ex` calls meets a hard error. -/
def CallbackDetects (a : Application α) (w : World (Counted α)) : Prop :=
  (a.onRecvMessage w.atStop w.atStop.socket.recvBuffer w.atStop.socket.recvBufferLen).Detects a
    w.atStop

/-- What `recv_ex` finds, by why the reading stops: the peer's close, a hard error, a negative
answer, or a full buffer of which nothing is taken. -/
def RecvDetects (a : Application α) (w : World (Counted α)) : Prop :=
  match w.stopOf with
  | .closed => True
  | .error => True
  | .wouldBlock => CallbackDetects a w ∨ (called a w).1 < 0
  | .full => CallbackDetects a w ∨ (called a w).1 < 0 ∨ (called a w).1 = 0

theorem Connected.atStop (h : Connected w) : Connected w.atStop := by
  have hread := offers_length_le w.net.recvs (maxC2sPkgSize - w.socket.recvBufferLen)
  have hroom := h.room
  refine ⟨h.live, h.onDisConnect, h.onRecvMessage, ?_⟩
  simp only [World.atStop, gathered]
  omega

/-- The callback closed the connection: `recv_ex` does nothing more. -/
theorem afterCallback_closed (cb : Callbacks (Counted α)) (hclosed : w.socket = ClientSocket.new)
    (iRet : ConnErrorCode) (nReadLen : Int) : (afterCallback cb iRet nReadLen w).2 = w := by
  have hempty : w.socket.recvBufferLen = 0 := by rw [hclosed]; rfl
  unfold afterCallback
  split
  · exact disconnect_closed cb hclosed
  · next hanswer =>
    split
    · rfl
    · next hzero =>
      rw [hempty, TInt32.ofNat_eq (by decide), if_pos (by omega)]

/-- The callback left the connection alone: it is lost on a negative answer, and where nothing is
taken of a full buffer. -/
theorem afterCallback_connected (h : Connected w) (iRet : ConnErrorCode) (nReadLen : Int) :
    (nReadLen < 0 ∨ nReadLen = 0 ∧ iRet = .recvNotEnoughBuffer →
        Lost w (afterCallback a.callbacks iRet nReadLen w).2) ∧
      (¬(nReadLen < 0 ∨ nReadLen = 0 ∧ iRet = .recvNotEnoughBuffer) →
        Stays w (afterCallback a.callbacks iRet nReadLen w).2) := by
  have hmax : maxC2sPkgSize = 5120 := rfl
  have hroom := h.room
  unfold afterCallback
  constructor
  · intro hgives
    rw [if_pos hgives]
    exact disconnect_lost h.onDisConnect
  · intro hgoes
    rw [if_neg hgoes]
    split
    · exact ⟨h, rfl⟩
    · split
      · exact ⟨h, rfl⟩
      · next hmore =>
        rw [TInt32.ofNat_eq (by omega)] at hmore
        have hle : SizeT.sub w.socket.recvBufferLen nReadLen.toNat ≤ maxC2sPkgSize := by
          rw [SizeT.sub_eq (by omega) (by omega)]
          omega
        exact ⟨⟨h.live, h.onDisConnect, h.onRecvMessage, hle⟩, rfl⟩

theorem called_spec (h : Connected w) :
    (CallbackDetects a w → Lost w (called a w).2) ∧
      (¬CallbackDetects a w → Stays w (called a w).2) := by
  obtain ⟨hlost, hstays⟩ := RecvAct.run_connected (a := a)
    (a.onRecvMessage w.atStop w.atStop.socket.recvBuffer w.atStop.socket.recvBufferLen) h.atStop
  exact ⟨fun hd => ⟨(hlost hd).closed, (hlost hd).notified⟩,
    fun hd => ⟨(hstays hd).connected, (hstays hd).notified⟩⟩

theorem recvEx_called (h : Connected w) (hstop : w.stopOf = .full ∨ w.stopOf = .wouldBlock) :
    recvEx a.callbacks w =
      afterCallback a.callbacks
        (if w.stopOf = .full then .recvNotEnoughBuffer else .wouldBlock) (called a w).1
        (called a w).2 :=
  recvEx_calls a.callbacks h.live h.room h.onRecvMessage hstop

/-- `recv_ex`, where it calls the callback. -/
theorem Connected.recvEx_calls (h : Connected w)
    (hstop : w.stopOf = .full ∨ w.stopOf = .wouldBlock) :
    (CallbackDetects a w ∨ ((called a w).1 < 0 ∨ (called a w).1 = 0 ∧ w.stopOf = .full) →
        Lost w (World.recvEx a.callbacks w).2) ∧
      (¬(CallbackDetects a w ∨ ((called a w).1 < 0 ∨ (called a w).1 = 0 ∧ w.stopOf = .full)) →
        Stays w (World.recvEx a.callbacks w).2) := by
  have hcode : (if w.stopOf = .full then ConnErrorCode.recvNotEnoughBuffer else .wouldBlock) =
      .recvNotEnoughBuffer ↔ w.stopOf = .full := by
    split
    · next hfull => exact iff_of_true rfl hfull
    · next hfull => exact iff_of_false ConnErrorCode.noConfusion hfull
  obtain ⟨hlost, hstays⟩ := called_spec (a := a) h
  rw [recvEx_called h hstop]
  generalize (if w.stopOf = .full then ConnErrorCode.recvNotEnoughBuffer else .wouldBlock) = code
    at hcode ⊢
  rw [← hcode]
  by_cases hd : CallbackDetects a w
  · have hl := hlost hd
    rw [afterCallback_closed a.callbacks hl.closed]
    exact ⟨fun _ => hl, fun hnone => absurd (.inl hd) hnone⟩
  · have hs := hstays hd
    obtain ⟨hgives, hgoes⟩ := afterCallback_connected (a := a) hs.connected code (called a w).1
    refine ⟨fun hanswer => ?_, fun hanswer => ?_⟩
    · have hl := hgives (hanswer.resolve_left hd)
      exact ⟨hl.closed, hl.notified.trans (congrArg (· + 1) hs.notified)⟩
    · have hst := hgoes fun h' => hanswer (.inr h')
      exact ⟨hst.connected, hst.notified.trans hs.notified⟩

/-- `recv_ex` on a connection. -/
theorem Connected.recvEx (h : Connected w) :
    (RecvDetects a w → Lost w (World.recvEx a.callbacks w).2) ∧
      (¬RecvDetects a w → Stays w (World.recvEx a.callbacks w).2) := by
  have hgone : w.stopOf = .closed ∨ w.stopOf = .error → Lost w (World.recvEx a.callbacks w).2 := by
    intro hstop
    rw [recvEx_lost a.callbacks h.live h.room h.onRecvMessage hstop]
    have hl := disconnect_lost (a := a) h.atStop.onDisConnect
    exact ⟨hl.closed, hl.notified⟩
  have hcalls := h.recvEx_calls (a := a)
  unfold RecvDetects
  cases hstop : w.stopOf with
  | closed => exact ⟨fun _ => hgone (.inl hstop), fun hnone => absurd trivial hnone⟩
  | error => exact ⟨fun _ => hgone (.inr hstop), fun hnone => absurd trivial hnone⟩
  | wouldBlock =>
    obtain ⟨hlost, hstays⟩ := hcalls (.inr hstop)
    refine ⟨fun hd => hlost (hd.imp_right .inl), fun hd => hstays ?_⟩
    rintro (hcallback | hneg | ⟨-, hfull⟩)
    · exact hd (.inl hcallback)
    · exact hd (.inr hneg)
    · exact RecvStop.noConfusion (hstop.symm.trans hfull)
  | full =>
    obtain ⟨hlost, hstays⟩ := hcalls (.inl hstop)
    refine ⟨fun hd => hlost (hd.imp_right (Or.imp_right fun hzero => ⟨hzero, hstop⟩)),
      fun hd => hstays fun hd' => hd (hd'.imp_right (Or.imp_right And.left))⟩

/-- `recv_data` on a connection. -/
theorem Connected.recvData (h : Connected w) :
    (w.stopOf = .closed ∨ w.stopOf = .error → Lost w (World.recvData a.callbacks w).2) ∧
      (¬(w.stopOf = .closed ∨ w.stopOf = .error) → Stays w (World.recvData a.callbacks w).2) := by
  have hl := disconnect_lost (a := a) h.atStop.onDisConnect
  have hlost : Lost w (disconnect a.callbacks w.atStop) := ⟨hl.closed, hl.notified⟩
  have hstays : Stays w w.atStop := ⟨h.atStop, rfl⟩
  rw [recvData_eq a.callbacks h.live h.room]
  cases w.stopOf with
  | closed => exact ⟨fun _ => hlost, fun hnone => absurd (.inl rfl) hnone⟩
  | error => exact ⟨fun _ => hlost, fun hnone => absurd (.inr rfl) hnone⟩
  | wouldBlock =>
    exact ⟨fun hd => (hd.elim RecvStop.noConfusion RecvStop.noConfusion), fun _ => hstays⟩
  | full => exact ⟨fun hd => (hd.elim RecvStop.noConfusion RecvStop.noConfusion), fun _ => hstays⟩

/-! ## Runs -/

/-- What the poll loop and the application call. -/
inductive SessionCall where
  | recvEx
  | recvData
  | send (k : SenderCall)

/-- One call. -/
def sessionStep (a : Application α) (w : World (Counted α)) : SessionCall → World (Counted α) × Unit
  | .recvEx => ((World.recvEx a.callbacks w).2, ())
  | .recvData => ((World.recvData a.callbacks w).2, ())
  | .send k => ((senderStep a.callbacks w k).1, ())

/-- The call finds the connection lost. On a connection that is not there any more no call finds
anything. -/
def Detects (a : Application α) (w : World (Counted α)) : SessionCall → Prop
  | .recvEx => w.socket.Live ∧ w.socket.funOnRecvMessage = true ∧ RecvDetects a w
  | .recvData => w.socket.Live ∧ (w.stopOf = .closed ∨ w.stopOf = .error)
  | .send k => SendDetects w k

/-- A call tells the application exactly when it finds the connection lost, and `recv_ex` leaves
alone what the callback has closed. -/
structure NotifiesOnce (a : Application α) (w : World (Counted α)) (k : SessionCall) : Prop where
  detected : Detects a w k → (sessionStep a w k).1.app.notified = w.app.notified + 1
  undetected : ¬Detects a w k → (sessionStep a w k).1.app.notified = w.app.notified
  untouched : k = .recvEx → w.socket.Live → w.socket.funOnRecvMessage = true →
    w.stopOf = .full ∨ w.stopOf = .wouldBlock → ¬(called a w).2.socket.Live →
      (sessionStep a w k).1 = (called a w).2

theorem Connected.step (h : Connected w) (k : SessionCall) :
    (Detects a w k → Lost w (sessionStep a w k).1) ∧
      (¬Detects a w k → Stays w (sessionStep a w k).1) := by
  cases k with
  | recvEx =>
    obtain ⟨hlost, hstays⟩ := h.recvEx (a := a)
    exact ⟨fun hd => hlost hd.2.2, fun hd => hstays fun hd' => hd ⟨h.live, h.onRecvMessage, hd'⟩⟩
  | recvData =>
    obtain ⟨hlost, hstays⟩ := h.recvData (a := a)
    exact ⟨fun hd => hlost hd.2, fun hd => hstays fun hd' => hd ⟨h.live, hd'⟩⟩
  | send k =>
    have hspec := senderStep_spec a.callbacks w k
    constructor
    · intro hd
      obtain ⟨v, hside, heq⟩ := hspec.fails hd
      have hl := disconnect_lost (a := a) (h.sendSide hside).onDisConnect
      rw [sessionStep, heq]
      exact ⟨hl.closed, hl.notified.trans (congrArg (·.notified + 1) hside.app)⟩
    · intro hd
      have hside := hspec.sends hd
      exact ⟨h.sendSide hside, congrArg Counted.notified hside.app⟩

/-- On a connection that was lost every call leaves everything as it is. -/
theorem step_closed (hclosed : w.socket = ClientSocket.new) (k : SessionCall) :
    ¬Detects a w k ∧ (sessionStep a w k).1 = w := by
  have hlive : ¬w.socket.Live := by rw [hclosed]; decide
  have hnone : w.socket.funOnRecvMessage = false := by rw [hclosed]; rfl
  cases k with
  | recvEx =>
    refine ⟨fun hd => hlive hd.1, ?_⟩
    rw [sessionStep, World.recvEx, if_pos hnone]
  | recvData =>
    refine ⟨fun hd => hlive hd.1, ?_⟩
    rw [sessionStep, World.recvData, if_neg hlive]
  | send k => exact senderStep_closed a.callbacks hclosed k

/-- Between two calls of a session that began with the count `n`. -/
def Phase (n : Nat) (w : World (Counted α)) : Prop :=
  Connected w ∧ w.app.notified = n ∨ w.socket = ClientSocket.new ∧ w.app.notified = n + 1

theorem Phase.step {n : Nat} (h : Phase n w) (k : SessionCall) :
    Phase n (sessionStep a w k).1 := by
  rcases h with ⟨hconnected, hn⟩ | ⟨hclosed, hn⟩
  · obtain ⟨hlost, hstays⟩ := hconnected.step (a := a) k
    by_cases hd : Detects a w k
    · exact .inr ⟨(hlost hd).closed, hn ▸ (hlost hd).notified⟩
    · exact .inl ⟨(hstays hd).connected, hn ▸ (hstays hd).notified⟩
  · rw [(step_closed hclosed k).2]
    exact .inr ⟨hclosed, hn⟩

theorem Phase.notifiesOnce {n : Nat} (h : Phase n w) (k : SessionCall) : NotifiesOnce a w k := by
  rcases h with ⟨hconnected, -⟩ | ⟨hclosed, -⟩
  · obtain ⟨hlost, hstays⟩ := hconnected.step (a := a) k
    refine ⟨fun hd => (hlost hd).notified, fun hd => (hstays hd).notified, ?_⟩
    rintro rfl - - hstop hgone
    obtain ⟨hcallback, hnoCallback⟩ := called_spec (a := a) hconnected
    have hdetects : CallbackDetects a w := by
      by_contra hd
      exact hgone (hnoCallback hd).connected.live
    rw [sessionStep, recvEx_called hconnected hstop]
    exact afterCallback_closed a.callbacks (hcallback hdetects).closed _ _
  · obtain ⟨hnone, hsame⟩ := step_closed (a := a) hclosed k
    refine ⟨fun hd => absurd hd hnone, fun _ => by rw [hsame], fun _ hlive => ?_⟩
    rw [hclosed] at hlive
    exact absurd hlive (by decide)

theorem Phase.run {n : Nat} (h : Phase n w) (ks : List SessionCall) :
    Phase n (exec (sessionStep a) w ks).1 :=
  @exec_invariant _ _ _ _ (Phase n) (fun _ => True) (fun _ k _ hw => hw.step k) _ h ks
    fun _ _ => trivial

/-- **One notification for a session.** Over every sequence of calls on a connection with both
callbacks, whatever the socket answers and the receive callback does: the disconnect callback is
called at most once, by the call that finds the connection lost, and `recv_ex` leaves alone what its
callback has closed. -/
theorem notified_once (a : Application α) (w : World (Counted α)) (hw : Connected w)
    (ks : List SessionCall) :
    (exec (sessionStep a) w ks).1.app.notified ≤ w.app.notified + 1 ∧
      Along (sessionStep a) (NotifiesOnce a) w ks := by
  have hstart : Phase w.app.notified w := .inl ⟨hw, rfl⟩
  constructor
  · rcases hstart.run (a := a) ks with ⟨-, hn⟩ | ⟨-, hn⟩
    · rw [hn]
      exact Nat.le_succ _
    · exact Nat.le_of_eq hn
  · exact Along.of_invariant (Phase w.app.notified) (fun _ k h => h.step k)
      (fun _ k h => h.notifiesOnce k) hstart ks

end Application

/-! ## A run -/

/-- An application that answers every message with one byte, and then refuses the message. -/
def refusing : Application Unit where
  onDisConnect _ := ()
  onRecvMessage _ _ _ := .send (.sendData (some fun _ => 1) 1) fun _ _ => .answer (-1)

/-- A connection on which a byte arrives and the next write fails. -/
def failingConnection : World (Counted Unit) where
  socket := { ClientSocket.new with
    socketFd := 3
    socketStatus := .connected
    recvBuffer := some fun _ => 0
    sendBuffer := some fun _ => 0
    funOnDisConnect := true
    funOnRecvMessage := true }
  net := ⟨[.data 42 []], [.error], [], [], []⟩
  app := ⟨(), 0⟩

theorem notified_once_run :
    let calls := [SessionCall.recvEx, .recvData, .send .sendCacheData, .recvEx]
    (exec (sessionStep refusing) failingConnection calls).1.app.notified ≤ 0 + 1 ∧
      Along (sessionStep refusing) (NotifiesOnce refusing) failingConnection calls :=
  notified_once refusing failingConnection ⟨⟨rfl, by decide⟩, rfl, rfl, by decide⟩ _

example : (sessionStep refusing failingConnection .recvEx).1.app.notified = 1 := by decide +kernel

end World

end MmDriver

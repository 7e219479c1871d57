import MmDriver.Laws.Test.NetReceive

/-!
# However the stream is cut

A connection whose frames fit the receive buffer dispatches the packets of the stream, wherever
the socket cuts it and whenever it would block: `recvRun_receiving` carries the invariant of
`NetReceive` over any number of calls, and every call makes progress until the socket is empty.
-/

namespace MmDriver

open ByteMem Framing SocketApi NetService

variable {σ : Type}

/-- The connection after `n` calls of `recv_ex`. -/
def recvRun (h : Handlers σ) (w : World (Session σ)) : Nat → World (Session σ)
  | 0 => w
  | n + 1 => (World.recvEx (Session.callbacks h) (recvRun h w n)).2

/-- A connected socket with receive buffer and callback, before its first read. -/
structure Fresh (svc : NetService) (w : World (Session σ)) : Prop where
  live : w.socket.Live
  callback : w.socket.funOnRecvMessage = true
  capacity : w.socket.nRecvBufSize = maxC2sPkgSize
  allocated : w.socket.recvBuffer.isSome
  empty : w.socket.recvBufferLen = 0
  service : w.app.svc = svc
  taken : w.app.taken = []
  log : w.app.log = []

/-- A script of arriving bytes and of waits. -/
def Quiet (evs : List RecvEvent) : Prop := .closed ∉ evs ∧ .error ∉ evs

instance (evs : List RecvEvent) : Decidable (Quiet evs) := inferInstanceAs (Decidable (_ ∧ _))

variable (h : Handlers σ) {svc : NetService} {w : World (Session σ)}

theorem Fresh.receiving (hw : Fresh svc w) : Receiving svc [] w [] := by
  refine ⟨hw.live, hw.callback, hw.allocated, ?_, ?_, hw.service, ?_, ?_⟩
  · rw [recvBytes, hw.empty, Framer.tail_nil]
    rfl
  · rw [hw.empty]
    decide
  · rw [hw.taken, Framer.frames_nil]
    rfl
  · rw [hw.log, Framer.frames_nil]
    rfl

/-- With frames that fit, a call that does not meet the end of the connection goes on: a full
buffer holds a complete frame. -/
theorem Receiving.continues_of_bounded {before : List SessionEvent} {read : List UInt8}
    (hw : Receiving svc before w read) (hquiet : Quiet w.net.recvs)
    (hbound : packetFramer.Bounded maxC2sPkgSize (read ++ streamOf w.net.recvs)) :
    Continues w := by
  have hstream : read ++ streamOf w.net.recvs = read ++ readOf w ++ streamOf (restOf w) := by
    rw [List.append_assoc, readOf, restOf, offers_streamOf]
  cases hstop : w.stopOf with
  | wouldBlock => exact .inl hstop
  | closed => exact absurd (closed_of_offers hstop) hquiet.1
  | error => exact absurd (error_of_offers hstop) hquiet.2
  | full =>
    refine .inr ⟨hstop, fun hnone => ?_⟩
    have hfull : (readOf w).length = maxC2sPkgSize - w.socket.recvBufferLen :=
      (offers_full_iff _ _).mp hstop
    rw [hw.atStop_bytes.1] at hnone
    have htail : packetFramer.tail (read ++ readOf w) = packetFramer.tail read ++ readOf w := by
      rw [Framer.tail_append, Framer.tail_of_lt (Framer.frames_eq_nil_iff.mp hnone)]
    rw [hstream] at hbound
    have hlt := hbound.tail_lt (by decide)
    have hroom := hw.room
    rw [htail, List.length_append, hfull, ← hw.length] at hlt
    omega

/-- Such a call makes progress, unless there is nothing left. -/
theorem offers_left_work {before : List SessionEvent} {read : List UInt8}
    (hw : Receiving svc before w read) (hc : Continues w) :
    work (restOf w) ≤ work w.net.recvs - 1 := by
  have hroom : maxC2sPkgSize - w.socket.recvBufferLen ≠ 0 := Nat.sub_ne_zero_of_lt hw.room
  have hstop : (offers w.net.recvs (maxC2sPkgSize - w.socket.recvBufferLen)).stop ≠ .closed := by
    rcases hc with hblock | ⟨hfull, -⟩
    · exact fun hclosed => absurd (hblock.symm.trans hclosed) RecvStop.noConfusion
    · exact fun hclosed => absurd (hfull.symm.trans hclosed) RecvStop.noConfusion
  by_cases hne : w.net.recvs = []
  · rw [restOf, hne]
    exact Nat.zero_le _
  · exact Nat.le_sub_one_of_lt (offers_work hroom hne hstop)

/-- The invariant after any number of calls, and what the script still has to give. -/
theorem recvRun_receiving (hw : Fresh svc w) (hquiet : Quiet w.net.recvs)
    (hbound : packetFramer.Bounded maxC2sPkgSize (streamOf w.net.recvs)) (n : Nat) :
    ∃ read, Receiving svc [] (recvRun h w n) read ∧ Quiet (recvRun h w n).net.recvs ∧
      read ++ streamOf (recvRun h w n).net.recvs = streamOf w.net.recvs ∧
      work (recvRun h w n).net.recvs ≤ work w.net.recvs - n := by
  induction n with
  | zero => exact ⟨[], hw.receiving, hquiet, rfl, Nat.le_refl _⟩
  | succ n ih =>
    obtain ⟨read, hreceiving, hquiet', hread, hwork⟩ := ih
    have hcontinues := hreceiving.continues_of_bounded hquiet' (hread ▸ hbound)
    obtain ⟨hnext, hnet, -⟩ := hreceiving.continues h hcontinues
    have hrecvs : (recvRun h w (n + 1)).net.recvs = restOf (recvRun h w n) :=
      congrArg Net.recvs hnet
    refine ⟨_, hnext, ?_, ?_, ?_⟩
    · rw [hrecvs]
      exact ⟨fun he => hquiet'.1 (offers_rest_mem he fun _ _ => RecvEvent.noConfusion),
        fun he => hquiet'.2 (offers_rest_mem he fun _ _ => RecvEvent.noConfusion)⟩
    · rw [hrecvs, List.append_assoc, readOf, restOf, offers_streamOf, hread]
    · have hless := offers_left_work hreceiving hcontinues
      rw [hrecvs]
      omega

/-- What all splits of a stream `s` lead to: the packets that `PeekPacket` finds in `s` have been
dispatched, the buffer holds what it leaves, and the connection lives. -/
structure Settled (svc : NetService) (conn : Nat) (s : List UInt8) (w : World (Session σ)) :
    Prop where
  dispatched : w.app.log = (svc.peekAll conn s).1.map .packet
  buffer : recvBytes w.socket = (svc.peekAll conn s).2
  live : w.socket.Live

/-- However a stream of frames that fit the buffer is cut into reads and calls: once it has been
read, it has been dispatched as `PeekPacket` finds it, and after finitely many calls it has been
read. -/
theorem segmentation_independent (hw : Fresh svc w) (conn : Nat) (hquiet : Quiet w.net.recvs)
    (hbound : packetFramer.Bounded maxC2sPkgSize (streamOf w.net.recvs)) :
    (∀ n, streamOf (recvRun h w n).net.recvs = [] →
        Settled svc conn (streamOf w.net.recvs) (recvRun h w n)) ∧
      ∀ n, work w.net.recvs ≤ n → streamOf (recvRun h w n).net.recvs = [] := by
  constructor
  · intro n hdone
    obtain ⟨read, hreceiving, -, hread, -⟩ := recvRun_receiving h hw hquiet hbound n
    rw [hdone, List.append_nil] at hread
    subst hread
    refine ⟨?_, ?_, hreceiving.live⟩
    · rw [hreceiving.log, peekAll_eq]
      rfl
    · rw [hreceiving.buffer, peekAll_eq]
  · intro n hn
    obtain ⟨-, -, -, -, hwork⟩ := recvRun_receiving h hw hquiet hbound n
    exact streamOf_of_work (by omega)

/-! ## A run -/

/-- A login packet of one byte, cut inside its head and behind it, and the first byte of a next
head. -/
def cutLogin : List RecvEvent :=
  [.data 0 [1, 0], .wouldBlock, .data 1 [], .data 42 [0], .wouldBlock]

/-- A connection on which these bytes arrive. -/
def cutConnection : World (Session Unit) where
  socket := { ClientSocket.new with
    socketFd := 3
    socketStatus := .connected
    nRecvBufSize := maxC2sPkgSize
    recvBuffer := some fun _ => 0
    funOnDisConnect := true
    funOnRecvMessage := true }
  net := ⟨cutLogin, [], [], [], []⟩
  app := ⟨NetService.init, 1, [], [], ()⟩

/-- Handlers that do nothing. -/
def idleHandlers : Handlers Unit := ⟨fun _ _ u => u, fun u => u⟩

theorem segmentation_independent_run :
    (∀ n, streamOf (recvRun idleHandlers cutConnection n).net.recvs = [] →
        Settled NetService.init 1 (streamOf cutLogin) (recvRun idleHandlers cutConnection n)) ∧
      ∀ n, work cutLogin ≤ n → streamOf (recvRun idleHandlers cutConnection n).net.recvs = [] :=
  segmentation_independent idleHandlers
    ⟨by decide, rfl, rfl, rfl, rfl, rfl, rfl, rfl⟩ 1 (by decide)
    ⟨by decide +kernel, by decide +kernel⟩

example : (recvRun idleHandlers cutConnection 2).app.log = [.packet (1, [42])] := by
  decide +kernel

end MmDriver

import MmDriver.Laws.Network.ClientRecv
import MmDriver.Laws.Test.NetService

/-!
# A server connection receives

The receive callback of a connection is `NetService::OnRecvMessage`. `Receiving` is the invariant
between two calls of `recv_ex`: the packets dispatched so far are those of the bytes read so far,
and the receive buffer holds their incomplete tail. One call (`recvEx_cases`) either keeps it,
over the bytes the socket offered, or disconnects: when the read meets the peer's close, and when
the buffer is full and holds no complete frame.
-/

namespace MmDriver

open ByteMem Framing SocketApi NetService

/-! ## The callbacks -/

/-- What the callbacks of a connection are called with, as far as the application sees it. -/
inductive SessionEvent where
  | packet (packet : Nat × List UInt8)
  | disconnect
deriving DecidableEq, Repr

/-- The application's side of a connection: the service, the connection's address, the bytes the
receive callback has taken, what has happened, and whatever state the packet handlers work on. -/
structure Session (σ : Type) where
  svc : NetService
  conn : Nat
  taken : List UInt8
  log : List SessionEvent
  user : σ

/-- Packet handlers and a disconnect handler that do not touch the connection. -/
structure Handlers (σ : Type) where
  onPacket : Dispatch → List UInt8 → σ → σ
  onDisConnect : σ → σ

namespace Session

variable {σ : Type}

/-- A packet handler is called. -/
def handled (h : Handlers σ) (m : Memory) (a : Session σ) (d : Dispatch) : Session σ :=
  { a with log := a.log ++ [.packet (d.packet m)], user := h.onPacket d (d.body m) a.user }

/-- The disconnect handler is called. -/
def left (h : Handlers σ) (a : Session σ) : Session σ :=
  { a with log := a.log ++ [.disconnect], user := h.onDisConnect a.user }

/-- `OnRecvMessage` has answered: its handlers were called, and its bytes are taken. -/
def received (h : Handlers σ) (m : Memory) (a : Session σ) (r : NetService.RecvResult) :
    Session σ :=
  { r.dispatched.foldl (handled h m) a with taken := a.taken ++ slice m 0 r.ret.toNat }

/-- `NetService::OnDisConnect` and `NetService::OnRecvMessage`, as a connection's callbacks. -/
def callbacks (h : Handlers σ) : Callbacks (Session σ) where
  onDisConnect w := { w with app := w.app.left h }
  onRecvMessage w pRecvBuf nRecvBufLen :=
    let m := pRecvBuf.getD fun _ => 0
    let r := w.app.svc.onRecvMessage (some w.app.conn) m 0 nRecvBufLen
    (r.ret, { w with app := w.app.received h m r })

theorem callbacks_onRecvMessage (h : Handlers σ) (w : World (Session σ)) (buf : Option Memory)
    (len : Nat) :
    (callbacks h).onRecvMessage w buf len =
      ((w.app.svc.onRecvMessage (some w.app.conn) (buf.getD fun _ => 0) 0 len).ret,
        { w with
          app := w.app.received h (buf.getD fun _ => 0)
            (w.app.svc.onRecvMessage (some w.app.conn) (buf.getD fun _ => 0) 0 len) }) := rfl

/-- Handler calls in order. -/
theorem foldl_handled (h : Handlers σ) (m : Memory) (ds : List Dispatch) (a : Session σ) :
    (ds.foldl (handled h m) a).log = a.log ++ (ds.map (Dispatch.packet · m)).map .packet ∧
      (ds.foldl (handled h m) a).svc = a.svc := by
  induction ds generalizing a with
  | nil => exact ⟨(List.append_nil _).symm, rfl⟩
  | cons d ds ih =>
    obtain ⟨hlog, hsvc⟩ := ih (a.handled h m d)
    refine ⟨?_, hsvc⟩
    rw [List.foldl_cons, hlog, handled, List.append_assoc]
    rfl

/-- The packets `OnRecvMessage` dispatched are in the log, and the bytes it answered are taken. -/
theorem received_fields (h : Handlers σ) (m : Memory) (a : Session σ)
    {r : NetService.RecvResult} {n : Nat} {packets : List (Nat × List UInt8)} (hret : r.ret = (n : Int))
    (hpackets : r.dispatched.map (Dispatch.packet · m) = packets) :
    (a.received h m r).svc = a.svc ∧ (a.received h m r).taken = a.taken ++ slice m 0 n ∧
      (a.received h m r).log = a.log ++ packets.map .packet := by
  obtain ⟨hlog, hsvc⟩ := foldl_handled h m r.dispatched a
  refine ⟨hsvc, ?_, ?_⟩
  · rw [received, hret, Int.toNat_natCast]
  · rw [← hpackets]
    exact hlog

end Session

/-! ## One call of `recv_ex` -/

variable {σ : Type}

/-- The bytes of the receive buffer. -/
def recvBytes (c : ClientSocket) : List UInt8 :=
  slice (c.recvBuffer.getD fun _ => 0) 0 c.recvBufferLen

theorem recvBytes_length (c : ClientSocket) : (recvBytes c).length = c.recvBufferLen :=
  slice_length _ _ _

/-- What is read goes behind what is there. -/
theorem recvBytes_gathered {ω : Type} {w : World ω} (hsome : w.socket.recvBuffer.isSome)
    (bytes : List UInt8) (recvs : List RecvEvent) :
    recvBytes (w.gathered bytes recvs).socket = recvBytes w.socket ++ bytes := by
  obtain ⟨m, hm⟩ := Option.isSome_iff_exists.mp hsome
  simp only [World.gathered, recvBytes, hm, Option.map_some, Option.getD_some]
  rw [slice_add, slice_copy_outside (by omega), Nat.zero_add, slice_copy_inside]

/-- What is consumed goes from the front. -/
theorem recvBytes_consumed {ω : Type} {w : World ω} (hsome : w.socket.recvBuffer.isSome) {n : Nat}
    (hn : n ≤ w.socket.recvBufferLen) (hlen : w.socket.recvBufferLen < 2 ^ 64) :
    recvBytes (w.consumed n).socket = (recvBytes w.socket).drop n := by
  obtain ⟨m, hm⟩ := Option.isSome_iff_exists.mp hsome
  have hleft : SizeT.sub w.socket.recvBufferLen n = w.socket.recvBufferLen - n :=
    SizeT.sub_eq hn hlen
  have hpart : slice m n (w.socket.recvBufferLen - n) =
      ((slice m 0 w.socket.recvBufferLen).drop n).take (w.socket.recvBufferLen - n) := by
    have h := slice_part m 0 (Nat.le_of_eq (Nat.add_sub_of_le hn))
    rwa [Nat.zero_add] at h
  have hmoved := slice_copy_same m 0 (fun i => m (n + i)) (w.socket.recvBufferLen - n)
  rw [slice_shift, Nat.add_zero, hpart] at hmoved
  simp only [World.consumed, recvBytes, hm, hleft, Option.map_some, Option.getD_some]
  rw [hmoved]
  exact List.take_of_length_le (by rw [List.length_drop, slice_length])

/-- Between two calls of `recv_ex`, after the bytes `read`: the complete frames of `read` have
been dispatched, behind what was in the log before, and the buffer holds the tail. -/
structure Receiving (svc : NetService) (before : List SessionEvent) (w : World (Session σ))
    (read : List UInt8) : Prop where
  live : w.socket.Live
  callback : w.socket.funOnRecvMessage = true
  allocated : w.socket.recvBuffer.isSome
  buffer : recvBytes w.socket = packetFramer.tail read
  room : w.socket.recvBufferLen < maxC2sPkgSize
  service : w.app.svc = svc
  taken : w.app.taken = (packetFramer.frames read).flatten
  log : w.app.log = before ++ (svc.packetsOf (packetFramer.frames read)).map .packet

/-! ### What the callback leaves -/

/-- The receive buffer holds `s`, and `recv_ex` has called the callback, which took the complete
frames of `s`. What is left is the tail. -/
theorem afterCallback_frames (cb : Callbacks (Session σ)) {w : World (Session σ)}
    {s : List UInt8} {iRet : ConnErrorCode} (hbuf : recvBytes w.socket = s)
    (hlen : s.length ≤ maxC2sPkgSize) (hsome : w.socket.recvBuffer.isSome)
    (hret : iRet = .recvNotEnoughBuffer → packetFramer.frames s ≠ []) :
    ∃ m, slice m 0 (packetFramer.tail s).length = packetFramer.tail s ∧
      World.afterCallback cb iRet ((s.length - (packetFramer.tail s).length : Nat) : Int) w =
        (true, { w with socket := { w.socket with
          recvBuffer := some m
          recvBufferLen := (packetFramer.tail s).length } }) := by
  have hmax : maxC2sPkgSize = 5120 := rfl
  have hslen : w.socket.recvBufferLen = s.length := by rw [← hbuf, recvBytes, slice_length]
  have hle := packetFramer.tail_length_le s
  obtain ⟨m, hm⟩ := Option.isSome_iff_exists.mp hsome
  have hbytes : slice m 0 s.length = s := by
    rw [recvBytes, hm, hslen] at hbuf
    exact hbuf
  by_cases hnone : packetFramer.frames s = []
  · -- nothing was taken
    have htail : packetFramer.tail s = s := Framer.tail_of_lt (Framer.frames_eq_nil_iff.mp hnone)
    have hnot : ¬(((0 : Nat) : Int) < 0 ∨ ((0 : Nat) : Int) = 0 ∧ iRet = .recvNotEnoughBuffer) := by
      rintro (hneg | ⟨-, hfull⟩)
      · exact absurd hneg (by decide)
      · exact hret hfull hnone
    rw [htail, Nat.sub_self]
    refine ⟨m, hbytes, ?_⟩
    have hsame : World.afterCallback cb iRet ((0 : Nat) : Int) w = (true, w) := by
      rw [World.afterCallback, if_neg hnot, if_pos Nat.cast_zero]
    rw [hsame, ← hslen, ← hm]
  · -- the frames are dropped, and the tail is moved to the front
    have hlt := Framer.tail_length_lt_iff.mpr hnone
    generalize hn : s.length - (packetFramer.tail s).length = n
    have hn0 : 0 < n := by omega
    have hnot : ¬(((n : Nat) : Int) < 0 ∨ ((n : Nat) : Int) = 0 ∧ iRet = .recvNotEnoughBuffer) := by
      omega
    have hzero : ¬((n : Nat) : Int) = 0 := by omega
    have hfits : ¬((n : Nat) : Int) > TInt32.ofNat w.socket.recvBufferLen := by
      rw [hslen, TInt32.ofNat_eq (by omega)]
      omega
    have hleft : SizeT.sub w.socket.recvBufferLen n = (packetFramer.tail s).length := by
      rw [hslen, SizeT.sub_eq (by omega) (by omega)]
      omega
    have hpart : slice m (0 + n) (packetFramer.tail s).length =
        ((slice m 0 s.length).drop n).take (packetFramer.tail s).length := slice_part m 0 (by omega)
    have htail : s.drop n = packetFramer.tail s := by
      rw [← hn]
      exact (packetFramer.tail_eq_drop s).symm
    have hmoved := slice_copy_same m 0 (fun i => m (n + i)) (packetFramer.tail s).length
    rw [slice_shift, Nat.add_zero, ← Nat.zero_add n, hpart, hbytes, htail, List.take_length,
      Nat.zero_add] at hmoved
    refine ⟨_, hmoved, ?_⟩
    simp only [World.afterCallback, if_neg hnot, if_neg hzero, if_neg hfits, World.consumed,
      Int.toNat_natCast, hleft, hm, Option.map_some]

/-! ### One call -/

section Step

variable (h : Handlers σ) {svc : NetService} {before : List SessionEvent} {w : World (Session σ)}
  {read : List UInt8}

/-- The bytes one call of `recv_ex` reads. -/
def readOf (w : World (Session σ)) : List UInt8 :=
  (offers w.net.recvs (maxC2sPkgSize - w.socket.recvBufferLen)).bytes

/-- The part of the script one call of `recv_ex` leaves. -/
def restOf (w : World (Session σ)) : List RecvEvent :=
  (offers w.net.recvs (maxC2sPkgSize - w.socket.recvBufferLen)).rest

theorem Receiving.length (hw : Receiving svc before w read) :
    w.socket.recvBufferLen = (packetFramer.tail read).length := by
  rw [← hw.buffer, recvBytes, slice_length]

/-- What the callback of this call sees in the receive buffer. -/
theorem Receiving.atStop_bytes (hw : Receiving svc before w read) :
    recvBytes w.atStop.socket = packetFramer.tail read ++ readOf w ∧
      w.atStop.socket.recvBuffer.isSome := by
  constructor
  · rw [World.atStop, recvBytes_gathered hw.allocated, hw.buffer, readOf]
  · simpa only [World.atStop, World.gathered, Option.isSome_map] using hw.allocated

/-- The buffer never overflows. -/
theorem Receiving.atStop_length (hw : Receiving svc before w read) :
    (packetFramer.tail read ++ readOf w).length ≤ maxC2sPkgSize := by
  have hread := offers_length_le w.net.recvs (maxC2sPkgSize - w.socket.recvBufferLen)
  have hroom := hw.room
  rw [List.length_append, ← hw.length, readOf]
  omega

/-- The packets in the buffer are dispatched, behind those of the bytes before. -/
theorem Receiving.dispatched (hw : Receiving svc before w read) :
    let r := (Session.callbacks h).onRecvMessage w.atStop w.atStop.socket.recvBuffer
      w.atStop.socket.recvBufferLen
    r.1 = (((packetFramer.tail read ++ readOf w).length -
        (packetFramer.tail (packetFramer.tail read ++ readOf w)).length : Nat) : Int) ∧
      r.2.socket = w.atStop.socket ∧ r.2.net = w.atStop.net ∧ r.2.app.svc = svc ∧
      r.2.app.taken = (packetFramer.frames (read ++ readOf w)).flatten ∧
      r.2.app.log = before ++
        (svc.packetsOf (packetFramer.frames (read ++ readOf w))).map .packet := by
  obtain ⟨hbytes, -⟩ := hw.atStop_bytes
  have hlen : w.atStop.socket.recvBufferLen = (packetFramer.tail read ++ readOf w).length := by
    rw [← hbytes, recvBytes, slice_length]
  rw [recvBytes, hlen] at hbytes
  have hshort : (packetFramer.tail read ++ readOf w).length < 2 ^ 31 :=
    Nat.lt_of_le_of_lt hw.atStop_length (by decide)
  have hsvc : w.atStop.app.svc = svc := hw.service
  have htaken : w.atStop.app.taken = _ := hw.taken
  have hlog : w.atStop.app.log = _ := hw.log
  obtain ⟨hret, hpackets⟩ := onRecvMessage_eq svc w.atStop.app.conn hbytes hshort
  rw [Session.callbacks_onRecvMessage, hlen, hsvc]
  generalize svc.onRecvMessage (some w.atStop.app.conn)
    (w.atStop.socket.recvBuffer.getD fun _ => 0) 0
    (packetFramer.tail read ++ readOf w).length = r at hret hpackets
  obtain ⟨hnewSvc, hnewTaken, hnewLog⟩ := Session.received_fields h
    (w.atStop.socket.recvBuffer.getD fun _ => 0) w.atStop.app hret hpackets
  refine ⟨hret, rfl, rfl, hnewSvc.trans hsvc, ?_, ?_⟩
  · -- the taken bytes are the frames at the start of the buffer
    have hframes := slice_part (w.atStop.socket.recvBuffer.getD fun _ => 0) 0
      (show 0 + ((packetFramer.tail read ++ readOf w).length -
        (packetFramer.tail (packetFramer.tail read ++ readOf w)).length) ≤
        (packetFramer.tail read ++ readOf w).length by omega)
    rw [hbytes, List.drop_zero, ← Framer.flatten_frames_eq_take] at hframes
    rw [Framer.frames_append read, List.flatten_append, ← hframes, ← htaken]
    exact hnewTaken
  · rw [Framer.frames_append read, packetsOf_append, List.map_append, ← List.append_assoc, ← hlog]
    exact hnewLog

/-- A call after which the connection lives on: the socket has nothing more for now, or the buffer
is full and holds a complete frame. -/
def Continues (w : World (Session σ)) : Prop :=
  w.stopOf = .wouldBlock ∨ w.stopOf = .full ∧ packetFramer.frames (recvBytes w.atStop.socket) ≠ []

/-- Such a call leaves room in the buffer. -/
theorem Receiving.room_after (hw : Receiving svc before w read) (hc : Continues w) :
    (packetFramer.tail (packetFramer.tail read ++ readOf w)).length < maxC2sPkgSize := by
  have hlen := hw.atStop_length
  have hle := packetFramer.tail_length_le (packetFramer.tail read ++ readOf w)
  rcases hc with hblock | ⟨-, hframe⟩
  · have hnotFull : (readOf w).length ≠ maxC2sPkgSize - w.socket.recvBufferLen := by
      intro hfull
      have hstop : w.stopOf = .full := (offers_full_iff _ _).mpr hfull
      rw [hblock] at hstop
      exact absurd hstop (by decide)
    have hroom := hw.room
    have hlength := hw.length
    rw [List.length_append] at hlen hle
    omega
  · rw [hw.atStop_bytes.1] at hframe
    exact Nat.lt_of_lt_of_le (Framer.tail_length_lt_iff.mpr hframe) hlen

/-- A call that keeps the connection keeps the invariant, over the bytes it has read. -/
theorem Receiving.continues (hw : Receiving svc before w read) (hc : Continues w) :
    Receiving svc before (World.recvEx (Session.callbacks h) w).2 (read ++ readOf w) ∧
      (World.recvEx (Session.callbacks h) w).2.net = { w.net with recvs := restOf w } ∧
      (World.recvEx (Session.callbacks h) w).2.socket.funOnDisConnect =
        w.socket.funOnDisConnect := by
  obtain ⟨hbytes, hsome⟩ := hw.atStop_bytes
  obtain ⟨hret, hsocket, hnet, hsvc, htaken, hlog⟩ := hw.dispatched h
  have hlen := hw.atStop_length
  have hstop : w.stopOf = .full ∨ w.stopOf = .wouldBlock := hc.symm.imp And.left id
  have htail := packetFramer.tail_append read (readOf w)
  rw [World.recvEx_calls _ hw.live (Nat.le_of_lt hw.room) hw.callback hstop, hret]
  generalize (Session.callbacks h).onRecvMessage w.atStop w.atStop.socket.recvBuffer
    w.atStop.socket.recvBufferLen = r at hsocket hnet hsvc htaken hlog
  rw [← hsocket] at hbytes hsome
  generalize hcode : (if w.stopOf = .full then ConnErrorCode.recvNotEnoughBuffer
    else .wouldBlock) = code
  have hframes : code = .recvNotEnoughBuffer →
      packetFramer.frames (packetFramer.tail read ++ readOf w) ≠ [] := by
    intro hfull
    rcases hc with hblock | ⟨-, hframe⟩
    · rw [hblock] at hcode
      rw [← hcode] at hfull
      exact absurd hfull (by decide)
    · rwa [← hsocket, hbytes] at hframe
  obtain ⟨m, hleft, hafter⟩ := afterCallback_frames (Session.callbacks h) hbytes hlen hsome hframes
  rw [hafter]
  refine ⟨⟨?_, ?_, rfl, ?_, hw.room_after hc, hsvc, htaken, hlog⟩, hnet, ?_⟩
  · exact hsocket ▸ hw.live
  · exact hsocket ▸ hw.callback
  · rw [htail]
    exact hleft
  · dsimp only
    rw [hsocket]
    rfl

/-- What the application sees of a connection that was lost. -/
theorem disconnect_callbacks (w : World (Session σ)) :
    (World.disconnect (Session.callbacks h) w).socket = ClientSocket.new ∧
      (World.disconnect (Session.callbacks h) w).app.log =
        w.app.log ++ (if w.socket.funOnDisConnect then [.disconnect] else []) ∧
      (World.disconnect (Session.callbacks h) w).app.taken = w.app.taken := by
  refine ⟨rfl, ?_⟩
  cases hinstalled : w.socket.funOnDisConnect with
  | false => simp [World.disconnect, World.close, hinstalled]
  | true => simp [World.disconnect, World.close, hinstalled, Session.callbacks, Session.left]

/-- The read meets the peer's close, or fails: what this call has read is not dispatched. -/
theorem Receiving.lost (hw : Receiving svc before w read)
    (hstop : w.stopOf = .closed ∨ w.stopOf = .error) :
    (World.recvEx (Session.callbacks h) w).2.socket = ClientSocket.new ∧
      (World.recvEx (Session.callbacks h) w).2.app.log =
        before ++ (svc.packetsOf (packetFramer.frames read)).map .packet ++
          (if w.socket.funOnDisConnect then [.disconnect] else []) ∧
      (World.recvEx (Session.callbacks h) w).2.app.taken = (packetFramer.frames read).flatten := by
  rw [World.recvEx_lost _ hw.live (Nat.le_of_lt hw.room) hw.callback hstop]
  obtain ⟨hsocket, hlog, htaken⟩ := disconnect_callbacks h w.atStop
  refine ⟨hsocket, ?_, htaken.trans hw.taken⟩
  rw [hlog, ← hw.log]
  rfl

/-- The buffer is full and holds no complete frame. -/
theorem Receiving.stuck (hw : Receiving svc before w read) (hstop : w.stopOf = .full)
    (hnone : packetFramer.frames (recvBytes w.atStop.socket) = []) :
    (World.recvEx (Session.callbacks h) w).2.socket = ClientSocket.new ∧
      (World.recvEx (Session.callbacks h) w).2.app.log =
        before ++ (svc.packetsOf (packetFramer.frames read)).map .packet ++
          (if w.socket.funOnDisConnect then [.disconnect] else []) ∧
      (World.recvEx (Session.callbacks h) w).2.app.taken = (packetFramer.frames read).flatten := by
  obtain ⟨hbytes, -⟩ := hw.atStop_bytes
  rw [hbytes] at hnone
  obtain ⟨hret, hsocket, -, -, htaken, hlog⟩ := hw.dispatched h
  have htail : packetFramer.tail (packetFramer.tail read ++ readOf w) =
      packetFramer.tail read ++ readOf w := Framer.tail_of_lt (Framer.frames_eq_nil_iff.mp hnone)
  rw [htail, Nat.sub_self] at hret
  rw [Framer.frames_append, hnone, List.append_nil] at hlog htaken
  rw [World.recvEx_calls _ hw.live (Nat.le_of_lt hw.room) hw.callback (.inl hstop), if_pos hstop,
    hret]
  generalize (Session.callbacks h).onRecvMessage w.atStop w.atStop.socket.recvBuffer
    w.atStop.socket.recvBufferLen = r at hsocket htaken hlog
  rw [World.afterCallback, if_pos (.inr ⟨Nat.cast_zero, rfl⟩)]
  obtain ⟨hgone, hleft, hkept⟩ := disconnect_callbacks h r.2
  refine ⟨hgone, ?_, hkept.trans htaken⟩
  rw [hleft, hlog, hsocket]
  rfl

end Step

end MmDriver

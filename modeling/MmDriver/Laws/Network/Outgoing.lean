import MmDriver.Laws.Network.ServerSocket

/-!
# What a peer gets

The outgoing stream again, on a socket that may fail. What the socket has accepted, and then what waits
in the send buffer, is `out`: a sender extends it by the message it takes, or the connection is lost,
and receiving leaves it alone.
-/

namespace MmDriver

open ByteMem

namespace World

variable {ω : Type} {C : Nat} {out : List UInt8}

/-- What the peer has got or will get is `out`. -/
def Outgoing (C : Nat) (c : ClientSocket) (net : Net) (out : List UInt8) : Prop :=
  ∃ bytes, Buffered C c bytes ∧ net.sent ++ bytes = out

/-- The part of a connection that it depends on. -/
structure SameSend (w w' : World ω) : Prop where
  sent : w'.net.sent = w.net.sent
  nSendBufSize : w'.socket.nSendBufSize = w.socket.nSendBufSize
  sendBuffer : w'.socket.sendBuffer = w.socket.sendBuffer
  sendHead : w'.socket.sendHead = w.socket.sendHead
  sendTail : w'.socket.sendTail = w.socket.sendTail

theorem SameSend.refl (w : World ω) : SameSend w w := ⟨rfl, rfl, rfl, rfl, rfl⟩

theorem SameSend.trans {w w' w'' : World ω} (h : SameSend w w') (h' : SameSend w' w'') :
    SameSend w w'' :=
  ⟨h'.sent.trans h.sent, h'.nSendBufSize.trans h.nSendBufSize, h'.sendBuffer.trans h.sendBuffer,
    h'.sendHead.trans h.sendHead, h'.sendTail.trans h.sendTail⟩

theorem SameSend.outgoing {w w' : World ω} (h : SameSend w w')
    (hw : Outgoing C w.socket w.net out) : Outgoing C w'.socket w'.net out := by
  obtain ⟨bytes, hbuffered, hout⟩ := hw
  refine ⟨bytes, ⟨?_, ?_, ?_, ?_, ?_⟩, by rw [h.sent, hout]⟩
  · exact h.nSendBufSize.trans hbuffered.capacity
  · rw [h.sendBuffer]
    exact hbuffered.buffer
  · rw [h.sendHead, h.sendTail]
    exact hbuffered.head_le
  · rw [h.sendTail]
    exact hbuffered.tail_le
  · have hptr : sendPtr w'.socket = sendPtr w.socket := by
      funext i
      simp only [sendPtr, h.sendBuffer, h.sendHead]
    rw [pending, hptr, h.sendHead, h.sendTail]
    exact hbuffered.bytes

/-- A client before and after a call. -/
theorem SameSend.client {w w' : ServerWorld ω} {i : Nat} {u v : World ω} (h : SameSend u v)
    (hu : w.clients i = ⟨u.socket, u.net⟩) (hv : w'.clients i = ⟨v.socket, v.net⟩) :
    SameSend (w.client i) (w'.client i) := by
  rw [ServerWorld.client, ServerWorld.client, hu, hv]
  exact ⟨h.sent, h.nSendBufSize, h.sendBuffer, h.sendHead, h.sendTail⟩

theorem SameSend.of_clients {w w' : ServerWorld ω} {i : Nat} (h : w'.clients i = w.clients i) :
    SameSend (w.client i) (w'.client i) := (SameSend.refl (w.client i)).client rfl h

section Calls

variable {cb : Callbacks ω} {left : ω → ω} (hcb : AppOnly cb left) {w : World ω}

include hcb

theorem afterCallback_sameSend (h : w.socket.funOnDisConnect = true) (iRet : ConnErrorCode)
    (nReadLen : Int) : SameSend w (afterCallback cb iRet nReadLen w).2 ∨
      (afterCallback cb iRet nReadLen w).2.socket = ClientSocket.new := by
  unfold afterCallback
  split
  · exact .inr (disconnect_serving hcb h).1
  · split
    · exact .inl (.refl w)
    · split
      · exact .inl (.refl w)
      · exact .inl ⟨rfl, rfl, rfl, rfl, rfl⟩

/-- `recv_ex` leaves what goes out alone, or the connection is lost. -/
theorem recvEx_sameSend (h : Serving w.socket) :
    SameSend w (recvEx cb w).2 ∨ (recvEx cb w).2.socket = ClientSocket.new := by
  have hstop := h.atStop
  have hsame : SameSend w w.atStop := ⟨rfl, rfl, rfl, rfl, rfl⟩
  have hcalls : w.stopOf = .full ∨ w.stopOf = .wouldBlock →
      SameSend w (recvEx cb w).2 ∨ (recvEx cb w).2.socket = ClientSocket.new := by
    intro hwhy
    obtain ⟨a, ha⟩ := hcb.onRecvMessage w.atStop w.atStop.socket.recvBuffer
      w.atStop.socket.recvBufferLen
    have hcalled : SameSend w { w.atStop with app := a } := ⟨rfl, rfl, rfl, rfl, rfl⟩
    rw [recvEx_calls cb h.live h.room h.onRecvMessage hwhy, ha]
    exact (afterCallback_sameSend hcb (w := { w.atStop with app := a }) hstop.onDisConnect _ _).imp_left
      hcalled.trans
  have hlost : w.stopOf = .closed ∨ w.stopOf = .error →
      SameSend w (recvEx cb w).2 ∨ (recvEx cb w).2.socket = ClientSocket.new := by
    intro hwhy
    rw [recvEx_lost cb h.live h.room h.onRecvMessage hwhy]
    exact .inr (disconnect_serving hcb hstop.onDisConnect).1
  cases hwhy : w.stopOf with
  | full => exact hcalls (.inl hwhy)
  | wouldBlock => exact hcalls (.inr hwhy)
  | closed => exact hlost (.inl hwhy)
  | error => exact hlost (.inr hwhy)

/-- The fresh half of `send_data`, with the buffer empty. -/
theorem Outgoing.sendFresh (hC : C < 2 ^ 64) (hempty : Buffered C w.socket [])
    (hstart : w.socket.sendTail = 0) (hfun : w.socket.funOnDisConnect = true)
    (hout : w.net.sent = out) (data : Nat → UInt8) {size : Nat} (hsize : size ≤ C) :
    let r := World.sendFresh cb w data size
    r.2.socket = ClientSocket.new ∨
      r.1 = .success ∧ Outgoing C r.2.socket r.2.net (out ++ slice data 0 size) := by
  have hloop := sendLoop_sendsUpTo w.net data size
  unfold World.sendFresh
  generalize sendLoop w.net data size = r at hloop
  have hle := hloop.accepted_le
  have hall : slice data 0 r.accepted ++
      slice (fun i => data (r.accepted + i)) 0 (size - r.accepted) = slice data 0 size := by
    rw [slice_shift, Nat.add_zero]
    conv => rhs; rw [← Nat.add_sub_of_le hle, slice_add, Nat.zero_add]
  obtain ⟨stop, accepted, net⟩ := r
  dsimp only at hloop hle hall ⊢
  cases stop with
  | drained =>
    refine .inr ⟨rfl, [], hempty, ?_⟩
    rw [hloop.sent, hout, hloop.drained.mp rfl, List.append_nil]
  | stalled =>
    have hroom : w.socket.sendTail + (size - accepted) ≤ C := by
      rw [hstart]
      omega
    refine .inr ⟨rfl, _, hempty.appended hC (fun i => data (accepted + i)) hroom, ?_⟩
    rw [hloop.sent, hout, List.nil_append, List.append_assoc, hall]
  | failed => exact .inl (disconnect_serving hcb (w := { w with net := net }) hfun).1

/-- `send_data` extends what goes out by the message it takes, or the connection is lost. -/
theorem Outgoing.sendData (hC : C < 2 ^ 64) (hserving : Serving w.socket)
    (h : Outgoing C w.socket w.net out) (data : Nat → UInt8) {size : Nat} (hpos : 0 < size)
    (hsize : size ≤ C) :
    let r := World.sendData cb w (some data) size
    r.2.socket = ClientSocket.new ∨ Outgoing C r.2.socket r.2.net
      (out ++ if r.1 = .success then slice data 0 size else []) := by
  obtain ⟨bytes, hbuffered, hout⟩ := h
  obtain ⟨k, hflush⟩ := flush_flushed hbuffered hC
  simp only [World.sendData, if_neg (Nat.ne_of_gt hpos), if_neg (not_not.mpr hserving.live)]
  generalize World.flush w = r at hflush
  obtain ⟨stop, w'⟩ := r
  have hfun : w'.socket.funOnDisConnect = true :=
    (congrArg ClientSocket.funOnDisConnect hflush.socket).trans hserving.onDisConnect
  have hbuffered' := hflush.buffered
  have hout' : w'.net.sent ++ bytes.drop k = out := by
    rw [hflush.sent, List.append_assoc, List.take_append_drop, hout]
  cases stop with
  | drained =>
    rw [hflush.drained.mp rfl, List.drop_length] at hbuffered' hout'
    rw [List.append_nil] at hout'
    rcases Outgoing.sendFresh hcb hC hbuffered'.rewound rfl (w := w'.rewound) hfun hout' data hsize
      with hlost | ⟨hret, hfresh⟩
    · exact .inl hlost
    · refine .inr ?_
      dsimp only
      rw [if_pos hret]
      exact hfresh
  | stalled =>
    have hremained : SizeT.sub w'.socket.sendTail w'.socket.sendHead = (bytes.drop k).length := by
      have htail := hbuffered'.tail_le
      rw [SizeT.sub_eq hbuffered'.head_le (by omega), hbuffered'.length]
    obtain ⟨-, hcases⟩ := hbuffered'.cache hC data size
    dsimp only
    rw [hremained]
    rcases hcases with ⟨hret, hnext⟩ | ⟨hret, hsame⟩
    · refine .inr ⟨_, hnext, ?_⟩
      rw [if_pos hret, ← hout', List.append_assoc]
    · refine .inr ⟨_, hsame.symm ▸ hbuffered', ?_⟩
      rw [if_neg (by rw [hret]; decide), List.append_nil, hout']
  | failed => exact .inl (disconnect_serving hcb (w := w') hfun).1

end Calls

end World

end MmDriver

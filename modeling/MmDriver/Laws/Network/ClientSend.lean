import MmDriver.Lib.CallMachine
import MmDriver.Network.ClientSocket

/-!
# The outgoing stream

The bytes the socket has accepted, followed by the bytes pending in the send buffer, are the
messages the senders took, in order. `SendsUpTo` says what the loop around `send_ex` does;
`Stream` is the invariant of a connection that only sends, and every sender keeps it, extended by
the message it took.
-/

namespace MmDriver

open ByteMem CallMachine

namespace World

/-! ## The loop around `send_ex` -/

/-- What a loop over `n` bytes from `ptr` on leaves: the socket has accepted a first part of them,
all of them exactly when the loop drained, and it failed only on an error. -/
structure SendsUpTo (net : Net) (ptr : Nat → UInt8) (n : Nat) (r : SendLoop) : Prop where
  accepted_le : r.accepted ≤ n
  sent : r.net.sent = net.sent ++ slice ptr 0 r.accepted
  recvs : r.net.recvs = net.recvs
  closed : r.net.closed = net.closed
  opened : r.net.opened = net.opened
  sends : r.net.sends <:+ net.sends
  drained : r.stop = .drained ↔ r.accepted = n
  failed : r.stop = .failed → .error ∈ net.sends

/-- One write, by what the socket does. -/
structure SendsPart (net : Net) (ptr : Nat → UInt8) (len : Nat) (r : SocketApi.SendResult) :
    Prop where
  sent : r.net.sent = net.sent ++ slice ptr 0 r.ret.toNat
  recvs : r.net.recvs = net.recvs
  closed : r.net.closed = net.closed
  opened : r.net.opened = net.opened
  sends : r.net.sends <:+ net.sends
  failed : r.ret < 0 → ConnErrorCode.wouldBlock.toInt ≠ r.ret → .error ∈ net.sends

theorem sendEx_sendsPart (net : Net) (ptr : Nat → UInt8) (len : Nat) :
    SendsPart net ptr len (SocketApi.sendEx net ptr len) := by
  unfold SocketApi.sendEx
  split
  · exact ⟨(List.append_nil _).symm, rfl, rfl, rfl, List.suffix_rfl, fun _ h => absurd rfl h⟩
  · next n later hsends =>
    refine ⟨rfl, rfl, rfl, rfl, hsends ▸ List.suffix_cons _ _, fun hneg => ?_⟩
    exact absurd hneg (Int.not_lt.mpr (Int.natCast_nonneg _))
  · next later hsends =>
    exact ⟨(List.append_nil _).symm, rfl, rfl, rfl, hsends ▸ List.suffix_cons _ _,
      fun _ h => absurd rfl h⟩
  · next later hsends =>
    refine ⟨(List.append_nil _).symm, rfl, rfl, rfl, hsends ▸ List.suffix_cons _ _, fun _ _ => ?_⟩
    rw [hsends]
    exact List.mem_cons_self

/-- The loop, one write at a time. -/
theorem sendLoop_sendsUpTo (net : Net) (ptr : Nat → UInt8) (n : Nat) :
    SendsUpTo net ptr n (sendLoop net ptr n) := by
  fun_induction sendLoop net ptr n with
  | case1 net ptr n hn r hsent rest ih =>
    have hpart : SendsPart net ptr _ r := sendEx_sendsPart net ptr _
    have hle : r.ret.toNat ≤ n := by
      have hret : r.ret ≤ (TUint32.ofNat n : Nat) := SocketApi.sendEx_ret_le net ptr _
      have hcast : TUint32.ofNat n ≤ n := Nat.mod_le n _
      omega
    have hrest : rest.accepted ≤ n - r.ret.toNat := ih.accepted_le
    have htotal : r.ret.toNat + rest.accepted ≤ n := by omega
    have hall : rest.accepted = n - r.ret.toNat ↔ r.ret.toNat + rest.accepted = n := by omega
    refine ⟨htotal, ?_, ih.recvs.trans hpart.recvs, ih.closed.trans hpart.closed,
      ih.opened.trans hpart.opened, ih.sends.trans hpart.sends, ih.drained.trans hall,
      fun hfailed => hpart.sends.mem (ih.failed hfailed)⟩
    rw [ih.sent, hpart.sent, slice_shift, List.append_assoc, Nat.add_zero, slice_add, Nat.zero_add]
  | case2 net ptr n hn r hsent hfail =>
    have hpart : SendsPart net ptr _ r := sendEx_sendsPart net ptr _
    have hzero : r.ret.toNat = 0 := by omega
    have hsame := hpart.sent
    rw [hzero] at hsame
    exact ⟨Nat.zero_le n, hsame, hpart.recvs, hpart.closed, hpart.opened, hpart.sends,
      iff_of_false SendStop.noConfusion (Nat.ne_of_lt hn), fun _ => hpart.failed hfail.1 hfail.2⟩
  | case3 net ptr n hn r hsent hfail =>
    have hpart : SendsPart net ptr _ r := sendEx_sendsPart net ptr _
    have hzero : r.ret.toNat = 0 := by omega
    have hsame := hpart.sent
    rw [hzero] at hsame
    exact ⟨Nat.zero_le n, hsame, hpart.recvs, hpart.closed, hpart.opened, hpart.sends,
      iff_of_false SendStop.noConfusion (Nat.ne_of_lt hn), SendStop.noConfusion⟩
  | case4 net ptr n hn =>
    have hzero : n = 0 := Nat.eq_zero_of_not_pos hn
    exact ⟨Nat.zero_le n, (List.append_nil _).symm, rfl, rfl, rfl, List.suffix_rfl,
      iff_of_true rfl hzero.symm, SendStop.noConfusion⟩

/-! ## The send buffer -/

/-- The bytes waiting in the send buffer. -/
def pending (c : ClientSocket) : List UInt8 := slice (sendPtr c) 0 (c.sendTail - c.sendHead)

/-- The send buffer, of capacity `C`, holds these bytes between its two indices. -/
structure Buffered (C : Nat) (c : ClientSocket) (bytes : List UInt8) : Prop where
  capacity : c.nSendBufSize = C
  buffer : c.sendBuffer.isSome
  head_le : c.sendHead ≤ c.sendTail
  tail_le : c.sendTail ≤ C
  bytes : pending c = bytes

/-- Nothing but the send buffer and its indices differs. -/
def SendOnly (c c' : ClientSocket) : Prop :=
  c' = { c with
    sendBuffer := c'.sendBuffer
    sendHead := c'.sendHead
    sendTail := c'.sendTail }

theorem SendOnly.refl (c : ClientSocket) : SendOnly c c := rfl

theorem SendOnly.trans {c c' c'' : ClientSocket} (h : SendOnly c c') (h' : SendOnly c' c'') :
    SendOnly c c'' := by
  unfold SendOnly at *
  rw [h] at h'
  exact h'

theorem SendOnly.live {c c' : ClientSocket} (h : SendOnly c c') (hc : c.Live) : c'.Live := by
  rw [h]
  exact hc

section Buffer

variable {C : Nat} {c : ClientSocket} {bytes : List UInt8}

theorem Buffered.length (h : Buffered C c bytes) : bytes.length = c.sendTail - c.sendHead := by
  rw [← h.bytes, pending, slice_length]

/-- What `sendPtr` points to, with the buffer at hand. -/
theorem pending_some {m : Memory} (hm : c.sendBuffer = some m) :
    pending c = slice m c.sendHead (c.sendTail - c.sendHead) := by
  have hptr : sendPtr c = fun i => m (c.sendHead + i) := by
    funext i
    simp only [sendPtr, hm]
  rw [pending, hptr, slice_shift, Nat.add_zero]

/-- Fresh data behind the pending bytes. -/
theorem Buffered.appended (h : Buffered C c bytes) (hC : C < 2 ^ 64) (data : Nat → UInt8)
    {size : Nat} (hroom : c.sendTail + size ≤ C) :
    Buffered C (appended c data size) (bytes ++ slice data 0 size) := by
  obtain ⟨m, hm⟩ := Option.isSome_iff_exists.mp h.buffer
  have hle := h.head_le
  have htail : SizeT.add c.sendTail size = c.sendTail + size := SizeT.add_eq (by omega)
  refine ⟨h.capacity, ?_, ?_, ?_, ?_⟩
  · simp [World.appended, hm]
  · simp only [World.appended, htail]
    omega
  · simpa only [World.appended, htail] using hroom
  · have hnew : (World.appended c data size).sendBuffer = some (copy m c.sendTail data size) := by
      simp [World.appended, hm]
    have hbytes := h.bytes
    rw [pending_some hm] at hbytes
    rw [pending_some hnew]
    simp only [World.appended, htail]
    rw [show c.sendTail + size - c.sendHead = c.sendTail - c.sendHead + size by omega, slice_add,
      slice_copy_outside (by omega), hbytes, show c.sendHead + (c.sendTail - c.sendHead) =
      c.sendTail by omega]
    rw [slice_copy_same]

/-- The pending bytes moved to the start. -/
theorem Buffered.compacted (h : Buffered C c bytes) :
    Buffered C (compacted c bytes.length) bytes := by
  obtain ⟨m, hm⟩ := Option.isSome_iff_exists.mp h.buffer
  have hlen := h.length
  have hle := h.tail_le
  refine ⟨h.capacity, ?_, Nat.zero_le _, ?_, ?_⟩
  · simp [World.compacted, hm]
  · simp only [World.compacted]
    omega
  · have hnew : (World.compacted c bytes.length).sendBuffer =
        some (copy m 0 (fun i => m (c.sendHead + i)) bytes.length) := by
      simp [World.compacted, hm]
    have hbytes := h.bytes
    rw [pending_some hm, ← hlen] at hbytes
    rw [pending_some hnew]
    simp only [World.compacted, Nat.sub_zero]
    rw [slice_copy_same, slice_shift, Nat.add_zero, hbytes]

/-- The three cases of caching: the data is behind the pending bytes, or nothing has changed. -/
theorem Buffered.cache (h : Buffered C c bytes) (hC : C < 2 ^ 64) (data : Nat → UInt8)
    (size : Nat) :
    SendOnly c (cache c data size bytes.length).2 ∧
      ((cache c data size bytes.length).1 = .success ∧
          Buffered C (cache c data size bytes.length).2 (bytes ++ slice data 0 size) ∨
        (cache c data size bytes.length).1 = .sendNotEnoughBuffer ∧
          (cache c data size bytes.length).2 = c) := by
  have hcap := h.capacity
  have hhead := h.head_le
  have htail := h.tail_le
  have hlen := h.length
  have hend : SizeT.sub c.nSendBufSize c.sendTail = C - c.sendTail := by
    rw [hcap, SizeT.sub_eq htail hC]
  have hall : SizeT.add (C - c.sendTail) c.sendHead = C - c.sendTail + c.sendHead :=
    SizeT.add_eq (by omega)
  unfold World.cache
  rw [hend, hall]
  split
  · next hroom => exact ⟨rfl, .inl ⟨rfl, h.appended hC data (by omega)⟩⟩
  · split
    · next hroom =>
      refine ⟨rfl, .inl ⟨rfl, h.compacted.appended hC data ?_⟩⟩
      simp only [World.compacted]
      omega
    · exact ⟨rfl, .inr ⟨rfl, rfl⟩⟩

/-- Without its first bytes, which `m_send_head` has passed. -/
theorem Buffered.advanced (h : Buffered C c bytes) {k : Nat} (hk : k ≤ bytes.length) :
    Buffered C { c with sendHead := c.sendHead + k } (bytes.drop k) := by
  obtain ⟨m, hm⟩ := Option.isSome_iff_exists.mp h.buffer
  have hlen := h.length
  have hhead := h.head_le
  have hle : c.sendHead + k ≤ c.sendTail := by omega
  refine ⟨h.capacity, h.buffer, hle, h.tail_le, ?_⟩
  have hbytes := h.bytes
  rw [pending_some hm] at hbytes
  have hadvanced := pending_some (c := { c with sendHead := c.sendHead + k }) hm
  rw [hadvanced, slice_part m c.sendHead (n := c.sendTail - c.sendHead) (by dsimp only; omega),
    hbytes, List.take_of_length_le]
  simp only [List.length_drop]
  omega

/-- An empty buffer may start anew. -/
theorem Buffered.rewound (h : Buffered C c []) :
    Buffered C { c with sendHead := 0, sendTail := 0 } [] :=
  ⟨h.capacity, h.buffer, Nat.le_refl 0, Nat.zero_le C, rfl⟩

end Buffer

/-! ## The senders -/

section Senders

variable {ω : Type} {C : Nat} {w : World ω} {bytes : List UInt8}

/-- What `flush` leaves: the socket has accepted the first `k` of the pending bytes. -/
structure Flushed (C : Nat) (w : World ω) (bytes : List UInt8) (k : Nat)
    (r : SendStop × World ω) : Prop where
  le : k ≤ bytes.length
  socket : SendOnly w.socket r.2.socket
  buffered : Buffered C r.2.socket (bytes.drop k)
  sent : r.2.net.sent = w.net.sent ++ bytes.take k
  recvs : r.2.net.recvs = w.net.recvs
  closed : r.2.net.closed = w.net.closed
  sends : r.2.net.sends <:+ w.net.sends
  app : r.2.app = w.app
  drained : r.1 = .drained ↔ k = bytes.length
  failed : r.1 = .failed → .error ∈ w.net.sends

/-- `flush` on a buffer that holds `bytes`. -/
theorem flush_eq (h : Buffered C w.socket bytes) (hC : C < 2 ^ 64) :
    flush w =
      let r := sendLoop w.net (sendPtr w.socket) bytes.length
      (r.stop, { w with
        net := r.net
        socket := { w.socket with sendHead := w.socket.sendHead + r.accepted } }) := by
  have hlen := h.length
  have hhead := h.head_le
  have htail := h.tail_le
  have hremained : SizeT.sub w.socket.sendTail w.socket.sendHead = bytes.length := by
    rw [SizeT.sub_eq hhead (by omega), hlen]
  have hle := (sendLoop_sendsUpTo w.net (sendPtr w.socket) bytes.length).accepted_le
  rw [flush, hremained]
  generalize sendLoop w.net (sendPtr w.socket) bytes.length = r at hle
  dsimp only
  rw [SizeT.add_eq (by omega)]

theorem flush_flushed (h : Buffered C w.socket bytes) (hC : C < 2 ^ 64) :
    ∃ k, Flushed C w bytes k (flush w) := by
  have hloop := sendLoop_sendsUpTo w.net (sendPtr w.socket) bytes.length
  have hptr : slice (sendPtr w.socket) 0 bytes.length = bytes := by
    rw [h.length]
    exact h.bytes
  rw [flush_eq h hC]
  generalize sendLoop w.net (sendPtr w.socket) bytes.length = r at hloop
  have hle := hloop.accepted_le
  refine ⟨r.accepted, hle, rfl, h.advanced hle, ?_, hloop.recvs, hloop.closed, hloop.sends, rfl,
    hloop.drained, hloop.failed⟩
  rw [← hptr, ← Nat.add_sub_of_le hle, slice_add, List.take_left' (slice_length _ _ _)]
  exact hloop.sent

/-- A connection whose accepted and pending bytes are `out`, on a socket without hard errors. -/
structure Stream (C : Nat) (w : World ω) (out : List UInt8) : Prop where
  live : w.socket.Live
  noError : .error ∉ w.net.sends
  stream : ∃ bytes, Buffered C w.socket bytes ∧ w.net.sent ++ bytes = out

/-- `flush` moves bytes from the buffer to the socket. -/
theorem Stream.flush {out : List UInt8} (h : Stream C w out) (hC : C < 2 ^ 64) :
    (flush w).1 ≠ .failed ∧ Stream C (flush w).2 out ∧
      ((flush w).1 = .drained → Buffered C (flush w).2.socket []) := by
  obtain ⟨bytes, hbuffered, hout⟩ := h.stream
  obtain ⟨k, hflush⟩ := flush_flushed hbuffered hC
  have hnoError : .error ∉ (World.flush w).2.net.sends := fun herror =>
    h.noError (hflush.sends.mem herror)
  refine ⟨fun hfailed => h.noError (hflush.failed hfailed), ?_, fun hdrained => ?_⟩
  · refine ⟨hflush.socket.live h.live, hnoError, bytes.drop k, hflush.buffered, ?_⟩
    rw [hflush.sent, List.append_assoc, List.take_append_drop, hout]
  · have hnothing := hflush.buffered
    rwa [hflush.drained.mp hdrained, List.drop_length] at hnothing

/-- `rewound` on an empty buffer. -/
theorem Stream.rewound {out : List UInt8} (h : Stream C w out)
    (hempty : Buffered C w.socket []) : Stream C w.rewound out := by
  obtain ⟨bytes, hbuffered, hout⟩ := h.stream
  have hnothing : bytes = [] := hbuffered.bytes.symm.trans hempty.bytes
  subst hnothing
  exact ⟨h.live, h.noError, [], hempty.rewound, hout⟩

/-- Caching a message behind the pending bytes. -/
theorem Stream.cache {out : List UInt8} (h : Stream C w out) (hC : C < 2 ^ 64) (d : List UInt8) :
    let r := cache w.socket (ofList d) d.length
      (SizeT.sub w.socket.sendTail w.socket.sendHead)
    Stream C { w with socket := r.2 } (out ++ if r.1 = .success then d else []) := by
  obtain ⟨bytes, hbuffered, hout⟩ := h.stream
  have hlen := hbuffered.length
  have hhead := hbuffered.head_le
  have htail := hbuffered.tail_le
  have hremained : SizeT.sub w.socket.sendTail w.socket.sendHead = bytes.length := by
    rw [SizeT.sub_eq hhead (by omega), hlen]
  rw [hremained]
  obtain ⟨hsocket, hcases⟩ := hbuffered.cache hC (ofList d) d.length
  generalize World.cache w.socket (ofList d) d.length bytes.length = r at hsocket hcases
  rcases hcases with ⟨hret, hnext⟩ | ⟨hret, hsame⟩
  · rw [slice_ofList] at hnext
    refine ⟨hsocket.live h.live, h.noError, bytes ++ d, hnext, ?_⟩
    rw [if_pos hret, ← hout, List.append_assoc]
  · refine ⟨hsocket.live h.live, h.noError, bytes, hsame ▸ hbuffered, ?_⟩
    rw [if_neg (by rw [hret]; decide), List.append_nil, hout]

/-- `send_cache_data` keeps the stream. -/
theorem Stream.sendCacheData {out : List UInt8} (cb : Callbacks ω) (h : Stream C w out)
    (hC : C < 2 ^ 64) : Stream C (sendCacheData cb w).2 out := by
  obtain ⟨hok, hnext, hdrained⟩ := h.flush hC
  rw [World.sendCacheData, if_neg (not_not.mpr h.live)]
  generalize World.flush w = r at hok hnext hdrained
  obtain ⟨stop, w'⟩ := r
  cases stop with
  | drained => exact hnext.rewound (hdrained rfl)
  | stalled => exact hnext
  | failed => exact absurd rfl hok

/-- `send_cache` extends the stream by the message it takes. -/
theorem Stream.sendCache {out : List UInt8} (h : Stream C w out) (hC : C < 2 ^ 64)
    {d : List UInt8} (hd : 1 ≤ d.length) :
    Stream C (sendCache w (some (ofList d)) d.length).2
      (out ++ if (sendCache w (some (ofList d)) d.length).1 = .success then d else []) := by
  have hcache := h.cache hC d
  have hsome : d.length ≠ 0 := Nat.one_le_iff_ne_zero.mp hd
  simp only [World.sendCache, if_neg hsome, if_neg (not_not.mpr h.live)]
  exact hcache

/-- The fresh half of `send_data`, with the buffer empty. -/
theorem Stream.sendFresh {out : List UInt8} (cb : Callbacks ω) (h : Stream C w out)
    (hC : C < 2 ^ 64) (hempty : Buffered C w.socket []) (hstart : w.socket.sendTail = 0)
    {d : List UInt8} (hd : d.length - (sendLoop w.net (ofList d) d.length).accepted ≤ C) :
    (sendFresh cb w (ofList d) d.length).1 = .success ∧
      Stream C (sendFresh cb w (ofList d) d.length).2 (out ++ d) := by
  obtain ⟨bytes, hbuffered, hout⟩ := h.stream
  have hnothing : bytes = [] := hbuffered.bytes.symm.trans hempty.bytes
  subst hnothing
  have hloop := sendLoop_sendsUpTo w.net (ofList d) d.length
  unfold World.sendFresh
  generalize sendLoop w.net (ofList d) d.length = r at hloop hd
  have hle := hloop.accepted_le
  have hnoError : .error ∉ r.net.sends := fun herror => h.noError (hloop.sends.mem herror)
  have hsent : w.net.sent = out := by rwa [List.append_nil] at hout
  have hall : slice (ofList d) 0 r.accepted ++
      slice (fun i => ofList d (r.accepted + i)) 0 (d.length - r.accepted) = d := by
    rw [slice_shift, Nat.add_zero]
    conv => rhs; rw [← slice_ofList d, ← Nat.add_sub_of_le hle, slice_add, Nat.zero_add]
  obtain ⟨stop, accepted, net⟩ := r
  dsimp only at hd hloop hle hnoError hall ⊢
  cases stop with
  | drained =>
    refine ⟨rfl, h.live, hnoError, [], hempty, ?_⟩
    rw [hloop.sent, hsent, hloop.drained.mp rfl, slice_ofList, List.append_nil]
  | stalled =>
    refine ⟨rfl, h.live, hnoError, _, hempty.appended hC _ ?_, ?_⟩
    · rwa [hstart, Nat.zero_add]
    · rw [hloop.sent, hsent, List.nil_append, List.append_assoc, hall]
  | failed => exact absurd (hloop.failed rfl) h.noError

/-- `send_data` extends the stream by the message it takes. -/
theorem Stream.sendData {out : List UInt8} (cb : Callbacks ω) (h : Stream C w out)
    (hC : C < 2 ^ 64) {d : List UInt8} (hd : 1 ≤ d.length)
    (hfits : (World.flush w).1 = .drained →
      d.length - (sendLoop (World.flush w).2.net (ofList d) d.length).accepted ≤ C) :
    Stream C (sendData cb w (some (ofList d)) d.length).2
      (out ++ if (sendData cb w (some (ofList d)) d.length).1 = .success then d else []) := by
  obtain ⟨hok, hnext, hdrained⟩ := h.flush hC
  have hsome : d.length ≠ 0 := Nat.one_le_iff_ne_zero.mp hd
  simp only [World.sendData, if_neg hsome, if_neg (not_not.mpr h.live)]
  generalize World.flush w = r at hok hnext hdrained hfits
  obtain ⟨stop, w'⟩ := r
  cases stop with
  | drained =>
    have hempty := hdrained rfl
    obtain ⟨hret, hfresh⟩ :=
      (hnext.rewound hempty).sendFresh cb hC hempty.rewound rfl (hfits rfl)
    dsimp only
    rw [if_pos hret]
    exact hfresh
  | stalled => exact hnext.cache hC d
  | failed => exact absurd rfl hok

end Senders

/-! ## Runs -/

/-- A call of a sender. -/
inductive SendCall where
  | sendData (d : List UInt8)
  | sendCache (d : List UInt8)
  | sendCacheData
deriving DecidableEq, Repr

namespace SendCall

/-- The message a call offers. -/
def message : SendCall → List UInt8
  | sendData d => d
  | sendCache d => d
  | sendCacheData => []

/-- A message of at least one byte, and no longer than the buffer. -/
def Fits (C : Nat) : SendCall → Prop
  | sendData d => 1 ≤ d.length ∧ d.length ≤ C
  | sendCache d => 1 ≤ d.length ∧ d.length ≤ C
  | sendCacheData => True

end SendCall

variable {ω : Type}

/-- One call, with the code it answers. -/
def sendStep (cb : Callbacks ω) (w : World ω) : SendCall → World ω × ConnErrorCode
  | .sendData d => let r := sendData cb w (some (ofList d)) d.length; (r.2, r.1)
  | .sendCache d => let r := sendCache w (some (ofList d)) d.length; (r.2, r.1)
  | .sendCacheData => let r := sendCacheData cb w; (r.2, r.1)

/-- The messages whose call answered `conn_error_code_success`, one after the other. -/
def taken : List SendCall → List ConnErrorCode → List UInt8
  | k :: ks, r :: rs => (if r = .success then k.message else []) ++ taken ks rs
  | _, _ => []

/-- A connection with an empty send buffer of capacity `C`, before its first write, on a socket
without hard errors. -/
structure Ready (C : Nat) (w : World ω) : Prop where
  live : w.socket.Live
  noError : .error ∉ w.net.sends
  capacity : w.socket.nSendBufSize = C
  buffer : w.socket.sendBuffer.isSome
  empty : w.socket.sendHead = w.socket.sendTail
  tail_le : w.socket.sendTail ≤ C
  sent : w.net.sent = []

variable {C : Nat} {w : World ω} {out : List UInt8}

theorem Ready.stream (h : Ready C w) : Stream C w [] := by
  refine ⟨h.live, h.noError, [], ⟨h.capacity, h.buffer, Nat.le_of_eq h.empty, h.tail_le, ?_⟩, ?_⟩
  · rw [pending, h.empty, Nat.sub_self]
    rfl
  · rw [h.sent, List.append_nil]

/-- One call extends the stream by the message it took, if it took one. -/
theorem Stream.step (cb : Callbacks ω) (h : Stream C w out) (hC : C < 2 ^ 64) {k : SendCall}
    (hk : k.Fits C) :
    Stream C (sendStep cb w k).1
      (out ++ if (sendStep cb w k).2 = .success then k.message else []) := by
  cases k with
  | sendData d => exact h.sendData cb hC hk.1 fun _ => Nat.le_trans (Nat.sub_le _ _) hk.2
  | sendCache d => exact h.sendCache hC hk.1
  | sendCacheData =>
    have hnext := h.sendCacheData cb hC
    have hnone : (if (sendStep cb w .sendCacheData).2 = .success then SendCall.sendCacheData.message
        else []) = [] := ite_self []
    rw [hnone, List.append_nil]
    exact hnext

/-- A run of calls extends the stream by the messages it took. -/
theorem Stream.run (cb : Callbacks ω) (h : Stream C w out) (hC : C < 2 ^ 64)
    {ks : List SendCall} (hks : ∀ k ∈ ks, k.Fits C) :
    Stream C (exec (sendStep cb) w ks).1 (out ++ taken ks (exec (sendStep cb) w ks).2) := by
  induction ks generalizing w out with
  | nil => simpa [taken] using h
  | cons k ks ih =>
    have hstep := h.step cb hC (hks k List.mem_cons_self)
    have hrun := ih hstep fun k' h' => hks k' (List.mem_cons_of_mem k h')
    rwa [List.append_assoc] at hrun

/-- What the socket accepted, and then what waits in the buffer, is what the calls took. -/
structure StreamIntact (C : Nat) (w : World ω) (out : List UInt8) : Prop where
  bytes : w.net.sent ++ pending w.socket = out
  head_le : w.socket.sendHead ≤ w.socket.sendTail
  tail_le : w.socket.sendTail ≤ C

/-- The outgoing stream, over every sequence of calls and every behaviour of the socket. -/
theorem outgoing_stream_intact (cb : Callbacks ω) (C : Nat) (hC : C < 2 ^ 64) (w : World ω)
    (hw : Ready C w) (ks : List SendCall) (hks : ∀ k ∈ ks, k.Fits C) :
    StreamIntact C (exec (sendStep cb) w ks).1 (taken ks (exec (sendStep cb) w ks).2) := by
  obtain ⟨bytes, hbuffered, hout⟩ := (hw.stream.run cb hC hks).stream
  rw [List.nil_append] at hout
  exact ⟨by rw [hbuffered.bytes, hout], hbuffered.head_le, hbuffered.tail_le⟩

/-- A connection with a send buffer of four bytes, on a socket that takes two bytes, would block,
and then takes what it gets. -/
def smallConnection : World Unit where
  socket := { ClientSocket.new with
    socketFd := 3
    socketStatus := .connected
    nSendBufSize := 4
    sendBuffer := some fun _ => 0 }
  net := ⟨[], [.accept 2, .wouldBlock, .accept 9, .accept 9], [], [], []⟩
  app := ()

/-- Callbacks that do nothing. -/
def idle : Callbacks Unit := ⟨fun w => w, fun w _ _ => (0, w)⟩

/-- The second message finds the third's bytes still free, the fourth does not fit. -/
def fourMessages : List SendCall :=
  [.sendData [1, 2, 3], .sendCache [4, 5], .sendCache [6, 7, 8], .sendCacheData]

theorem outgoing_stream_intact_run :
    StreamIntact 4 (exec (sendStep idle) smallConnection fourMessages).1
      (taken fourMessages (exec (sendStep idle) smallConnection fourMessages).2) :=
  outgoing_stream_intact idle 4 (by decide) smallConnection
    ⟨by decide, by decide, rfl, rfl, rfl, by decide, rfl⟩ fourMessages
    (by simp [fourMessages, SendCall.Fits])

example : taken fourMessages (exec (sendStep idle) smallConnection fourMessages).2 =
    [1, 2, 3, 4, 5] := by decide +kernel

end World

end MmDriver

import MmDriver.Laws.Network.Packet
import MmDriver.Lib.Framing
import MmDriver.Test.NetService

/-!
# The packet parser takes frames

`PeekPacket` sizes a frame as its head and the size the head is decoded to. That makes it a
framer: as long as a buffer has fewer than `2 ^ 31` bytes, `PeekPacket` takes exactly its first
complete frame, and `OnRecvMessage` exactly its complete frames.
-/

namespace MmDriver

open ByteMem Framing

namespace NetService

/-- The size `PeekPacket` reads from the start of a stream. -/
def bodySize (s : List UInt8) : Nat := PacketHead.decodeWord (ofList s 0) (ofList s 1)

/-- The id `PeekPacket` reads from the start of a stream. -/
def packetID (s : List UInt8) : Nat := PacketHead.decodeWord (ofList s 2) (ofList s 3)

theorem bodySize_lt (s : List UInt8) : bodySize s < 2 ^ 16 := PacketHead.decodeWord_lt _ _

/-- Behind the head nothing is looked at. -/
theorem ofList_append {s t : List UInt8} {i : Nat} (h : i < s.length) :
    ofList (s ++ t) i = ofList s i := by
  simp [ofList, List.getD_eq_getElem?_getD, List.getElem?_append_left h]

/-- `PeekPacket` as a framer. -/
def packetFramer : Framer UInt8 where
  head := 4
  total s := 4 + bodySize s
  head_pos := by decide
  head_le s := Nat.le_add_right 4 _
  total_append s t h := by
    rw [bodySize, bodySize, ofList_append (by omega), ofList_append (by omega)]

theorem total_eq (s : List UInt8) : packetFramer.total s = 4 + bodySize s := rfl

/-- The id stands in the head. -/
theorem packetID_take {s : List UInt8} {n : Nat} (h : 4 ≤ n) (hs : 4 ≤ s.length) :
    packetID (s.take n) = packetID s := by
  have hlen : 4 ≤ (s.take n).length := by
    rw [List.length_take]
    omega
  have happend := List.take_append_drop n s
  rw [packetID, packetID, ← happend, ofList_append (by omega), ofList_append (by omega), happend]

/-- What a complete frame is dispatched as: its id, and its body. -/
def packetOf (f : List UInt8) : Nat × List UInt8 := (packetID f, f.drop 4)

/-- Whether a frame has a handler. -/
def Handled (svc : NetService) (f : List UInt8) : Prop :=
  packetID f < packetIdMax ∧ (svc.packetDispatcher (packetID f)).isSome

instance (svc : NetService) (f : List UInt8) : Decidable (svc.Handled f) :=
  inferInstanceAs (Decidable (_ ∧ _))

/-- The body a handler is called with. -/
def Dispatch.body (d : Dispatch) (m : Memory) : List UInt8 :=
  slice m d.pBuff d.packetHead.usPacketSize

/-- A handler call as the pair of packet id and body. -/
def Dispatch.packet (d : Dispatch) (m : Memory) : Nat × List UInt8 :=
  (d.packetHead.nPacketID, d.body m)

/-- The packets the frames of a stream are dispatched as. -/
def packetsOf (svc : NetService) (fs : List (List UInt8)) : List (Nat × List UInt8) :=
  (fs.filter fun f => decide (svc.Handled f)).map packetOf

@[simp] theorem packetsOf_nil (svc : NetService) : svc.packetsOf [] = [] := rfl

theorem packetsOf_append (svc : NetService) (fs gs : List (List UInt8)) :
    svc.packetsOf (fs ++ gs) = svc.packetsOf fs ++ svc.packetsOf gs := by
  simp only [packetsOf, List.filter_append, List.map_append]

theorem packetsOf_cons (svc : NetService) (f : List UInt8) (fs : List (List UInt8)) :
    svc.packetsOf (f :: fs) = svc.packetsOf [f] ++ svc.packetsOf fs :=
  packetsOf_append svc [f] fs

/-! ## One packet -/

section Peek

variable (svc : NetService) (c : Nat) {m : Memory} {a : Nat} {s : List UInt8}

/-- A buffer's bytes are those of the stream it holds. -/
theorem buffer_getD (hs : slice m a s.length = s) {i : Nat} (h : i < s.length) :
    m (a + i) = ofList s i := by
  have hget := slice_getD (m := m) (a := a) h 0
  rw [hs] at hget
  exact hget.symm

/-- The head `PeekPacket` decodes. -/
theorem decode_buffer (hs : slice m a s.length = s) (hhead : 4 ≤ s.length) :
    PacketHead.new.decode m a (s.length : Int) = (true, ⟨bodySize s, packetID s⟩) := by
  have hnot : ¬(s.length : Int) < (PacketHead.getSize : Nat) :=
    Int.not_lt.mpr (Int.ofNat_le.mpr hhead)
  have h0 : m a = ofList s 0 := buffer_getD hs (i := 0) (by omega)
  rw [PacketHead.decode, if_neg hnot, h0, buffer_getD hs (i := 1) (by omega),
    buffer_getD hs (i := 2) (by omega), buffer_getD hs (i := 3) (by omega)]
  rfl

/-- `PeekPacket` on a buffer with a head, by what the head says. -/
theorem peekPacket_eq (hs : slice m a s.length = s) (hlen : s.length < 2 ^ 31)
    (hhead : 4 ≤ s.length) :
    svc.peekPacket (some c) m a s.length =
      if s.length < packetFramer.total s then ⟨0, none⟩
      else ⟨packetFramer.total s,
        (if packetID s < packetIdMax then svc.packetDispatcher (packetID s) else none).map
          fun h => ⟨h, c, ⟨bodySize s, packetID s⟩, a + 4⟩⟩ := by
  have hnot : ¬s.length < 2 + 2 := Nat.not_lt.mpr hhead
  have hcompare : ((bodySize s : Int) > (s.length : Int) - (PacketHead.getSize : Nat)) ↔
      s.length < packetFramer.total s := by
    simp only [PacketHead.getSize, total_eq]
    omega
  simp only [peekPacket, if_neg hnot, TInt32.ofNat_eq hlen, decode_buffer hs hhead,
    Bool.true_eq_false, if_false, hcompare]
  rfl

/-- A buffer without a complete frame: nothing is taken. -/
theorem peekPacket_incomplete (hs : slice m a s.length = s) (hlen : s.length < 2 ^ 31)
    (h : s.length < packetFramer.total s) :
    svc.peekPacket (some c) m a s.length = ⟨0, none⟩ := by
  rcases Nat.lt_or_ge s.length 4 with hshort | hhead
  · rw [peekPacket, if_pos hshort]
  · rw [peekPacket_eq svc c hs hlen hhead, if_pos h]

/-- A buffer with a complete frame: it is taken, and dispatched if it has a handler. -/
theorem peekPacket_frame (hs : slice m a s.length = s) (hlen : s.length < 2 ^ 31)
    (h : packetFramer.total s ≤ s.length) :
    (svc.peekPacket (some c) m a s.length).ret = packetFramer.total s ∧
      (svc.peekPacket (some c) m a s.length).dispatched.toList.map (Dispatch.packet · m) =
        svc.packetsOf [s.take (packetFramer.total s)] := by
  have hhead : 4 ≤ s.length := Nat.le_trans (packetFramer.head_le s) h
  rw [peekPacket_eq svc c hs hlen hhead, if_neg (Nat.not_lt.mpr h)]
  refine ⟨rfl, ?_⟩
  -- the handler sees the bytes behind the head, as many as the head says
  have hbody : slice m (a + 4) (bodySize s) = (s.take (packetFramer.total s)).drop 4 := by
    rw [slice_part m a h, hs, List.drop_take, total_eq, Nat.add_sub_cancel_left]
  have hid : packetID (s.take (packetFramer.total s)) = packetID s :=
    packetID_take (packetFramer.head_le s) hhead
  rw [packetsOf, List.filter_singleton]
  simp only [Handled, hid]
  by_cases hrange : packetID s < packetIdMax
  · cases hhandler : svc.packetDispatcher (packetID s) with
    | none => simp [hrange]
    | some handler => simp [hrange, Dispatch.packet, Dispatch.body, packetOf, hbody, hid]
  · simp [hrange]

end Peek

/-! ## The loop -/

section Loop

variable (svc : NetService) (c : Nat) {m : Memory} {a : Nat}

theorem recvLoop_stop {t n : Nat}
    (h : svc.peekPacket (some c) m (a + t) (SizeT.sub n t) = ⟨0, none⟩) :
    svc.recvLoop (some c) m a n t = (t, []) := by
  rw [recvLoop, h, if_neg (Nat.lt_irrefl 0)]
  rfl

/-- One turn of the loop that takes something. -/
theorem recvLoop_take {t n : Nat}
    (h : 0 < (svc.peekPacket (some c) m (a + t) (SizeT.sub n t)).ret) :
    svc.recvLoop (some c) m a n t =
      ((svc.recvLoop (some c) m a n
          (TUint32.ofNat (t + (svc.peekPacket (some c) m (a + t) (SizeT.sub n t)).ret))).1,
        (svc.peekPacket (some c) m (a + t) (SizeT.sub n t)).dispatched.toList ++
          (svc.recvLoop (some c) m a n
            (TUint32.ofNat (t + (svc.peekPacket (some c) m (a + t) (SizeT.sub n t)).ret))).2) := by
  rw [recvLoop, if_pos h]

/-- The loop from an offset on, where the rest of the buffer is `s`. -/
theorem recvLoop_eq (s : List UInt8) {t n : Nat} (hs : slice m (a + t) s.length = s)
    (hn : t + s.length = n) (hlen : n < 2 ^ 31) :
    (svc.recvLoop (some c) m a n t).1 + (packetFramer.tail s).length = n ∧
      (svc.recvLoop (some c) m a n t).2.map (Dispatch.packet · m) =
        svc.packetsOf (packetFramer.frames s) := by
  have hleft : ∀ s : List UInt8, ∀ t, t + s.length = n → SizeT.sub n t = s.length :=
    fun s t hn => by rw [SizeT.sub_eq (by omega) (by omega)]; omega
  induction s using packetFramer.frames_induction generalizing t with
  | incomplete s h =>
    have hpeek := peekPacket_incomplete svc c hs (by omega) h
    rw [← hleft s t hn] at hpeek
    rw [recvLoop_stop svc c hpeek, Framer.frames_of_lt h, Framer.tail_of_lt h]
    exact ⟨hn, rfl⟩
  | frame s h ih =>
    obtain ⟨hret, hdispatched⟩ := peekPacket_frame svc c hs (by omega) h
    have hpos : 0 < packetFramer.total s := Nat.lt_of_lt_of_le (by decide) (packetFramer.head_le s)
    have hdrop : (s.drop (packetFramer.total s)).length = s.length - packetFramer.total s :=
      List.length_drop
    have hnext : TUint32.ofNat (t + packetFramer.total s) = t + packetFramer.total s :=
      Nat.mod_eq_of_lt (by omega)
    have hrest : slice m (a + (t + packetFramer.total s)) (s.drop (packetFramer.total s)).length =
        s.drop (packetFramer.total s) := by
      rw [← Nat.add_assoc, slice_part m (a + t) (n := s.length) (by omega), hs, List.take_length]
    obtain ⟨hread, hpackets⟩ := ih hrest (by omega)
    rw [← hleft s t hn] at hret hdispatched
    rw [recvLoop_take svc c (hret ▸ hpos), hret, hnext, Framer.frames_of_le h, Framer.tail_of_le h,
      packetsOf_cons, List.map_append, hdispatched, hpackets]
    exact ⟨hread, rfl⟩

/-- What the loop leaves, as `OnRecvMessage` answers it. -/
theorem recvResult_of_loop {r : Nat × List Dispatch} {rest len : Nat}
    {packets : List (Nat × List UInt8)} (hread : r.1 + rest = len) (hlen : len < 2 ^ 31)
    (hpackets : r.2.map (Dispatch.packet · m) = packets) :
    (RecvResult.mk (TInt32.ofNat r.1) r.2).ret = ((len - rest : Nat) : Int) ∧
      (RecvResult.mk (TInt32.ofNat r.1) r.2).dispatched.map (Dispatch.packet · m) = packets := by
  refine ⟨?_, hpackets⟩
  have hret : TInt32.ofNat r.1 = ((len - rest : Nat) : Int) := by
    rw [TInt32.ofNat_eq (by omega)]
    omega
  exact hret

theorem onRecvMessage_def (svc : NetService) (sock : Option Nat) (m : Memory) (a n : Nat) :
    svc.onRecvMessage sock m a n =
      ⟨TInt32.ofNat (svc.recvLoop sock m a n 0).1, (svc.recvLoop sock m a n 0).2⟩ := by
  rw [onRecvMessage]

theorem onRecvMessage_ret_lt (svc : NetService) (sock : Option Nat) (m : Memory) (a n : Nat) :
    (svc.onRecvMessage sock m a n).ret < 2 ^ 31 := by
  have hlt : ∀ r : Nat × List Dispatch, (RecvResult.mk (TInt32.ofNat r.1) r.2).ret < 2 ^ 31 :=
    fun r => TInt32.ofNat_lt r.1
  rw [onRecvMessage_def]
  exact hlt _

/-- `OnRecvMessage` on a buffer that holds `s`: it takes the complete frames, dispatches those
with a handler, and answers how many bytes they are. -/
theorem onRecvMessage_eq {s : List UInt8} (hs : slice m a s.length = s)
    (hlen : s.length < 2 ^ 31) :
    (svc.onRecvMessage (some c) m a s.length).ret =
        ((s.length - (packetFramer.tail s).length : Nat) : Int) ∧
      (svc.onRecvMessage (some c) m a s.length).dispatched.map (Dispatch.packet · m) =
        svc.packetsOf (packetFramer.frames s) := by
  obtain ⟨hread, hpackets⟩ := @recvLoop_eq svc c m a s 0 s.length hs (Nat.zero_add _) hlen
  rw [onRecvMessage_def]
  exact recvResult_of_loop hread hlen hpackets

end Loop

/-! ## `PeekPacket`, again and again

A stream may be longer than any buffer, and `PeekPacket` compares lengths at `tint32`. Applied to
a stream it gets at most the longest length that type has. -/

/-- The bytes of a stream one `PeekPacket` is given. -/
def peekLength (s : List UInt8) : Nat := min s.length (2 ^ 31 - 1)

/-- What a single `PeekPacket` makes of the start of a stream. -/
def peekStream (svc : NetService) (c : Nat) (s : List UInt8) : PeekResult :=
  svc.peekPacket (some c) (ofList s) 0 (peekLength s)

theorem peekStream_ret_le (svc : NetService) (c : Nat) (s : List UInt8) :
    (svc.peekStream c s).ret ≤ s.length :=
  Nat.le_trans (svc.peekPacket_ret_le (some c) (ofList s) 0 (peekLength s))
    (Nat.le_trans (Nat.mod_le _ _) (Nat.min_le_left _ _))

/-- `PeekPacket` applied to a stream from its start as long as it takes something: the packets it
dispatches, and what it leaves. -/
def peekAll (svc : NetService) (c : Nat) (s : List UInt8) : List (Nat × List UInt8) × List UInt8 :=
  if 0 < (svc.peekStream c s).ret then
    let rest := peekAll svc c (s.drop (svc.peekStream c s).ret)
    ((svc.peekStream c s).dispatched.toList.map (Dispatch.packet · (ofList s)) ++ rest.1, rest.2)
  else ([], s)
termination_by s.length
decreasing_by
  next hpos =>
  have hle := svc.peekStream_ret_le c s
  rw [List.length_drop]
  omega

/-- The bytes given to one `PeekPacket`, as a stream. -/
theorem slice_peekLength (s : List UInt8) :
    slice (ofList s) 0 (s.take (peekLength s)).length = s.take (peekLength s) := by
  have hlen : (s.take (peekLength s)).length = peekLength s :=
    List.length_take_of_le (Nat.min_le_left _ _)
  have hle : 0 + peekLength s ≤ s.length := by
    rw [Nat.zero_add]
    exact Nat.min_le_left _ _
  have hpart := slice_part (ofList s) 0 hle
  rw [hlen]
  rwa [slice_ofList, List.drop_zero] at hpart

/-- A frame fits the length `PeekPacket` is given. -/
theorem total_le_peekLength {s : List UInt8} (h : packetFramer.total s ≤ s.length) :
    packetFramer.total s ≤ peekLength s := by
  have hsize := bodySize_lt s
  rw [total_eq] at h ⊢
  unfold peekLength
  omega

theorem peekStream_incomplete (svc : NetService) (c : Nat) {s : List UInt8}
    (h : s.length < packetFramer.total s) : svc.peekStream c s = ⟨0, none⟩ := by
  have hsize := bodySize_lt s
  have hshort : s.length < 2 ^ 31 - 1 := by
    rw [total_eq] at h
    omega
  have hall : peekLength s = s.length := Nat.min_eq_left (Nat.le_of_lt hshort)
  rw [peekStream, hall]
  exact peekPacket_incomplete svc c (slice_ofList s) (by omega) h

theorem peekStream_frame (svc : NetService) (c : Nat) {s : List UInt8}
    (h : packetFramer.total s ≤ s.length) :
    (svc.peekStream c s).ret = packetFramer.total s ∧
      (svc.peekStream c s).dispatched.toList.map (Dispatch.packet · (ofList s)) =
        svc.packetsOf [s.take (packetFramer.total s)] := by
  have hle := total_le_peekLength h
  have hlen : (s.take (peekLength s)).length = peekLength s :=
    List.length_take_of_le (Nat.min_le_left _ _)
  have hhead : 4 ≤ (s.take (peekLength s)).length := by
    rw [hlen]
    exact Nat.le_trans (packetFramer.head_le s) hle
  have htotal : packetFramer.total (s.take (peekLength s)) = packetFramer.total s := by
    have hsame := packetFramer.total_append (s.take (peekLength s)) (s.drop (peekLength s)) hhead
    rw [List.take_append_drop] at hsame
    exact hsame.symm
  have hshort : (s.take (peekLength s)).length < 2 ^ 31 := by
    rw [hlen]
    exact Nat.lt_of_le_of_lt (Nat.min_le_right _ _) (by decide)
  have hpeek := peekPacket_frame svc c (slice_peekLength s) hshort (by rw [htotal, hlen]; exact hle)
  rw [htotal, List.take_take, Nat.min_eq_left hle, hlen] at hpeek
  exact hpeek

/-- Repeated `PeekPacket` cuts a stream into its frames. -/
theorem peekAll_eq (svc : NetService) (c : Nat) (s : List UInt8) :
    svc.peekAll c s = (svc.packetsOf (packetFramer.frames s), packetFramer.tail s) := by
  induction s using packetFramer.frames_induction with
  | incomplete s h =>
    have hnothing : ¬0 < (svc.peekStream c s).ret := by
      rw [peekStream_incomplete svc c h]
      exact Nat.lt_irrefl 0
    rw [peekAll, if_neg hnothing, Framer.frames_of_lt h, Framer.tail_of_lt h, packetsOf_nil]
  | frame s h ih =>
    obtain ⟨hret, hdispatched⟩ := peekStream_frame svc c h
    have hpos : 0 < (svc.peekStream c s).ret := by
      rw [hret]
      exact Nat.lt_of_lt_of_le (by decide) (packetFramer.head_le s)
    have hcons := packetsOf_cons svc (s.take (packetFramer.total s))
      (packetFramer.frames (s.drop (packetFramer.total s)))
    rw [peekAll, if_pos hpos, hdispatched, hret, ih, Framer.frames_of_le h, Framer.tail_of_le h,
      hcons]

end NetService

end MmDriver

import MmDriver.Laws.Test.NetService

/-!
# Encoder and parser

`PacketEncoder` puts the length of the whole packet, head included, into the size field;
`PeekPacket` takes the field for the length of the body. So the parser waits for four bytes that
belong to the next packet, or are not there at all, and no list of packets but the empty one
goes through.
-/

namespace MmDriver

open ByteMem Framing

namespace NetService

/-- A packet for the dispatcher and the body it serializes to. -/
structure Sendable (p : Packet × List UInt8) : Prop where
  id : p.1.getPacketID < packetIdMax
  carries : p.1.Carries p.2
  length : p.2.length ≤ 5112

/-- `OnRecvMessage`, given `len` bytes from `a` on, dispatches exactly these packets, each with its
body's length as the size, and answers that it took everything. -/
structure Dispatches (svc : NetService) (sock : Nat) (m : Memory) (a len : Nat)
    (ps : List (Packet × List UInt8)) : Prop where
  packets : (svc.onRecvMessage (some sock) m a len).dispatched.map (Dispatch.packet · m) =
    ps.map fun p => (p.1.getPacketID, p.2)
  sizes : (svc.onRecvMessage (some sock) m a len).dispatched.map
    (fun d => d.packetHead.usPacketSize) = ps.map fun p => p.2.length
  ret : (svc.onRecvMessage (some sock) m a len).ret = len

/-- The size and the id `PeekPacket` reads from an encoded frame. -/
theorem head_of_frame {id len : Nat} (hid : id < packetIdMax) (hlen : len ≤ 5112)
    (rest : List UInt8) :
    packetID ((PacketEncoder.headOf id len).bytes ++ rest) = id ∧
      bodySize ((PacketEncoder.headOf id len).bytes ++ rest) ≠ len := by
  have hmax : packetIdMax = 3 := rfl
  have hword : ∀ {v}, v < 2 ^ 16 → PacketHead.decodeWord (UInt8.ofNat (v >>> 8)) (UInt8.ofNat v) =
      if v % 256 < 128 then v else 0xFF00 + v % 256 := PacketHead.decodeWord_wordBytes
  constructor
  · have hpacket : packetID ((PacketEncoder.headOf id len).bytes ++ rest) =
        PacketHead.decodeWord (UInt8.ofNat (id >>> 8)) (UInt8.ofNat id) := rfl
    rw [hpacket, hword (by omega), if_pos (by omega)]
  · have hbody : bodySize ((PacketEncoder.headOf id len).bytes ++ rest) =
        PacketHead.decodeWord (UInt8.ofNat ((len + 4) >>> 8)) (UInt8.ofNat (len + 4)) := rfl
    rw [hbody, hword (by omega)]
    split <;> omega

/-- Every id of the dispatcher's range has a handler once `Init` ran. -/
theorem init_handles {f : List UInt8} (h : packetID f < packetIdMax) : init.Handled f := by
  refine ⟨h, ?_⟩
  simp only [init]
  split
  · rfl
  · rfl

/-- The first packet of a list is not dispatched with its own body. -/
theorem packets_ne {p : Packet × List UInt8} (hp : Sendable p) (rest : List UInt8)
    (ps : List (Nat × List UInt8)) :
    init.packetsOf (packetFramer.frames
        ((PacketEncoder.headOf p.1.getPacketID p.2.length).bytes ++ p.2 ++ rest)) ≠
      (p.1.getPacketID, p.2) :: ps := by
  rw [List.append_assoc]
  obtain ⟨hid, hsize⟩ := head_of_frame hp.id hp.length (p.2 ++ rest)
  generalize hs : (PacketEncoder.headOf p.1.getPacketID p.2.length).bytes ++ (p.2 ++ rest) = s
    at hid hsize
  have hhead : 4 ≤ s.length := by
    rw [← hs, List.length_append, PacketHead.bytes_length]
    omega
  rcases Nat.lt_or_ge s.length (packetFramer.total s) with hlt | hge
  · rw [Framer.frames_of_lt hlt, packetsOf_nil]
    exact (List.cons_ne_nil _ _).symm
  · have hframe : packetID (s.take (packetFramer.total s)) = p.1.getPacketID := by
      rw [packetID_take (packetFramer.head_le s) hhead, hid]
    have hhandled : init.Handled (s.take (packetFramer.total s)) :=
      init_handles (hframe ▸ hp.id)
    rw [Framer.frames_of_le hge, packetsOf, List.filter_cons_of_pos (by simpa using hhandled),
      List.map_cons]
    intro heq
    have hbody : (s.take (packetFramer.total s)).drop 4 = p.2 :=
      congrArg Prod.snd (List.cons.inj heq).1
    have hlen := congrArg List.length hbody
    rw [List.length_drop, List.length_take_of_le hge, total_eq, Nat.add_sub_cancel_left] at hlen
    exact hsize hlen

/-- Frames of `PacketEncoder` in the receive buffer: the parser dispatches the packets they were
made of exactly when there are none. -/
theorem dispatches_encoded_iff (e : PacketEncoder) (sock : Nat) (m : Memory) (a : Nat)
    (ps : List (Packet × List UInt8)) (hps : ∀ p ∈ ps, Sendable p)
    (hbuf : slice m a (e.encodeAll (ps.map Prod.fst)).length = e.encodeAll (ps.map Prod.fst)) :
    Dispatches init sock m a (e.encodeAll (ps.map Prod.fst)).length ps ↔ ps = [] := by
  generalize hs : e.encodeAll (ps.map Prod.fst) = s at hbuf ⊢
  constructor
  · intro h
    have hlen : s.length < 2 ^ 31 := by
      have hlt := init.onRecvMessage_ret_lt (some sock) m a s.length
      rw [h.ret] at hlt
      omega
    cases ps with
    | nil => rfl
    | cons p ps =>
      exfalso
      have hp := hps p List.mem_cons_self
      have hpackets := h.packets
      rw [(onRecvMessage_eq init sock hbuf hlen).2, ← hs, List.map_cons, PacketEncoder.encodeAll,
        (e.encode_frame hp.carries (Nat.le_trans hp.length (by decide))).2] at hpackets
      exact packets_ne hp _ _ hpackets
  · rintro rfl
    have hnil : s = [] := hs.symm
    subst hnil
    obtain ⟨hret, hpackets⟩ := onRecvMessage_eq init sock hbuf (by decide)
    rw [Framer.frames_nil, packetsOf_nil] at hpackets
    refine ⟨hpackets, ?_, hret.trans (by simp)⟩
    rw [List.map_eq_nil_iff.mp hpackets]
    rfl

/-! ## A packet that is not dispatched -/

/-- A packet that serializes to given bytes. -/
def plainPacket (id : Nat) (body : List UInt8) : Packet where
  getPacketID := id
  getSize := body.length
  encode m a n :=
    if body.length ≤ n then ⟨true, copy m a (ofList body) body.length, body.length⟩
    else ⟨false, m, n⟩

theorem plainPacket_carries (id : Nat) (body : List UInt8) :
    (plainPacket id body).Carries body := ⟨rfl, fun _ _ _ h => if_pos h⟩

/-- A login packet with a body of one byte. -/
def oneLogin : Packet × List UInt8 := (plainPacket packetCgLogin [42], [42])

theorem oneLogin_sendable : Sendable oneLogin :=
  ⟨by decide, plainPacket_carries packetCgLogin [42], by decide⟩

/-- Its frame, `00 05 00 01 2A`. -/
def oneLoginFrame : List UInt8 := PacketEncoder.encodeAll ⟨fun _ => 0, 0⟩ [oneLogin.1]

theorem dispatches_encoded_iff_run :
    Dispatches init 1 (ofList oneLoginFrame) 0 oneLoginFrame.length [oneLogin] ↔
      [oneLogin] = [] :=
  dispatches_encoded_iff ⟨fun _ => 0, 0⟩ 1 (ofList oneLoginFrame) 0 [oneLogin]
    (by simp [oneLogin_sendable]) (by decide)

/-- The parser waits for five bytes of body, takes nothing and dispatches nothing. -/
theorem oneLogin_not_dispatched :
    Sendable oneLogin ∧ oneLoginFrame = [0, 5, 0, 1, 42] ∧
      init.onRecvMessage (some 1) (ofList oneLoginFrame) 0 oneLoginFrame.length = ⟨0, []⟩ ∧
      ¬Dispatches init 1 (ofList oneLoginFrame) 0 oneLoginFrame.length [oneLogin] := by
  have hframe : oneLoginFrame = [0, 5, 0, 1, 42] := by decide
  have hnone : init.onRecvMessage (some 1) (ofList [0, 5, 0, 1, 42]) 0
      [(0 : UInt8), 5, 0, 1, 42].length = ⟨0, []⟩ := by decide +kernel
  rw [hframe]
  refine ⟨oneLogin_sendable, rfl, hnone, fun h => ?_⟩
  have hret := h.ret
  rw [hnone] at hret
  exact absurd hret (by decide)

end NetService

end MmDriver

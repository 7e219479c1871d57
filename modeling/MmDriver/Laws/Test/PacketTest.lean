import MmDriver.Laws.Network.Packet
import MmDriver.Test.PacketTest

/-!
# Encoding the application's packets

`PacketEncoder::Encode` says how much room there is behind the head, and the packets of the
application do not look: they write their whole message (`encode_protoPacket`). What the encoder
then says about the frame has 16 bits, and the buffer has `PACKET_BUF_SIZE` bytes.
-/

namespace MmDriver

open ByteMem

namespace PacketEncoder

/-- A frame that was encoded has its length for its size, and in its head; and whatever was
encoded, nothing was written from `PACKET_BUF_SIZE` on. -/
structure LengthsAgree (e : PacketEncoder) (p : Packet) (body : List UInt8) : Prop where
  size : (e.encode p).1 = true → (e.encode p).2.usSize = 4 + body.length
  head : (e.encode p).1 = true → PacketHead.wordAt (e.encode p).2.szBuf 0 = 4 + body.length
  within : ∀ i, packetBufSize ≤ i → (e.encode p).2.szBuf i = e.szBuf i

/-- The head that is written before a message, at 16 bits. -/
def protoHead (packetID : Nat) (d : ProtoMessage) : PacketHead :=
  ⟨TUint16.ofInt (d.byteSize + PacketHead.getSize), packetID⟩

/-- Every packet is encoded, whatever its size. -/
theorem encode_protoPacket (e : PacketEncoder) (packetID : Nat) (d : ProtoMessage) :
    e.encode (protoPacket packetID d) = (true,
      ⟨copy (copy e.szBuf 0 (ofList (protoHead packetID d).bytes) 4) 4 (ofList d.serialized)
          d.serialized.length,
        TUint16.ofInt (PacketHead.getSize + d.byteSize)⟩) := by
  have hhead := PacketHead.encode_eq (protoHead packetID d) e.szBuf 0
    (Nat.le_refl PacketHead.getSize)
  have hbody : ∀ m a n, (protoPacket packetID d).encode m a n =
      ⟨true, copy m a (ofList d.serialized) d.serialized.length, d.byteSize⟩ := by
    intro m a n
    simp only [protoPacket, ProtoMessage.serializePartialToArray, Int.lt_irrefl, if_false,
      Bool.true_eq_false]
  rw [protoHead] at hhead
  rw [encode]
  simp only [show (protoPacket packetID d).getSize = d.byteSize from rfl,
    show (protoPacket packetID d).getPacketID = packetID from rfl, hhead, hbody, Bool.true_eq_false,
    if_false]
  rfl

/-- The first two bytes of a buffer that starts with a head. -/
theorem wordAt_head (h : PacketHead) (hsize : h.usPacketSize < 2 ^ 16) (m : Memory)
    (body : List UInt8) :
    PacketHead.wordAt (copy (copy m 0 (ofList h.bytes) 4) 4 (ofList body) body.length) 0 =
      h.usPacketSize := by
  have hbyte : ∀ i < 2, copy (copy m 0 (ofList h.bytes) 4) 4 (ofList body) body.length i =
      ofList h.bytes i := by
    intro i hi
    rw [copy_outside (by omega), copy_inside (by omega), Nat.sub_zero]
  obtain ⟨hhigh, hlow⟩ := PacketHead.wordBytes_toNat hsize
  have hfirst : ofList h.bytes 0 = UInt8.ofNat (h.usPacketSize >>> 8) := rfl
  have hsecond : ofList h.bytes 1 = UInt8.ofNat h.usPacketSize := rfl
  rw [PacketHead.wordAt, hbyte 0 (by omega), hbyte 1 (by omega), hfirst, hsecond, hhigh, hlow]
  omega

theorem protoPacket_agrees_iff (e : PacketEncoder) (packetID : Nat) (d : ProtoMessage) :
    e.LengthsAgree (protoPacket packetID d) d.serialized ↔ d.serialized.length ≤ 65531 := by
  have hencode := e.encode_protoPacket packetID d
  have htotal : TUint16.ofInt (PacketHead.getSize + d.byteSize) = (4 + d.serialized.length) % 2 ^ 16 := by
    simp only [TUint16.ofInt, PacketHead.getSize, ProtoMessage.byteSize]
    omega
  have hsize : (protoHead packetID d).usPacketSize = (4 + d.serialized.length) % 2 ^ 16 := by
    rw [← htotal, protoHead, Int.add_comm]
  constructor
  · intro hagree
    have husSize : (4 + d.serialized.length) % 2 ^ 16 = 4 + d.serialized.length := by
      have hsame := hagree.size (by rw [hencode])
      rwa [hencode, htotal] at hsame
    have hlt := Nat.mod_lt (4 + d.serialized.length) (show 0 < 2 ^ 16 by decide)
    omega
  · intro hfits
    have hsmall : (4 + d.serialized.length) % 2 ^ 16 = 4 + d.serialized.length :=
      Nat.mod_eq_of_lt (by omega)
    refine ⟨fun _ => ?_, fun _ => ?_, fun i hi => ?_⟩
    · rw [hencode, htotal, hsmall]
    · rw [hencode, wordAt_head _ (by rw [hsize]; exact Nat.mod_lt _ (by decide)), hsize, hsmall]
    · have hbeyond : 65535 ≤ i := hi
      rw [hencode]
      dsimp only
      rw [copy_outside (by omega), copy_outside (by omega)]

/-- **A frame's lengths agree**, for either packet and whatever the encoder held before, exactly
when the message serializes to at most `PACKET_BUF_SIZE` bytes less the head. -/
theorem lengths_agree_iff (e : PacketEncoder) (d : ProtoMessage) :
    (e.LengthsAgree (pLogin d) d.serialized ↔ d.serialized.length ≤ 65531) ∧
      (e.LengthsAgree (pLoginRet d) d.serialized ↔ d.serialized.length ≤ 65531) :=
  ⟨e.protoPacket_agrees_iff 1 d, e.protoPacket_agrees_iff 2 d⟩

/-- A login one byte too long: it is encoded into a frame of no bytes, with a size of zero in the
head, and its last byte is written behind the buffer. -/
theorem long_login_wraps :
    let e : PacketEncoder := ⟨fun _ => 0, 0⟩
    let d : ProtoMessage := ⟨List.replicate 65532 7⟩
    (e.encode (pLogin d)).1 = true ∧ (e.encode (pLogin d)).2.usSize = 0 ∧
      (e.encode (pLogin d)).2.szBuf packetBufSize = 7 ∧
      ¬e.LengthsAgree (pLogin d) d.serialized := by
  intro e d
  have hlen : d.serialized.length = 65532 := List.length_replicate
  have hencode := e.encode_protoPacket 1 d
  have hsize : TUint16.ofInt (PacketHead.getSize + d.byteSize) = 0 := by
    simp only [TUint16.ofInt, PacketHead.getSize, ProtoMessage.byteSize, hlen]
    decide
  rw [pLogin]
  refine ⟨by rw [hencode], by rw [hencode, hsize], ?_, fun hagree => ?_⟩
  · rw [hencode]
    dsimp only
    rw [hlen, copy_inside (by decide), packetBufSize, ofList, List.getD_eq_getElem?_getD,
      List.getElem?_replicate_of_lt (by decide)]
    rfl
  · have hfits := (e.protoPacket_agrees_iff 1 d).mp hagree
    omega

end PacketEncoder

end MmDriver

import Mathlib.Tactic.IntervalCases
import MmDriver.Network.Packet

/-!
# The bytes of a packet

What `PacketHead::Encode` writes and what `PacketHead::Decode` reads, as values: the four bytes
of a head, and the number two bytes are decoded to. A low byte from 128 on is a negative `char`,
and its sign fills the high byte.

`PacketEncoder::Encode` then writes the head, with the size of the whole packet in it, and the
body behind it.
-/

namespace MmDriver

open ByteMem

/-! ## Decoding -/

namespace PacketHead

/-- What the sign of the low byte puts over the high byte. -/
def signFill (b : UInt8) : BitVec 8 := if b.toBitVec.msb then BitVec.allOnes 8 else 0#8

theorem getElem_signFill (b : UInt8) {i : Nat} (h : i < 8) :
    (signFill b)[i] = b.toBitVec.msb := by
  unfold signFill
  split
  · next hmsb => rw [BitVec.getElem_allOnes, hmsb]
  · next hmsb => rw [BitVec.getElem_zero, Bool.eq_false_iff.mpr hmsb]

/-- The sixteen bits of a decoded word, as its two bytes. -/
theorem decodeWord_bits (b0 b1 : UInt8) :
    (TChar.toInt b1 ||| TChar.toInt b0 <<< 8).setWidth 16 =
      (b0.toBitVec ||| signFill b1) ++ b1.toBitVec := by
  apply BitVec.eq_of_getLsbD_eq
  intro i hi
  simp only [TChar.toInt, BitVec.getLsbD_append, BitVec.getLsbD_setWidth, BitVec.getLsbD_or,
    BitVec.getLsbD_shiftLeft, BitVec.getLsbD_signExtend]
  rcases Nat.lt_or_ge i 8 with hlow | hhigh
  · have hwide : i < 32 := by omega
    simp only [hi, hlow, hwide, decide_true, Bool.true_and, if_true, Bool.not_true,
      Bool.false_and, Bool.or_false]
  · obtain ⟨j, rfl⟩ := Nat.exists_eq_add_of_le hhigh
    have hj : j < 8 := by omega
    have hwide : 8 + j < 32 := by omega
    have hnot : ¬8 + j < 8 := by omega
    have hj' : j < 32 := by omega
    simp [hi, hj, hj', hwide, hnot, getElem_signFill b1 hj, Bool.or_comm]

theorem decodeWord_lt (b0 b1 : UInt8) : decodeWord b0 b1 < 2 ^ 16 := BitVec.isLt _

/-- A decoded word is its high byte, under the fill, and its low byte. -/
theorem decodeWord_eq (b0 b1 : UInt8) :
    decodeWord b0 b1 = (b0.toBitVec ||| signFill b1).toNat * 256 + b1.toNat := by
  have hlow : b1.toBitVec.toNat < 2 ^ 8 := b1.toNat_lt
  rw [decodeWord, decodeWord_bits, BitVec.toNat_append, ← Nat.shiftLeft_add_eq_or_of_lt hlow,
    Nat.shiftLeft_eq]
  rfl

/-- With a low byte below 128 the two bytes are read big-endian. -/
theorem decodeWord_of_lt {b0 b1 : UInt8} (h : b1.toNat < 128) :
    decodeWord b0 b1 = b0.toNat * 256 + b1.toNat := by
  have hmsb : b1.toBitVec.msb = false := by
    rw [BitVec.msb_eq_false_iff_two_mul_lt, UInt8.toNat_toBitVec]
    omega
  rw [decodeWord_eq, signFill, hmsb, if_neg Bool.false_ne_true, BitVec.or_zero,
    UInt8.toNat_toBitVec]

/-- From 128 on the low byte is negative, and the high byte is lost. -/
theorem decodeWord_of_ge {b0 b1 : UInt8} (h : 128 ≤ b1.toNat) :
    decodeWord b0 b1 = 0xFF00 + b1.toNat := by
  have hmsb : b1.toBitVec.msb = true := by
    rw [BitVec.msb_eq_true_iff_two_mul_ge, UInt8.toNat_toBitVec]
    omega
  rw [decodeWord_eq, signFill, hmsb, if_pos rfl, BitVec.or_allOnes, BitVec.toNat_allOnes]

/-! ## Encoding -/

/-- The two bytes of a 16-bit number, big-endian. -/
def wordBytes (v : Nat) : List UInt8 := [UInt8.ofNat (v >>> 8), UInt8.ofNat v]

/-- The four bytes of a head. -/
def bytes (h : PacketHead) : List UInt8 := wordBytes h.usPacketSize ++ wordBytes h.nPacketID

@[simp] theorem bytes_length (h : PacketHead) : h.bytes.length = 4 := rfl

/-- `Encode` writes the four bytes and nothing else. -/
theorem encode_eq (h : PacketHead) (m : Memory) (a : Nat) {n : Nat} (hn : 4 ≤ n) :
    h.encode m a n = (true, copy m a (ofList h.bytes) 4) := by
  have hnot : ¬n < getSize := Nat.not_lt_of_le hn
  simp only [encode, hnot, if_false, Prod.mk.injEq, true_and]
  funext x
  rcases Nat.lt_or_ge x a with hlow | hlow
  · rw [copy_outside (by omega)]
    simp only [storeByte]
    rw [copy_outside (by omega), copy_outside (by omega), copy_outside (by omega),
      copy_outside (by omega)]
  · obtain ⟨i, rfl⟩ := Nat.exists_eq_add_of_le hlow
    rcases Nat.lt_or_ge i 4 with hi | hi
    · rw [copy_inside (by omega), Nat.add_sub_cancel_left]
      interval_cases i <;> simp [storeByte, copy, ofList, bytes, wordBytes]
    · rw [copy_outside (by omega)]
      simp only [storeByte]
      rw [copy_outside (by omega), copy_outside (by omega), copy_outside (by omega),
        copy_outside (by omega)]

theorem wordBytes_toNat {v : Nat} (h : v < 2 ^ 16) :
    (UInt8.ofNat (v >>> 8)).toNat = v / 256 ∧ (UInt8.ofNat v).toNat = v % 256 := by
  refine ⟨?_, UInt8.toNat_ofNat'⟩
  rw [UInt8.toNat_ofNat', Nat.shiftRight_eq_div_pow]
  exact Nat.mod_eq_of_lt (by omega)

/-- The two bytes determine the number. -/
theorem wordBytes_inj {v w : Nat} (hv : v < 2 ^ 16) (hw : w < 2 ^ 16)
    (h : wordBytes v = wordBytes w) : v = w := by
  obtain ⟨hhigh, hlow⟩ := wordBytes_toNat hv
  obtain ⟨hhigh', hlow'⟩ := wordBytes_toNat hw
  simp only [wordBytes, List.cons.injEq, and_true] at h
  rw [h.1] at hhigh
  rw [h.2] at hlow
  omega

/-- Any two bytes are those of the number they make up. -/
theorem wordBytes_join (b0 b1 : UInt8) : wordBytes (b0.toNat * 256 + b1.toNat) = [b0, b1] := by
  have hb0 := b0.toNat_lt
  have hb1 := b1.toNat_lt
  obtain ⟨hhigh, hlow⟩ := wordBytes_toNat (v := b0.toNat * 256 + b1.toNat) (by omega)
  simp only [wordBytes, List.cons.injEq, and_true]
  constructor
  · exact UInt8.toNat_inj.mp (by omega)
  · exact UInt8.toNat_inj.mp (by omega)

/-- A number whose two bytes are read back as the number: the low byte carries no sign, or the
high byte is all ones anyway. -/
def SignSafe (v : Nat) : Prop := v % 256 < 128 ∨ v / 256 = 255

instance (v : Nat) : Decidable (SignSafe v) := inferInstanceAs (Decidable (_ ∨ _))

/-- What the two bytes of a number are decoded to. -/
theorem decodeWord_wordBytes {v : Nat} (h : v < 2 ^ 16) :
    decodeWord (UInt8.ofNat (v >>> 8)) (UInt8.ofNat v) =
      if v % 256 < 128 then v else 0xFF00 + v % 256 := by
  obtain ⟨hhigh, hlow⟩ := wordBytes_toNat h
  split
  · next hplain =>
    rw [decodeWord_of_lt (by omega), hhigh, hlow]
    omega
  · next hsign => rw [decodeWord_of_ge (by omega), hlow]

/-- A number is read back exactly when it is sign-safe. -/
theorem decodeWord_wordBytes_iff {v : Nat} (h : v < 2 ^ 16) :
    decodeWord (UInt8.ofNat (v >>> 8)) (UInt8.ofNat v) = v ↔ SignSafe v := by
  rw [decodeWord_wordBytes h, SignSafe]
  split <;> omega

/-- The four bytes of a head that was written. -/
theorem slice_copy_bytes (h : PacketHead) (m : Memory) (a : Nat) :
    slice (copy m a (ofList h.bytes) 4) a 4 = h.bytes := slice_copy_inside m a h.bytes

/-! ## The round trip -/

/-- The bytes `Encode` leaves, read back by `Decode`, over any head. -/
theorem decode_copy_bytes (h h0 : PacketHead) (m : Memory) (a : Nat) {n : Int} (hn : 4 ≤ n) :
    h0.decode (copy m a (ofList h.bytes) 4) a n =
      (true, ⟨decodeWord (UInt8.ofNat (h.usPacketSize >>> 8)) (UInt8.ofNat h.usPacketSize),
        decodeWord (UInt8.ofNat (h.nPacketID >>> 8)) (UInt8.ofNat h.nPacketID)⟩) := by
  have hnot : ¬n < (getSize : Nat) := Int.not_lt.mpr hn
  have hread : ∀ i < 4, copy m a (ofList h.bytes) 4 (a + i) = ofList h.bytes i := fun i hi => by
    rw [copy_inside (by omega), Nat.add_sub_cancel_left]
  have h0' : copy m a (ofList h.bytes) 4 a = ofList h.bytes 0 := hread 0 (by omega)
  rw [decode, if_neg hnot, h0', hread 1 (by omega), hread 2 (by omega), hread 3 (by omega)]
  rfl

/-- `Encode` and then `Decode`, in any buffer and over any head, gives the head back. -/
def EncodeDecodes (h h0 : PacketHead) (m : Memory) (a n : Nat) : Prop :=
  (h.encode m a n).1 = true ∧ h0.decode (h.encode m a n).2 a n = (true, h)

/-- `Decode` and then `Encode`, into any buffer, restores the four bytes. -/
def DecodeEncodes (h0 : PacketHead) (m : Memory) (a : Nat) (m' : Memory) (a' n : Nat) : Prop :=
  (h0.decode m a n).1 = true ∧ ((h0.decode m a n).2.encode m' a' n).1 = true ∧
    slice ((h0.decode m a n).2.encode m' a' n).2 a' 4 = slice m a 4

/-- The number two bytes of a buffer make up. -/
def wordAt (m : Memory) (a : Nat) : Nat := (m a).toNat * 256 + (m (a + 1)).toNat

theorem wordAt_lt (m : Memory) (a : Nat) : wordAt m a < 2 ^ 16 := by
  have hb0 := (m a).toNat_lt
  have hb1 := (m (a + 1)).toNat_lt
  unfold wordAt
  omega

/-- Two bytes come back from their decoded number exactly when they make up a sign-safe one. -/
theorem wordBytes_decodeWord_iff (m : Memory) (a : Nat) :
    wordBytes (decodeWord (m a) (m (a + 1))) = [m a, m (a + 1)] ↔ SignSafe (wordAt m a) := by
  have hjoin : wordBytes (wordAt m a) = [m a, m (a + 1)] := wordBytes_join _ _
  have hbytes := hjoin
  simp only [wordBytes, List.cons.injEq, and_true] at hbytes
  rw [← decodeWord_wordBytes_iff (wordAt_lt m a), hbytes.1, hbytes.2, ← hjoin]
  exact ⟨wordBytes_inj (decodeWord_lt _ _) (wordAt_lt m a), fun h => by rw [h]⟩

/-- Both directions of the round trip, each exactly for sign-safe sizes and ids. -/
theorem roundTrip_iff (h h0 : PacketHead) (hsize : h.usPacketSize < 2 ^ 16)
    (hid : h.nPacketID < 2 ^ 16) (m m' : Memory) (a a' n : Nat) (hn : 4 ≤ n) :
    (EncodeDecodes h h0 m a n ↔ SignSafe h.usPacketSize ∧ SignSafe h.nPacketID) ∧
      (DecodeEncodes h0 m a m' a' n ↔ SignSafe (wordAt m a) ∧ SignSafe (wordAt m (a + 2))) := by
  constructor
  · rw [EncodeDecodes, encode_eq h m a hn, decode_copy_bytes h h0 m a (by omega),
      ← decodeWord_wordBytes_iff hsize, ← decodeWord_wordBytes_iff hid]
    cases h
    simp
  · have hnot : ¬(n : Int) < (getSize : Nat) := Int.not_lt.mpr (Int.ofNat_le.mpr hn)
    rw [DecodeEncodes, decode, if_neg hnot, encode_eq _ m' a' hn, ← wordBytes_decodeWord_iff,
      ← wordBytes_decodeWord_iff, slice_copy_bytes]
    have hslice : slice m a 4 = [m a, m (a + 1)] ++ [m (a + 2), m (a + 2 + 1)] := rfl
    rw [hslice, bytes]
    refine ⟨fun hboth => List.append_inj hboth.2.2 rfl, fun hboth => ⟨rfl, rfl, ?_⟩⟩
    rw [hboth.1, hboth.2]

/-- A round trip of a size of 127 and an id of 2, through a buffer of four bytes. -/
theorem roundTrip_iff_run :
    (EncodeDecodes ⟨127, 2⟩ new (fun _ => 0) 0 4 ↔ SignSafe 127 ∧ SignSafe 2) ∧
      (DecodeEncodes new (fun _ => 0) 0 (fun _ => 7) 0 4 ↔
        SignSafe (wordAt (fun _ => 0) 0) ∧ SignSafe (wordAt (fun _ => 0) (0 + 2))) :=
  roundTrip_iff ⟨127, 2⟩ new (by decide) (by decide) (fun _ => 0) (fun _ => 7) 0 0 4 (by decide)

/-- A size of 128 is written as `00 80` and read as `FF80`. -/
theorem size_128_not_roundTrip :
    (new.decode (encode ⟨128, 1⟩ (fun _ => 0) 0 4).2 0 4).2.usPacketSize = 0xFF80 ∧
      ¬EncodeDecodes ⟨128, 1⟩ new (fun _ => 0) 0 4 := by
  constructor
  · decide
  · rintro ⟨-, h⟩
    exact absurd h (by decide)

end PacketHead

/-! ## The encoder -/

/-- A packet that serializes to `body`: given enough room, `Encode` writes the body and reports
its length, which `GetSize` announced. -/
structure Packet.Carries (p : Packet) (body : List UInt8) : Prop where
  size : p.getSize = body.length
  encode : ∀ m a (n : Int), body.length ≤ n →
    p.encode m a n = ⟨true, copy m a (ofList body) body.length, body.length⟩

namespace PacketEncoder

/-- The head `Encode` writes before a body: the size counts the head too. -/
def headOf (id len : Nat) : PacketHead := ⟨len + 4, id⟩

/-- The frame of a packet: its head, with the size of the whole packet, and its body. -/
theorem encode_frame (e : PacketEncoder) {p : Packet} {body : List UInt8} (hp : p.Carries body)
    (hlen : body.length ≤ 65531) :
    (e.encode p).1 = true ∧
      (e.encode p).2.frame = (headOf p.getPacketID body.length).bytes ++ body := by
  have hsize : TUint16.ofInt (p.getSize + (PacketHead.getSize : Nat)) = body.length + 4 := by
    simp only [hp.size, PacketHead.getSize, TUint16.ofInt]
    omega
  have hroom : (body.length : Int) ≤ (packetBufSize : Int) - (PacketHead.getSize : Nat) := by
    simp only [packetBufSize, PacketHead.getSize]
    omega
  have htotal : TUint16.ofInt ((PacketHead.getSize : Nat) + (body.length : Int)) =
      4 + body.length := by
    simp only [PacketHead.getSize, TUint16.ofInt]
    omega
  have hhead := PacketHead.encode_eq ⟨body.length + 4, p.getPacketID⟩ e.szBuf 0
    (Nat.le_refl PacketHead.getSize)
  have hbody := hp.encode
    (copy e.szBuf 0 (ofList (headOf p.getPacketID body.length).bytes) 4) PacketHead.getSize _ hroom
  have hencode : e.encode p = (true,
      ⟨copy (copy e.szBuf 0 (ofList (headOf p.getPacketID body.length).bytes) 4) 4 (ofList body)
        body.length, 4 + body.length⟩) := by
    simp only [encode, hsize, hhead, Bool.true_eq_false, if_false]
    rw [← headOf, hbody]
    simp only [Bool.true_eq_false, if_false, htotal]
    rfl
  rw [hencode]
  refine ⟨rfl, ?_⟩
  rw [frame, slice_add, slice_copy_outside (by omega), PacketHead.slice_copy_bytes, Nat.zero_add,
    slice_copy_inside]

/-- The frames of packets encoded one after the other by one encoder, as they are sent. -/
def encodeAll (e : PacketEncoder) : List Packet → List UInt8
  | [] => []
  | p :: ps => (e.encode p).2.frame ++ encodeAll (e.encode p).2 ps

end PacketEncoder

end MmDriver

import MmDriver.Common.Types
import MmDriver.Lib.ByteMem

/-!
# Packets and their head

`include/network/packet.h` and `src/network/packet.cpp`. A packet on the wire is a head of four
bytes, the size and the id as big-endian 16-bit numbers, followed by the body.

`tchar` is plain `char`, which is signed on the targets: `Decode` reads each byte into an `int`
with its sign.
-/

namespace MmDriver

open ByteMem

/-- `PACKET_BUF_SIZE`. -/
def packetBufSize : Nat := 0xFFFF

/-- A `char` promoted to `int`. -/
def TChar.toInt (c : UInt8) : BitVec 32 := c.toBitVec.signExtend 32

/-- `PacketHead`. Both members are 16-bit unsigned. -/
structure PacketHead where
  usPacketSize : Nat
  nPacketID : Nat
deriving DecidableEq, Repr

namespace PacketHead

/-- The constructor: the id is `-1` at `tuint16`. -/
def new : PacketHead := ⟨0, 65535⟩

/-- `GetSize`, the two `sizeof`. -/
def getSize : Nat := 2 + 2

/-- `Encode` at `pBuff`: the result and the bytes behind the pointer. -/
def encode (h : PacketHead) (m : Memory) (pBuff nBufSize : Nat) : Bool × Memory :=
  if nBufSize < getSize then (false, m)
  else
    let m := storeByte m pBuff (UInt8.ofNat (h.usPacketSize >>> 8))
    let m := storeByte m (pBuff + 1) (UInt8.ofNat h.usPacketSize)
    let m := storeByte m (pBuff + 2) (UInt8.ofNat (h.nPacketID >>> 8))
    let m := storeByte m (pBuff + 3) (UInt8.ofNat h.nPacketID)
    (true, m)

/-- `pBuff[1] | ((tint16)pBuff[0] << 8)`, stored in a `tuint16`. -/
def decodeWord (b0 b1 : UInt8) : Nat :=
  ((TChar.toInt b1 ||| TChar.toInt b0 <<< 8).setWidth 16).toNat

/-- `Decode` from `pBuff`; a short buffer leaves the head as it was. -/
def decode (h : PacketHead) (m : Memory) (pBuff : Nat) (nSize : Int) : Bool × PacketHead :=
  if nSize < getSize then (false, h)
  else (true, ⟨decodeWord (m pBuff) (m (pBuff + 1)), decodeWord (m (pBuff + 2)) (m (pBuff + 3))⟩)

end PacketHead

/-- What a packet's `Encode(pBuff, nBufSize)` leaves: its result, the bytes, and `nBufSize`. -/
structure PacketEncodeResult where
  ret : Bool
  mem : Memory
  nBufSize : Int

/-- `Packet`, an interface: the packets of an application implement it. -/
structure Packet where
  getPacketID : Nat
  getSize : Int
  encode : Memory → Nat → Int → PacketEncodeResult

/-- `PacketEncoder`. -/
structure PacketEncoder where
  szBuf : Memory
  usSize : Nat

namespace PacketEncoder

/-- `Encode`: the head first, with the size of the whole packet, and the body behind it. -/
def encode (e : PacketEncoder) (rkPacket : Packet) : Bool × PacketEncoder :=
  let kHead : PacketHead :=
    ⟨TUint16.ofInt (rkPacket.getSize + PacketHead.getSize), rkPacket.getPacketID⟩
  let usHeadLen := PacketHead.getSize
  let head := kHead.encode e.szBuf 0 usHeadLen
  if head.1 = false then (false, { e with szBuf := head.2 })
  else
    let body := rkPacket.encode head.2 PacketHead.getSize (packetBufSize - PacketHead.getSize)
    if body.ret = false then (false, { e with szBuf := body.mem })
    else (true, ⟨body.mem, TUint16.ofInt (usHeadLen + body.nBufSize)⟩)

/-- The packet as it goes to the wire: `GetSize` bytes from `GetBuff`. -/
def frame (e : PacketEncoder) : List UInt8 := slice e.szBuf 0 e.usSize

end PacketEncoder

end MmDriver

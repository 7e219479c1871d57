import MmDriver.Network.Packet

/-!
# The packets of the application

`test/PacketTest.h` and `test/PacketTest.cpp`. A packet carries a protobuf message, which is known
by the bytes it serializes to: `ByteSize` is their number, and `SerializePartialToArray` writes
them when the size it is given is enough for them, and nothing otherwise.
-/

namespace MmDriver

open ByteMem

/-- A message of `google::protobuf`. -/
structure ProtoMessage where
  serialized : List UInt8
deriving DecidableEq, Repr

namespace ProtoMessage

/-- `ByteSize`. -/
def byteSize (d : ProtoMessage) : Int := d.serialized.length

/-- `SerializePartialToArray`. -/
def serializePartialToArray (d : ProtoMessage) (m : Memory) (data : Nat) (size : Int) :
    Bool × Memory :=
  if size < d.byteSize then (false, m)
  else (true, copy m data (ofList d.serialized) d.serialized.length)

end ProtoMessage

/-- A packet around a protobuf message. Its `Encode` passes on the message's own size and reads
nothing of `nBufSize`. -/
def protoPacket (packetID : Nat) (packetData : ProtoMessage) : Packet where
  getPacketID := packetID
  getSize := packetData.byteSize
  encode pBuff a nBufSize :=
    let r := packetData.serializePartialToArray pBuff a packetData.byteSize
    if r.1 = false then ⟨false, r.2, nBufSize⟩ else ⟨true, r.2, packetData.byteSize⟩

/-- `P_Login`, with `PACKET_CG_LOGIN` for its id. -/
def pLogin (packetData : ProtoMessage) : Packet := protoPacket 1 packetData

/-- `P_LoginRet`, with `PACKET_GC_LOGIN`. -/
def pLoginRet (packetData : ProtoMessage) : Packet := protoPacket 2 packetData

end MmDriver

import MmDriver.Common.Types
import MmDriver.Lib.ByteMem

/-!
# Messages between services

`include/common/message.h` and `src/common/message.cpp`. A message in a channel is a head and a
body. The body starts `sizeof(MessageHead)` bytes behind the start, which is more than the head's
fields occupy: the object also holds the pointer to its virtual table, and padding.

The fields are copied byte by byte, in the byte order of the machine.
-/

namespace MmDriver

open ByteMem

/-- `MESSAGE_BUF_SIZE`. -/
def messageBufSize : Nat := 0xFFFF

/-- `MessageHead`. -/
structure MessageHead where
  nSize : Int32
  usMessageID : UInt16
  nSrcServiceType : Int16
  nScrServiceID : Int16
  nDstServiceType : Int16
  nDstServiceID : Int16
deriving DecidableEq, Repr

namespace MessageHead

/-- `sizeof(MessageHead)`: eight bytes for the virtual table, fourteen of fields, two of
padding. -/
def sizeofMessageHead : Nat := 24

/-- The constructor. -/
def new : MessageHead := ⟨0, 0, -1, -1, -1, -1⟩

/-- `Encode` at `pBuff`: the result and the bytes behind the pointer. -/
def encode (h : MessageHead) (m : Memory) (pBuff nBufSize : Nat) : Bool × Memory :=
  if nBufSize < sizeofMessageHead then (false, m)
  else
    let m := storeBits 4 m pBuff h.nSize.toBitVec
    let m := storeBits 2 m (pBuff + 4) h.usMessageID.toBitVec
    let m := storeBits 2 m (pBuff + 6) h.nSrcServiceType.toBitVec
    let m := storeBits 2 m (pBuff + 8) h.nScrServiceID.toBitVec
    let m := storeBits 2 m (pBuff + 10) h.nDstServiceType.toBitVec
    let m := storeBits 2 m (pBuff + 12) h.nDstServiceID.toBitVec
    (true, m)

/-- `Decode` from `pBuff`. The size is compared with that of the first two fields only; a
shorter buffer leaves the head as it was. -/
def decode (h : MessageHead) (m : Memory) (pBuff : Nat) (nSize : Int) : Bool × MessageHead :=
  if nSize < 4 + 2 then (false, h)
  else
    (true,
      { nSize := Int32.ofBitVec (loadBits 4 m pBuff)
        usMessageID := UInt16.ofBitVec (loadBits 2 m (pBuff + 4))
        nSrcServiceType := Int16.ofBitVec (loadBits 2 m (pBuff + 6))
        nScrServiceID := Int16.ofBitVec (loadBits 2 m (pBuff + 8))
        nDstServiceType := Int16.ofBitVec (loadBits 2 m (pBuff + 10))
        nDstServiceID := Int16.ofBitVec (loadBits 2 m (pBuff + 12)) })

end MessageHead

/-- What a message's `Encode(pBuff, nBufSize)` leaves: its result, the bytes, and `nBufSize`. -/
structure MessageEncodeResult where
  ret : Bool
  mem : Memory
  nBufSize : Nat

/-- `Message`, an interface: the messages of an application implement it. `nBufSize` is a
`tuint16`. -/
structure Driver.Message where
  getMessageID : UInt16
  encode : Memory → Nat → Nat → MessageEncodeResult

/-- `MessageEncoder`. -/
structure MessageEncoder where
  szMsgBuf : Memory
  usMsgSize : Nat

namespace MessageEncoder

/-- The constructor, which is `Clear`: one byte of the buffer is written. -/
def new (szMsgBuf : Memory) : MessageEncoder := ⟨storeByte szMsgBuf 0 0, 0⟩

/-- What `Encode` leaves: the caller's head is changed too. -/
structure EncodeResult where
  ret : Bool
  encoder : MessageEncoder
  head : MessageHead

/-- `Encode`: the body first, behind the room for the head, and the head with the body's length
in it. -/
def encode (e : MessageEncoder) (pkMessage : Option Driver.Message) (rkHead : MessageHead) :
    EncodeResult :=
  match pkMessage with
  | none => ⟨false, e, rkHead⟩
  | some pkMessage =>
    let nMessageLen := messageBufSize - MessageHead.sizeofMessageHead
    let body := pkMessage.encode e.szMsgBuf MessageHead.sizeofMessageHead nMessageLen
    if body.ret = false then ⟨false, { e with szMsgBuf := body.mem }, rkHead⟩
    else
      let rkHead := { rkHead with
        usMessageID := pkMessage.getMessageID, nSize := Int32.ofNat body.nBufSize }
      let usHeadLen := MessageHead.sizeofMessageHead
      let head := rkHead.encode body.mem 0 usHeadLen
      if head.1 = false then ⟨false, { e with szMsgBuf := head.2 }, rkHead⟩
      else ⟨true, ⟨head.2, TUint16.ofNat (usHeadLen + body.nBufSize)⟩, rkHead⟩

/-- `GetBuff`, as the bytes behind the pointer. -/
def getBuff (e : MessageEncoder) : Nat → UInt8 := e.szMsgBuf

/-- `GetSize`. -/
def getSize (e : MessageEncoder) : Nat := e.usMsgSize

/-- The message as it goes into a channel. -/
def frame (e : MessageEncoder) : List UInt8 := slice e.getBuff 0 e.getSize

end MessageEncoder

end MmDriver

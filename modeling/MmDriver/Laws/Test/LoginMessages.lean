import MmDriver.Laws.Test.MessageLoop
import MmDriver.Laws.Test.PacketData

/-!
# What the messages of a login stand for

A request is passed on in a message, and so is its answer. Whoever takes a message with a whole head
decodes what stands behind it, which is what was put into the message.
-/

namespace MmDriver

open ByteMem

/-- The body of a message. -/
def messageBody (x : MsgFifo.Message) : List UInt8 := x.drop MessageHead.sizeofMessageHead

/-- The request that is in a message. -/
def requestOf (x : MsgFifo.Message) : Option NhReqLogin := nhReqLogin.parseFromArray (messageBody x)

/-- The number and the result of the answer that is in a message. -/
def answerOf (x : MsgFifo.Message) : Option (UInt32 × Int32) :=
  (hnRetLogin.parseFromArray (messageBody x)).map fun r => (r.uid, r.result)

theorem turnOf_pBuff {η : Type} (dispatcher : Nat → Option η) (buf : Memory) {len : Nat}
    (hlow : 24 ≤ len) (hhigh : len < 2 ^ 16) :
    (turnOf dispatcher buf len).pBuff = messageBody (slice buf 0 len) := by
  dsimp only [turnOf, messageBody]
  exact slice_body buf hlow hhigh

section Frames

variable {M : Type} {c : ProtoClass M} {m : M} {id : UInt16} {e sent : MessageEncoder}
  {rkHead head : MessageHead}

end Frames

end MmDriver

import MmDriver.Common.MsgChannel

/-!
# `append` and `pop`, behind their comparison

`get_free_size` compares `read_` and `write_` first, and the arm of the `?:` that it chooses loads
both again. The other end of the queue may run between the two. Here a call is cut there: one
definition for the comparison, and one for the rest of each function in the arm that was chosen.
Where the comparison still has its outcome, the rest is the whole call.
-/

namespace MmDriver

open ByteMem

namespace MsgQueue

/-- The comparison of `get_free_size`. -/
def readAhead (q : MsgQueue) (m : Memory) : Bool := decide (q.read m > q.write m)

/-- The arms of `get_free_size`: `arm` is the outcome of the comparison. -/
def getFreeSizeIn (q : MsgQueue) (arm : Bool) (m : Memory) : Nat :=
  if arm then SizeT.sub (SizeT.sub (q.read m) (q.write m)) messageQueueReverseLength
  else
    SizeT.sub (SizeT.add (SizeT.sub (q.queueSize m) (q.write m)) (q.read m))
      messageQueueReverseLength

/-- `get_used_size`, in an arm of `get_free_size`. -/
def getUsedSizeIn (q : MsgQueue) (arm : Bool) (m : Memory) : Nat :=
  SizeT.sub (q.size m) (q.getFreeSizeIn arm m)

/-- `append`, in an arm of `get_free_size`. -/
def appendIn (q : MsgQueue) (arm : Bool) (m : Memory) (pmsg : Nat → UInt8) (msgLength : Nat) :
    AppendResult :=
  if q.getFreeSizeIn arm m < SizeT.add msgLength queueMessageHeadLength then
    ⟨false, m, []⟩
  else
    q.putMessage m pmsg msgLength

/-- `pop`, in an arm of `get_free_size`. -/
def popIn (q : MsgQueue) (arm : Bool) (m buf : Memory) (msgLength : Nat) : PopResult :=
  if minMessageChunkSize > q.getUsedSizeIn arm m ∨
      SizeT.add queueMessageHeadLength (q.getMsgLength m) > q.getUsedSizeIn arm m then
    ⟨false, m, buf, msgLength, q.headSpans m⟩
  else if q.getMsgLength m > msgLength then
    ⟨false, m, buf, msgLength, q.headSpans m⟩
  else
    q.takeMessage m buf (q.getMsgLength m)

@[simp] theorem getFreeSizeIn_readAhead (q : MsgQueue) (m : Memory) :
    q.getFreeSizeIn (q.readAhead m) m = q.getFreeSize m := by
  simp only [getFreeSizeIn, readAhead, getFreeSize, decide_eq_true_eq]

@[simp] theorem appendIn_readAhead (q : MsgQueue) (m : Memory) (pmsg : Nat → UInt8)
    (msgLength : Nat) : q.appendIn (q.readAhead m) m pmsg msgLength = q.append m pmsg msgLength := by
  rw [appendIn, getFreeSizeIn_readAhead, append]

@[simp] theorem popIn_readAhead (q : MsgQueue) (m buf : Memory) (msgLength : Nat) :
    q.popIn (q.readAhead m) m buf msgLength = q.pop m buf msgLength := by
  rw [popIn, getUsedSizeIn, getFreeSizeIn_readAhead, pop, getUsedSize]

end MsgQueue

namespace MessageChannel

/-- The receiving half of both directions, in an arm of `get_free_size`. -/
def recvMessageIn (q : MsgQueue) (arm : Bool) (m pMsgBuff : Memory) (usMsgSize : Nat) :
    MsgQueue.PopResult :=
  let r := q.popIn arm m pMsgBuff usMsgSize
  { r with msgLength := if r.ret then TUint16.ofNat r.msgLength else usMsgSize }

@[simp] theorem recvMessageIn_readAhead (q : MsgQueue) (m pMsgBuff : Memory) (usMsgSize : Nat) :
    recvMessageIn q (q.readAhead m) m pMsgBuff usMsgSize = recvMessage q m pMsgBuff usMsgSize := by
  rw [recvMessageIn, MsgQueue.popIn_readAhead, recvMessage]

end MessageChannel

end MmDriver

import MmDriver.Common.ShareMemory

/-!
# `MessageChannel`, two queues in one shared segment

`include/common/msg_channel.h` and `src/common/msg_channel.cpp`. The input queue's segment
comes first and the output queue's directly behind it. Each side sends on one queue and
receives on the other; all four methods forward to `append` and `pop`, whose lengths pass
through a `tuint16`.
-/

namespace MmDriver

open ByteMem

/-- `MessageChannel`. -/
structure MessageChannel where
  shareMemory : ShareMemory
  msgOutput : MsgQueue
  msgInput : MsgQueue
deriving DecidableEq, Repr

namespace MessageChannel

/-- The constructor: `Msg_Queue` has none, so the queues' pointers are whatever was there. -/
def new (msgOutput msgInput : MsgQueue) : MessageChannel :=
  { shareMemory := ShareMemory.new, msgOutput := msgOutput, msgInput := msgInput }

/-- What `InitMessageQueue` leaves, and the queue headers it dereferenced, in order. -/
structure InitResult where
  ret : Bool
  channel : MessageChannel
  mem : Memory
  headers : List Nat

/-- `InitMessageQueue`. Neither the result of `attach_share_memory` nor a null segment is
checked. -/
def initMessageQueue (c : MessageChannel) (api : SharememoryApi) (m : Memory) (unKey : Nat)
    (nInputSize nOutputSize : Int) : InitResult :=
  let inputSize := SizeT.ofInt nInputSize
  let outputSize := SizeT.ofInt nOutputSize
  let allocInputSize := MsgQueue.allocSize inputSize
  let allocOutputSize := MsgQueue.allocSize outputSize
  let attached := c.shareMemory.attachShareMemory api unKey
    (SizeT.add allocInputSize allocOutputSize)
  let inputMem := attached.shareMemory.createSegment allocInputSize
  let input := c.msgInput.init m inputMem.mem allocInputSize inputSize inputMem.shareMemory.mode
  if input.ret = false then
    ⟨false, ⟨inputMem.shareMemory, c.msgOutput, input.queue⟩, input.mem, [inputMem.mem]⟩
  else
    let outputMem := inputMem.shareMemory.createSegment allocOutputSize
    let output := c.msgOutput.init input.mem outputMem.mem allocOutputSize outputSize
      outputMem.shareMemory.mode
    ⟨output.ret, ⟨outputMem.shareMemory, output.queue, input.queue⟩, output.mem,
      [inputMem.mem, outputMem.mem]⟩

/-- `SendMessageInput`. -/
def sendMessageInput (c : MessageChannel) (m : Memory) (pMsgBuff : Nat → UInt8)
    (usMsgSize : Nat) : MsgQueue.AppendResult := c.msgInput.append m pMsgBuff usMsgSize

/-- `SendMessageOutput`. -/
def sendMessageOutput (c : MessageChannel) (m : Memory) (pMsgBuff : Nat → UInt8)
    (usMsgSize : Nat) : MsgQueue.AppendResult := c.msgOutput.append m pMsgBuff usMsgSize

/-- The receiving half of both directions: the length goes in and out through a `size_t`, and
`usMsgSize` is written only on success. -/
def recvMessage (q : MsgQueue) (m pMsgBuff : Memory) (usMsgSize : Nat) : MsgQueue.PopResult :=
  let r := q.pop m pMsgBuff usMsgSize
  { r with msgLength := if r.ret then TUint16.ofNat r.msgLength else usMsgSize }

/-- `RecvMessageOutput`. -/
def recvMessageOutput (c : MessageChannel) (m pMsgBuff : Memory) (usMsgSize : Nat) :
    MsgQueue.PopResult := recvMessage c.msgOutput m pMsgBuff usMsgSize

/-- `RecvMessasgeInput`. -/
def recvMessasgeInput (c : MessageChannel) (m pMsgBuff : Memory) (usMsgSize : Nat) :
    MsgQueue.PopResult := recvMessage c.msgInput m pMsgBuff usMsgSize

end MessageChannel

end MmDriver

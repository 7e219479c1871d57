import MmDriver.Common.Message
import MmDriver.Common.MsgChannel

/-!
# The loop that takes messages from a channel

`test/MessageTest.h`, `test/ServiceDefine.h`, and the text that `NetService::TickHttpMsg`,
`HttpService::Tick` and `DBService::Tick` share: receive a message, compare the length in its head
with the length received, and call the handler of its id.

The length is one variable, `bufSize`: the receive takes the buffer's capacity from it and leaves
the message's length in it, and the next receive starts from there.

A handler call is recorded with the head and the bytes that the handler decodes; what a handler does
to the channel's memory is part of the service. The loop runs as long as there are messages, so it
takes a bound on its turns, and has no result when the bound is used up.

A handler hands `m_nSize` to its message's `Decode` as a `tuint16`. A message that is shorter than a
head passes the comparison with a negative length, and its handler decodes more than 65000 bytes, most
of them from behind `buf`. What stands there is not known; it is read as zero.
-/

namespace MmDriver

open ByteMem

/-- `MESSAGE_ID_MAX` of `MessageDefine`. -/
def messageIdMax : Nat := 3

/-- `MSG_NH_REQ_LOGIN`. -/
def msgNhReqLogin : Nat := 1

/-- `MSG_HN_RET_LOGIN`. -/
def msgHnRetLogin : Nat := 2

/-- `ServiceType`. -/
inductive ServiceType where
  | invalid
  | login
  | http
  | httpManager
  | monitor
  | client
  | dbService
deriving DecidableEq, Repr

/-- The enumerator's value. -/
def ServiceType.value : ServiceType → Int16
  | .invalid => -1
  | .login => 0
  | .http => 1
  | .httpManager => 2
  | .monitor => 3
  | .client => 4
  | .dbService => 5

variable {σ η : Type}

/-- One turn of the loop: the handler called, if the id has one, the head, and the bytes that the
handler decodes. A message without a handler is only logged. -/
structure MessageDispatch (η : Type) where
  handler : Option η
  rkMsgHead : MessageHead
  pBuff : List UInt8
deriving DecidableEq, Repr

/-- What the loop leaves. -/
structure LoopResult (σ η : Type) where
  app : σ
  mem : Memory
  dispatched : List (MessageDispatch η)

/-- The size of `buf`. -/
def messageLoopBufSize : Nat := 2048

/-- `bufSize - sizeof(MessageHead)`, at `tint32`. -/
def messageBodySize (bufSize : Nat) : Int :=
  TInt32.ofNat (SizeT.sub bufSize MessageHead.sizeofMessageHead)

/-- `m_pMessageDispatcher[msgID]`, for an id below `MESSAGE_ID_MAX`. -/
def handlerOf (dispatcher : Nat → Option η) (msgID : Nat) : Option η :=
  if msgID < messageIdMax then dispatcher msgID else none

/-- The turn of the loop with the message that was received. -/
def turnOf (dispatcher : Nat → Option η) (buf : Memory) (bufSize : Nat) : MessageDispatch η :=
  let kMessageHead := (MessageHead.new.decode buf 0 bufSize).2
  ⟨handlerOf dispatcher kMessageHead.usMessageID.toNat, kMessageHead,
    slice buf MessageHead.sizeofMessageHead (TUint16.ofInt (messageBodySize bufSize))⟩

/-- The loop from a turn on. `recv` is the receive, `call` what a turn does to the service and to
the memory. -/
def messageLoop (recv : Memory → Memory → Nat → MsgQueue.PopResult) (dispatcher : Nat → Option η)
    (call : σ → Memory → MessageDispatch η → σ × Memory) :
    Nat → σ → Memory → Memory → Nat → Option (LoopResult σ η)
  | 0, _, _, _, _ => none
  | turns + 1, app, m, buf, bufSize =>
    let r := recv m buf bufSize
    if r.ret = false then some ⟨app, r.mem, []⟩
    else
      let kMessageHead := (MessageHead.new.decode r.buf 0 r.msgLength).2
      if kMessageHead.nSize.toInt ≠ messageBodySize r.msgLength then some ⟨app, r.mem, []⟩
      else
        let turn := turnOf dispatcher r.buf r.msgLength
        let called := call app r.mem turn
        let rest := messageLoop recv dispatcher call turns called.1 called.2 r.buf r.msgLength
        rest.map fun t => { t with dispatched := turn :: t.dispatched }

/-- The loop from its start, with the buffer cleared. -/
def runMessageLoop (recv : Memory → Memory → Nat → MsgQueue.PopResult)
    (dispatcher : Nat → Option η) (call : σ → Memory → MessageDispatch η → σ × Memory)
    (turns : Nat) (app : σ) (m : Memory) : Option (LoopResult σ η) :=
  messageLoop recv dispatcher call turns app m (fun _ => 0) messageLoopBufSize

end MmDriver

import MmDriver.Common.TimerEx
import MmDriver.Test.MessageLoop

/-!
# `HttpService`

`test/HttpService.h` and `test/HttpService.cpp`. Its channel is a segment of its own: the manager
sends to the output queue and receives from the input queue, the service the other way round.

Verifying a login asks a web server. The answer, as the message it is put into, is given by
`verify`; it has none when the request cannot be decoded.
-/

namespace MmDriver

open ByteMem

/-- The member functions the message dispatcher points to. -/
inductive HttpMessageHandler where
  | handleMsgDefault
  | handleMsgUserLogin
deriving DecidableEq, Repr

/-- `HttpService`: the members its messages pass through, and the world `verify` asks. -/
structure HttpService (σ : Type) where
  serviceID : Int16
  timers : List TimerEx
  kMCHttp2Login : MessageChannel
  kMsgHead : MessageHead
  kMsgEncoder : MessageEncoder
  messageDispatcher : Nat → Option HttpMessageHandler
  bFree : Bool
  web : σ

namespace HttpService

variable {σ : Type}

/-- The dispatcher `Init` leaves. -/
def initDispatcher (msgID : Nat) : Option HttpMessageHandler :=
  if msgID = msgNhReqLogin then some .handleMsgUserLogin
  else if msgID < messageIdMax then some .handleMsgDefault
  else none

/-- `IsFree`. -/
def isFree (svc : HttpService σ) : Bool := svc.bFree

/-- `RecvMessasgeInput`, called by the manager: the service is free again, whether or not there
was a message. -/
def recvMessasgeInput (svc : HttpService σ) (m pMsgBuff : Memory) (usMsgSize : Nat) :
    HttpService σ × MsgQueue.PopResult :=
  ({ svc with bFree := true }, svc.kMCHttp2Login.recvMessasgeInput m pMsgBuff usMsgSize)

/-- `SendMessageOutput`, called by the manager: the service is no longer free, whether or not the
message fits. -/
def sendMessageOutput (svc : HttpService σ) (m : Memory) (pMsgBuff : Nat → UInt8)
    (usMsgSize : Nat) : HttpService σ × MsgQueue.AppendResult :=
  ({ svc with bFree := false }, svc.kMCHttp2Login.sendMessageOutput m pMsgBuff usMsgSize)

/-- `SendMsgToNetServer`: the answer of `SendMessageInput` is not looked at. -/
def sendMsgToNetServer (svc : HttpService σ) (m : Memory) (pkMessage : Driver.Message) :
    Bool × HttpService σ × Memory :=
  let kMsgHead := { svc.kMsgHead with
    nSrcServiceType := ServiceType.http.value, nScrServiceID := svc.serviceID,
    nDstServiceType := ServiceType.login.value, nDstServiceID := -1 }
  let r := svc.kMsgEncoder.encode (some pkMessage) kMsgHead
  let svc := { svc with kMsgHead := r.head, kMsgEncoder := r.encoder }
  if r.ret = false then (false, svc, m)
  else (true, svc, (svc.kMCHttp2Login.sendMessageInput m svc.kMsgEncoder.getBuff
    svc.kMsgEncoder.getSize).mem)

/-- `HandleMsgUserLogin` and `Verify`. -/
def handleMsgUserLogin (verify : σ → List UInt8 → σ × Option Driver.Message) (svc : HttpService σ)
    (m : Memory) (pBuff : List UInt8) : HttpService σ × Memory :=
  let answer := verify svc.web pBuff
  let svc := { svc with web := answer.1 }
  match answer.2 with
  | none => (svc, m)
  | some msgRet => (svc.sendMsgToNetServer m msgRet).2

/-- What a turn of the loop does. -/
def handle (verify : σ → List UInt8 → σ × Option Driver.Message) (svc : HttpService σ) (m : Memory)
    (turn : MessageDispatch HttpMessageHandler) : HttpService σ × Memory :=
  match turn.handler with
  | some .handleMsgUserLogin => svc.handleMsgUserLogin verify m turn.pBuff
  | some .handleMsgDefault | none => (svc, m)

/-- `Tick`: the timers, whose callbacks do not use the channel, and the messages. -/
def tick (verify : σ → List UInt8 → σ × Option Driver.Message) (turns : Nat) (svc : HttpService σ)
    (m : Memory) (rkTimeData : TimeData) :
    Option (LoopResult (HttpService σ) HttpMessageHandler) :=
  let svc := { svc with timers := svc.timers.map fun t => (t.tick rkTimeData).1 }
  runMessageLoop svc.kMCHttp2Login.recvMessageOutput svc.messageDispatcher (handle verify) turns
    svc m

end HttpService

end MmDriver

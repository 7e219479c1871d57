import MmDriver.Common.TimerEx
import MmDriver.Test.MessageLoop

/-!
# `DBService`

`test/DBService.h` and `test/DBService.cpp`. Its message handlers only print what they decode.
-/

namespace MmDriver

/-- The member functions the message dispatcher points to. -/
inductive DBMessageHandler where
  | handleMsgDefault
  | handleMsgUserLogin
deriving DecidableEq, Repr

/-- `DBService`: the members its messages pass through. -/
structure DBService where
  timers : List TimerEx
  kMCHttp2Login : MessageChannel
  messageDispatcher : Nat → Option DBMessageHandler

namespace DBService

/-- The dispatcher `Init` leaves. -/
def initDispatcher (msgID : Nat) : Option DBMessageHandler :=
  if msgID = msgNhReqLogin then some .handleMsgUserLogin
  else if msgID < messageIdMax then some .handleMsgDefault
  else none

/-- `Tick`: the timers, of which `TickConnect` speaks to the redis server, and the messages. -/
def tick (turns : Nat) (svc : DBService) (m : ByteMem.Memory) (rkTimeData : TimeData) :
    Option (LoopResult DBService DBMessageHandler) :=
  let svc := { svc with timers := svc.timers.map fun t => (t.tick rkTimeData).1 }
  runMessageLoop svc.kMCHttp2Login.recvMessageOutput svc.messageDispatcher
    (fun svc m _ => (svc, m)) turns svc m

end DBService

end MmDriver

import MmDriver.Common.MsgQueueArms
import MmDriver.Test.HttpService

/-!
# `HttpManagerService`

`test/HttpManagerService.h` and `test/HttpManagerService.cpp`. `Tick` takes messages from the
manager's channel and sends each to the first service of the pool that is free; then it takes what
the services answered and sends it back.

The services and the net service run on other threads, so `Tick` is given as single steps, of one
call on a channel each, with the calls of the others between any two of them. The buffer and its size
are one pair of variables over both loops. The results of the two sends are not looked at; a step
reports them.

`managerStep` makes its call in one piece. `get_free_size` compares the two counters of a queue
before it loads them again, and the other end of the queue may run in between: `managerStepIn` is the
step behind the comparison, in the arm that was chosen. The other accesses of a call are not apart.
-/

namespace MmDriver

open ByteMem

/-- A service of the pool, with the memory of its segment. -/
structure HttpSlot (σ : Type) where
  svc : HttpService σ
  mem : Memory

namespace HttpManagerService

/-- Where `Tick` stands: outside; before a call of `RecvMessageOutput`; with a message to
dispatch; before a call of `RecvMessasgeInput` of a service; with an answer of a service. -/
inductive TickPc where
  | idle
  | recvOutput
  | dispatch
  | recvInput (iter : Nat)
  | sendInput (iter : Nat)
deriving DecidableEq, Repr

/-- What a step did with a message. -/
inductive Event where
  | took (msg : List UInt8)
  | forwarded (iter : Nat) (msg : List UInt8)
  | tookResponse (iter : Nat) (msg : List UInt8)
  | returned (msg : List UInt8)
  | served (iter : Nat) (msg : List UInt8)
  | collected (msg : List UInt8)
deriving DecidableEq, Repr

end HttpManagerService

/-- `HttpManagerService`, with the memory of its segment and the locals of `Tick`. -/
structure HttpManagerService (σ : Type) where
  kMsgChannel : MessageChannel
  httpServicePool : List (Option (HttpSlot σ))
  mem : Memory
  pc : HttpManagerService.TickPc
  buf : Memory
  bufSize : Nat

namespace HttpManagerService

variable {σ : Type}

/-- The loop over the pool, with what a send to a service leaves and answers: the pool after it, and
which service was sent the message with which result. -/
def dispatchBy (send : HttpSlot σ → HttpSlot σ × Bool) :
    List (Option (HttpSlot σ)) → List (Option (HttpSlot σ)) × Option (Nat × Bool)
  | [] => ([], none)
  | none :: pool =>
    let r := dispatchBy send pool
    (none :: r.1, r.2.map fun sent => (sent.1 + 1, sent.2))
  | some slot :: pool =>
    if slot.svc.isFree then
      let sent := send slot
      (some sent.1 :: pool, some (0, sent.2))
    else
      let r := dispatchBy send pool
      (some slot :: r.1, r.2.map fun sent => (sent.1 + 1, sent.2))

/-- The loop over the pool. -/
def dispatch (buf : Memory) (bufSize : Nat) (pool : List (Option (HttpSlot σ))) :
    List (Option (HttpSlot σ)) × Option (Nat × Bool) :=
  dispatchBy (fun slot =>
    let sent := slot.svc.sendMessageOutput slot.mem buf bufSize
    (⟨sent.1, sent.2.mem⟩, sent.2.ret)) pool

/-- The length in the head is the one received. -/
def headFits (buf : Memory) (bufSize : Nat) : Bool :=
  (MessageHead.new.decode buf 0 bufSize).2.nSize.toInt = messageBodySize bufSize

/-- Behind `RecvMessageOutput`: without a message the services' turn comes, and a message whose head
does not fit ends the tick. -/
def afterRecvOutput (s : HttpManagerService σ) (r : MsgQueue.PopResult) :
    HttpManagerService σ × Option Event :=
  let s := { s with mem := r.mem, buf := r.buf, bufSize := r.msgLength }
  if r.ret = false then ({ s with pc := .recvInput 0 }, none)
  else if headFits r.buf r.msgLength = false then ({ s with pc := .idle }, none)
  else ({ s with pc := .dispatch }, some (.took (slice r.buf 0 r.msgLength)))

/-- Behind the loop over the pool. -/
def afterDispatch (s : HttpManagerService σ)
    (r : List (Option (HttpSlot σ)) × Option (Nat × Bool)) :
    HttpManagerService σ × Option Event :=
  ({ s with pc := .recvOutput, httpServicePool := r.1 },
    match r.2 with
    | some (iter, true) => some (.forwarded iter (slice s.buf 0 s.bufSize))
    | some (_, false) | none => none)

/-- Behind `RecvMessasgeInput` of a service: without an answer the next service's turn comes. -/
def afterRecvInput (s : HttpManagerService σ) (iter : Nat) (r : HttpService σ × MsgQueue.PopResult) :
    HttpManagerService σ × Option Event :=
  let s := { s with
    httpServicePool := s.httpServicePool.set iter (some ⟨r.1, r.2.mem⟩)
    buf := r.2.buf
    bufSize := r.2.msgLength }
  if r.2.ret = false then ({ s with pc := .recvInput (iter + 1) }, none)
  else if headFits r.2.buf r.2.msgLength = false then ({ s with pc := .idle }, none)
  else ({ s with pc := .sendInput iter },
    some (.tookResponse iter (slice r.2.buf 0 r.2.msgLength)))

/-- Behind `SendMessageInput`. -/
def afterSendInput (s : HttpManagerService σ) (iter : Nat) (r : MsgQueue.AppendResult) :
    HttpManagerService σ × Option Event :=
  ({ s with mem := r.mem, pc := .recvInput iter },
    if r.ret then some (.returned (slice s.buf 0 s.bufSize)) else none)

/-- The next step of `Tick`, its call in one piece. -/
def managerStep (s : HttpManagerService σ) : HttpManagerService σ × Option Event :=
  match s.pc with
  | .idle => ({ s with pc := .recvOutput, buf := fun _ => 0, bufSize := messageLoopBufSize }, none)
  | .recvOutput =>
    s.afterRecvOutput (s.kMsgChannel.recvMessageOutput s.mem s.buf s.bufSize)
  | .dispatch => s.afterDispatch (dispatch s.buf s.bufSize s.httpServicePool)
  | .recvInput iter =>
    match s.httpServicePool[iter]? with
    | none => ({ s with pc := .idle }, none)
    | some none => ({ s with pc := .recvInput (iter + 1) }, none)
    | some (some slot) =>
      s.afterRecvInput iter (slot.svc.recvMessasgeInput slot.mem s.buf s.bufSize)
  | .sendInput iter =>
    s.afterSendInput iter (s.kMsgChannel.sendMessageInput s.mem s.buf s.bufSize)

/-! ## Behind the comparison -/

/-- `SendMessageOutput` of a service, in an arm of `get_free_size`. -/
def sendOutputIn (arm : Bool) (buf : Memory) (bufSize : Nat) (slot : HttpSlot σ) :
    HttpSlot σ × Bool :=
  let sent := slot.svc.kMCHttp2Login.msgOutput.appendIn arm slot.mem buf bufSize
  (⟨{ slot.svc with bFree := false }, sent.mem⟩, sent.ret)

/-- The next step of `Tick` behind the comparison of its call, in the arm that was chosen. -/
def managerStepIn (s : HttpManagerService σ) (arm : Bool) : HttpManagerService σ × Option Event :=
  match s.pc with
  | .idle => s.managerStep
  | .recvOutput =>
    s.afterRecvOutput
      (MessageChannel.recvMessageIn s.kMsgChannel.msgOutput arm s.mem s.buf s.bufSize)
  | .dispatch => s.afterDispatch (dispatchBy (sendOutputIn arm s.buf s.bufSize) s.httpServicePool)
  | .recvInput iter =>
    match s.httpServicePool[iter]? with
    | none | some none => s.managerStep
    | some (some slot) =>
      s.afterRecvInput iter ({ slot.svc with bFree := true },
        MessageChannel.recvMessageIn slot.svc.kMCHttp2Login.msgInput arm slot.mem s.buf s.bufSize)
  | .sendInput iter =>
    s.afterSendInput iter (s.kMsgChannel.msgInput.appendIn arm s.mem s.buf s.bufSize)

end HttpManagerService

end MmDriver

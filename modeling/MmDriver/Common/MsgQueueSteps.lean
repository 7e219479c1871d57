import MmDriver.Common.MsgQueue
import MmDriver.Lib.RelyGuarantee

/-!
# `append` and `pop`, one memory access at a time

The same two functions of `msg_queue.cpp` as programs of single accesses to what the two
processes share: a load or store of `read_` or `write_`, or one byte copied into or out of the
ring. Each access is written where the source makes it, as often as the source makes it; the
two members are `volatile` and nothing is cached. `queue_size_` is constant and costs no step.

The state carries, besides the two indices and the ring, the history a specification speaks
of: what was appended, what is being published and what was popped. No access reads it.
-/

namespace MmDriver.MsgQueueSteps

open ByteMem RelyGuarantee
open MsgQueue (queueMessageHeadLength minMessageChunkSize messageQueueReverseLength skipHead)

/-- `read_` and `write_`. -/
inductive Counter where
  | read
  | write
deriving DecidableEq, Repr

/-- One access. `arm` marks a load that stands in an arm of the `?:` of `get_free_size`, with
the outcome of the comparison that chose the arm; `note` is for the history. -/
inductive Access where
  | load (c : Counter) (arm : Option Bool)
  /-- A store to `write_`: with the message when it is the first of its `append`. -/
  | storeWrite (v : Nat) (note : Option (List UInt8))
  /-- A store to `read_`: with the bytes copied when it is the last of its `pop`. -/
  | storeRead (v : Nat) (note : Option (List UInt8))
  | getByte (off : Nat)
  | putByte (off : Nat) (b : UInt8)
deriving DecidableEq, Repr

/-- What an access answers. -/
abbrev Access.Resp : Access → Type
  | .load _ _ => Nat
  | .storeWrite _ _ => Unit
  | .storeRead _ _ => Unit
  | .getByte _ => UInt8
  | .putByte _ _ => Unit

/-- What the two processes share, and its history. -/
structure Shared where
  read : Nat
  write : Nat
  ring : Nat → UInt8
  /-- The messages appended, in order. -/
  appended : List (List UInt8)
  /-- The message whose header is published and whose body is not. -/
  publishing : Option (List UInt8)
  /-- A `pop` has released the front message's header and not its body. -/
  releasing : Bool
  /-- The messages popped, in order. -/
  popped : List (List UInt8)

/-- The messages whose publication has begun. -/
def Shared.begun (s : Shared) : List (List UInt8) := s.appended ++ s.publishing.toList

/-- The meaning of one access. -/
def perform : (a : Access) → Shared → Shared × a.Resp
  | .load .read _, s => (s, s.read)
  | .load .write _, s => (s, s.write)
  | .storeWrite v (some x), s => ({ s with write := v, publishing := some x }, ())
  | .storeWrite v none, s =>
    ({ s with write := v, publishing := none, appended := s.appended ++ s.publishing.toList }, ())
  | .storeRead v none, s => ({ s with read := v, releasing := true }, ())
  | .storeRead v (some x), s =>
    ({ s with read := v, releasing := false, popped := s.popped ++ [x] }, ())
  | .getByte off, s => (s, s.ring off)
  | .putByte off b, s => ({ s with ring := Function.update s.ring off b }, ())

/-- A program of accesses. -/
abbrev Program := Prog Access.Resp

def load (c : Counter) (arm : Option Bool) : Program Nat := Prog.step (Access.load c arm)

def storeWrite (v : Nat) (note : Option (List UInt8)) : Program Unit :=
  Prog.step (Access.storeWrite v note)

def storeRead (v : Nat) (note : Option (List UInt8)) : Program Unit :=
  Prog.step (Access.storeRead v note)

def getByte (off : Nat) : Program UInt8 := Prog.step (Access.getByte off)

def putByte (off : Nat) (b : UInt8) : Program Unit := Prog.step (Access.putByte off b)

/-- `get_free_size`: both indices are loaded for the comparison, and both again in the arm. -/
def getFreeSize (queueSize : Nat) : Program Nat := do
  let read ← load .read none
  let write ← load .write none
  if read > write then
    let read ← load .read (some true)
    let write ← load .write (some true)
    pure (SizeT.sub (SizeT.sub read write) messageQueueReverseLength)
  else
    let write ← load .write (some false)
    let read ← load .read (some false)
    pure (SizeT.sub (SizeT.add (SizeT.sub queueSize write) read) messageQueueReverseLength)

/-- The header loop of `append`, from byte `i` on; it answers the local `write`. -/
def putHead (queueSize : Nat) (src : Nat → UInt8) : Nat → Nat → Nat → Program Nat
  | 0, _, write => pure write
  | left + 1, i, write => do
    putByte write (src i)
    putHead queueSize src left (i + 1) (SizeT.add write 1 % queueSize)

/-- `memcpy` into the ring: `left` bytes to `off`, the source read from byte `i` on. -/
def copyIn (src : Nat → UInt8) : Nat → Nat → Nat → Program Unit
  | 0, _, _ => pure ()
  | left + 1, off, i => do
    putByte off (src i)
    copyIn src left (off + 1) (i + 1)

/-- `memcpy` out of the ring. -/
def copyOut : Nat → Nat → Program (List UInt8)
  | 0, _ => pure []
  | left + 1, off => do
    let b ← getByte off
    let bs ← copyOut left (off + 1)
    pure (b :: bs)

/-- The end of `append`: the body, in one piece or two, and `write_` behind it. -/
def putBody (queueSize : Nat) (msg : List UInt8) (write : Nat) : Program Unit := do
  if SizeT.add write msg.length > queueSize then
    let published ← load .write none
    let first := SizeT.sub queueSize published
    let second := SizeT.sub msg.length first
    copyIn (ofList msg) first write 0
    copyIn (ofList msg) second 0 first
    storeWrite second none
  else
    copyIn (ofList msg) msg.length write 0
    let published ← load .write none
    storeWrite (SizeT.add published msg.length) none

/-- `append`. -/
def append (queueSize : Nat) (msg : List UInt8) : Program Bool := do
  let freeSize ← getFreeSize queueSize
  if freeSize < SizeT.add msg.length queueMessageHeadLength then
    pure false
  else
    let write ← load .write none
    let write ← putHead queueSize (byteOf msg.length) queueMessageHeadLength 0 write
    let before ← load .write none
    storeWrite (SizeT.add before queueMessageHeadLength % queueSize) (some msg)
    putBody queueSize msg write
    pure true

/-- The loop of `get_msg_length`: the header's bytes from `read` on. -/
def getHead (queueSize : Nat) : Nat → Nat → Program (List UInt8)
  | 0, _ => pure []
  | left + 1, read => do
    let b ← getByte read
    let bs ← getHead queueSize left (SizeT.add read 1 % queueSize)
    pure (b :: bs)

/-- `get_msg_length`. -/
def getMsgLength (queueSize : Nat) : Program Nat := do
  let read ← load .read none
  let bytes ← getHead queueSize queueMessageHeadLength read
  pure (ofBytes (ofList bytes) queueMessageHeadLength)

/-- The end of `pop`: the body, in one piece or two, and `read_` behind it. -/
def takeBody (queueSize bodySize read : Nat) : Program (List UInt8) := do
  if SizeT.add read bodySize > queueSize then
    let first := SizeT.sub queueSize read
    let second := SizeT.sub bodySize first
    let front ← copyOut first read
    let back ← copyOut second 0
    storeRead second (some (front ++ back))
    pure (front ++ back)
  else
    let body ← copyOut bodySize read
    let released ← load .read none
    storeRead (SizeT.add released bodySize) (some body)
    pure body

/-- `pop`, into a buffer of `msgLength` bytes. -/
def pop (queueSize : Nat) (msgLength : Nat) : Program (Option (List UInt8)) := do
  let freeSize ← getFreeSize queueSize
  let usedSize := SizeT.sub (SizeT.sub queueSize messageQueueReverseLength) freeSize
  let bodySize ← getMsgLength queueSize
  if minMessageChunkSize > usedSize ∨ SizeT.add queueMessageHeadLength bodySize > usedSize then
    pure none
  else if bodySize > msgLength then
    pure none
  else
    let read ← load .read none
    let before ← load .read none
    storeRead (SizeT.add before queueMessageHeadLength % queueSize) none
    let body ← takeBody queueSize bodySize (skipHead queueSize queueMessageHeadLength read)
    pure (some body)

/-- The producer: `append`, once for each message, whatever it answers. -/
def producer (queueSize : Nat) : List (List UInt8) → Program Unit
  | [] => pure ()
  | x :: xs => do
    let _ ← append queueSize x
    producer queueSize xs

/-- The consumer: `pop`, once for each buffer. -/
def consumer (queueSize : Nat) : List Nat → Program Unit
  | [] => pure ()
  | cap :: caps => do
    let _ ← pop queueSize cap
    consumer queueSize caps

/-- A queue of size `n` after `init`, over any ring bytes. -/
def fresh (ring : Nat → UInt8) : Shared :=
  { read := 0, write := 0, ring := ring, appended := [], publishing := none, releasing := false,
    popped := [] }

/-- One producer and one consumer on a fresh queue of size `n`. -/
def start (n : Nat) (ring : Nat → UInt8) (msgs : List (List UInt8)) (caps : List Nat) :
    Pair Access.Resp Shared :=
  { shared := fresh ring
    left := producer (n + messageQueueReverseLength) msgs
    right := consumer (n + messageQueueReverseLength) caps }

end MmDriver.MsgQueueSteps

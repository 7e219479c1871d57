import MmDriver.Common.Types
import MmDriver.Lib.RingCopy

/-!
# `Msg_Queue`, the message queue in shared memory

`include/common/msg_queue.h` and `src/common/msg_queue.cpp`. A queue is a header of four
`size_t` followed by its ring, both in one memory that other objects share; the queue object
itself holds only the two pointers.

A message is its length as eight bytes, written one by one with the index reduced modulo
`queue_size_` after each, and then its body, copied in one piece or two. The index a call ends
on is not reduced when the body ends exactly at the end of the ring.

Every call also answers with the spans of the ring it dereferenced, as offsets from
`msg_base_`: the one definition says both what a call computes and what it touches.
-/

namespace MmDriver

open ByteMem

/-- The bytes `[start, start + len)` of a ring, relative to `msg_base_`. -/
structure Span where
  start : Nat
  len : Nat
deriving DecidableEq, Repr

/-- `Enm_Sharemem_Mode`. -/
inductive ShareMemMode where
  | init
  | resume
deriving DecidableEq, Repr

/-- `Msg_Queue`: the members `head_` and `msg_base_`. -/
structure MsgQueue where
  head : Nat
  msgBase : Nat
deriving DecidableEq, Repr

namespace MsgQueue

/-- `queue_message_head_length`: the length of a message is a `size_t`. -/
def queueMessageHeadLength : Nat := 8

/-- `min_message_chunk_size`. -/
def minMessageChunkSize : Nat := queueMessageHeadLength + 1

/-- `message_queue_reverse_length`, kept free so that the two indices never meet when full. -/
def messageQueueReverseLength : Nat := 2 * queueMessageHeadLength

/-- `sizeof(_msg_queue_head_)`. -/
def sizeofHead : Nat := 32

/-! ## The header -/

/-- `head_->mem_size_`. -/
def memSize (q : MsgQueue) (m : Memory) : Nat := loadWord m q.head

/-- `head_->queue_size_`. -/
def queueSize (q : MsgQueue) (m : Memory) : Nat := loadWord m (q.head + 8)

/-- `head_->read_`. -/
def read (q : MsgQueue) (m : Memory) : Nat := loadWord m (q.head + 16)

/-- `head_->write_`. -/
def write (q : MsgQueue) (m : Memory) : Nat := loadWord m (q.head + 24)

def setMemSize (q : MsgQueue) (m : Memory) (v : Nat) : Memory := storeWord m q.head v

def setQueueSize (q : MsgQueue) (m : Memory) (v : Nat) : Memory := storeWord m (q.head + 8) v

def setRead (q : MsgQueue) (m : Memory) (v : Nat) : Memory := storeWord m (q.head + 16) v

def setWrite (q : MsgQueue) (m : Memory) (v : Nat) : Memory := storeWord m (q.head + 24) v

/-- The ring, by offset from `msg_base_`. -/
def ring (q : MsgQueue) (m : Memory) : Nat → UInt8 := fun off => m (q.msgBase + off)

/-! ## Sizes -/

/-- `alloc_size`. -/
def allocSize (queueSize : Nat) : Nat :=
  SizeT.add (SizeT.add sizeofHead queueSize) messageQueueReverseLength

/-- `size`. -/
def size (q : MsgQueue) (m : Memory) : Nat :=
  SizeT.sub (q.queueSize m) messageQueueReverseLength

/-- `get_free_size`. -/
def getFreeSize (q : MsgQueue) (m : Memory) : Nat :=
  if q.read m > q.write m then
    SizeT.sub (SizeT.sub (q.read m) (q.write m)) messageQueueReverseLength
  else
    SizeT.sub (SizeT.add (SizeT.sub (q.queueSize m) (q.write m)) (q.read m))
      messageQueueReverseLength

/-- `get_used_size`. -/
def getUsedSize (q : MsgQueue) (m : Memory) : Nat := SizeT.sub (q.size m) (q.getFreeSize m)

/-- The ring offsets the loop of `get_msg_length` dereferences, from `read` on. -/
def headOffsets (queueSize : Nat) : Nat → Nat → List Nat
  | 0, _ => []
  | left + 1, read => read :: headOffsets queueSize left (SizeT.add read 1 % queueSize)

/-- `get_msg_length`: the eight bytes at `read_`, copied over a local `size_t`. -/
def getMsgLength (q : MsgQueue) (m : Memory) : Nat :=
  let bytes := (headOffsets (q.queueSize m) queueMessageHeadLength (q.read m)).map (q.ring m)
  ofBytes (ofList bytes) queueMessageHeadLength

/-- The spans `get_msg_length` dereferences. -/
def headSpans (q : MsgQueue) (m : Memory) : List Span :=
  (headOffsets (q.queueSize m) queueMessageHeadLength (q.read m)).map fun off => ⟨off, 1⟩

/-- `clear`. -/
def clear (q : MsgQueue) (m : Memory) : Memory := q.setWrite (q.setRead m 0) 0

/-! ## `init` -/

/-- What `init` leaves: its result, the object and the memory. -/
structure InitResult where
  ret : Bool
  queue : MsgQueue
  mem : Memory

/-- `Msg_Queue::init`. The members are set only past both checks; a failed call leaves the
object as it was, but in mode `ESM_INIT` the two sizes are already written. -/
def init (q : MsgQueue) (m : Memory) (pmem memSize queueSize : Nat) (memMode : ShareMemMode) :
    InitResult :=
  let realMemSize := allocSize queueSize
  let realQueueSize := SizeT.add queueSize messageQueueReverseLength
  let head : MsgQueue := ⟨pmem, pmem + sizeofHead⟩
  if memMode = .resume ∧ (head.memSize m ≠ realMemSize ∨ head.queueSize m ≠ realQueueSize) then
    ⟨false, q, m⟩
  else
    let m₁ := if memMode = .resume then m
      else head.setQueueSize (head.setMemSize m realMemSize) realQueueSize
    if head.memSize m₁ ≠ memSize then
      ⟨false, q, m₁⟩
    else
      ⟨true, head, if memMode = .init then head.clear m₁ else m₁⟩

/-! ## `append` -/

/-- Where the header loop of `append` ends: the memory, the local `write` and the spans. -/
structure HeadResult where
  mem : Memory
  write : Nat
  spans : List Span

/-- The header loop of `append`: byte `i` of `psrc` goes to offset `write`, which then steps
modulo `queue_size_`. -/
def putHead (q : MsgQueue) (psrc : Nat → UInt8) : Nat → Nat → Nat → Memory → HeadResult
  | 0, _, write, m => ⟨m, write, []⟩
  | left + 1, i, write, m =>
    let m₁ := storeByte m (q.msgBase + write) (psrc i)
    let r := putHead q psrc left (i + 1) (SizeT.add write 1 % q.queueSize m₁) m₁
    ⟨r.mem, r.write, ⟨write, 1⟩ :: r.spans⟩

/-- What `append` leaves. -/
structure AppendResult where
  ret : Bool
  mem : Memory
  spans : List Span

/-- `append` past its check: the header, `write_` behind it, the body, `write_` behind that. -/
def putMessage (q : MsgQueue) (m : Memory) (pmsg : Nat → UInt8) (msgLength : Nat) :
    AppendResult :=
  let head := q.putHead (byteOf msgLength) queueMessageHeadLength 0 (q.write m) m
  let m₁ := q.setWrite head.mem
    (SizeT.add (q.write head.mem) queueMessageHeadLength % q.queueSize head.mem)
  if SizeT.add head.write msgLength > q.queueSize m₁ then
    let first := SizeT.sub (q.queueSize m₁) (q.write m₁)
    let second := SizeT.sub msgLength first
    let m₂ := copy m₁ (q.msgBase + head.write) pmsg first
    let m₃ := copy m₂ q.msgBase (fun i => pmsg (first + i)) second
    ⟨true, q.setWrite m₃ second, head.spans ++ [⟨head.write, first⟩, ⟨0, second⟩]⟩
  else
    let m₂ := copy m₁ (q.msgBase + head.write) pmsg msgLength
    ⟨true, q.setWrite m₂ (SizeT.add (q.write m₂) msgLength),
      head.spans ++ [⟨head.write, msgLength⟩]⟩

/-- `Msg_Queue::append`. `pmsg` is the bytes behind the caller's pointer. -/
def append (q : MsgQueue) (m : Memory) (pmsg : Nat → UInt8) (msgLength : Nat) : AppendResult :=
  if q.getFreeSize m < SizeT.add msgLength queueMessageHeadLength then
    ⟨false, m, []⟩
  else
    q.putMessage m pmsg msgLength

/-! ## `pop` -/

/-- The local loop of `pop` that moves `read` past the header. -/
def skipHead (queueSize : Nat) : Nat → Nat → Nat
  | 0, read => read
  | left + 1, read => skipHead queueSize left (SizeT.add read 1 % queueSize)

/-- What `pop` leaves: its result, the memory, the caller's buffer and the caller's
`msg_length`. -/
structure PopResult where
  ret : Bool
  mem : Memory
  buf : Memory
  msgLength : Nat
  spans : List Span

/-- `pop` past its checks: `read_` behind the header, the body, `read_` behind that. -/
def takeMessage (q : MsgQueue) (m buf : Memory) (bodySize : Nat) : PopResult :=
  let read := skipHead (q.queueSize m) queueMessageHeadLength (q.read m)
  let m₁ := q.setRead m (SizeT.add (q.read m) queueMessageHeadLength % q.queueSize m)
  if SizeT.add read bodySize > q.queueSize m₁ then
    let first := SizeT.sub (q.queueSize m₁) read
    let second := SizeT.sub bodySize first
    let buf₁ := copy buf 0 (fun i => m₁ (q.msgBase + read + i)) first
    let buf₂ := copy buf₁ first (fun i => m₁ (q.msgBase + i)) second
    ⟨true, q.setRead m₁ second, buf₂, bodySize,
      q.headSpans m ++ [⟨read, first⟩, ⟨0, second⟩]⟩
  else
    let buf₁ := copy buf 0 (fun i => m₁ (q.msgBase + read + i)) bodySize
    ⟨true, q.setRead m₁ (SizeT.add (q.read m₁) bodySize), buf₁, bodySize,
      q.headSpans m ++ [⟨read, bodySize⟩]⟩

/-- `Msg_Queue::pop`. `buf` is the caller's buffer and `msgLength` its capacity; the length is
read before either check, so an empty queue's ring is read too. -/
def pop (q : MsgQueue) (m buf : Memory) (msgLength : Nat) : PopResult :=
  if minMessageChunkSize > q.getUsedSize m ∨
      SizeT.add queueMessageHeadLength (q.getMsgLength m) > q.getUsedSize m then
    ⟨false, m, buf, msgLength, q.headSpans m⟩
  else if q.getMsgLength m > msgLength then
    ⟨false, m, buf, msgLength, q.headSpans m⟩
  else
    q.takeMessage m buf (q.getMsgLength m)

end MsgQueue

end MmDriver

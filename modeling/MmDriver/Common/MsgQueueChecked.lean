import MmDriver.Common.MsgQueue

/-!
# `Msg_Queue` with checked arithmetic

`append` and `pop` once more, with each sum and each difference of the source taken only where it
does not wrap: `none` is a call in which one does.
-/

namespace MmDriver

open ByteMem

/-- `a + b` at `size_t`, where that is the sum. -/
def SizeT.addChecked (a b : Nat) : Option Nat := if a + b < 2 ^ 64 then some (a + b) else none

/-- `a - b` at `size_t`, where that is the difference. -/
def SizeT.subChecked (a b : Nat) : Option Nat := if b ≤ a then some (a - b) else none

namespace MsgQueue

/-- `size`. -/
def sizeChecked (q : MsgQueue) (m : Memory) : Option Nat :=
  SizeT.subChecked (q.queueSize m) messageQueueReverseLength

/-- `get_free_size`. -/
def getFreeSizeChecked (q : MsgQueue) (m : Memory) : Option Nat := do
  if q.read m > q.write m then
    let used ← SizeT.subChecked (q.read m) (q.write m)
    SizeT.subChecked used messageQueueReverseLength
  else
    let behind ← SizeT.subChecked (q.queueSize m) (q.write m)
    let both ← SizeT.addChecked behind (q.read m)
    SizeT.subChecked both messageQueueReverseLength

/-- `get_used_size`. -/
def getUsedSizeChecked (q : MsgQueue) (m : Memory) : Option Nat := do
  let size ← q.sizeChecked m
  let free ← q.getFreeSizeChecked m
  SizeT.subChecked size free

/-- The loop of `get_msg_length`. -/
def headOffsetsChecked (queueSize : Nat) : Nat → Nat → Option (List Nat)
  | 0, _ => some []
  | left + 1, read => do
    let step ← SizeT.addChecked read 1
    let offsets ← headOffsetsChecked queueSize left (step % queueSize)
    return read :: offsets

/-- `get_msg_length`. -/
def getMsgLengthChecked (q : MsgQueue) (m : Memory) : Option Nat := do
  let offsets ← headOffsetsChecked (q.queueSize m) queueMessageHeadLength (q.read m)
  return ofBytes (ofList (offsets.map (q.ring m))) queueMessageHeadLength

/-- The header loop of `append`. -/
def putHeadChecked (q : MsgQueue) (psrc : Nat → UInt8) :
    Nat → Nat → Nat → Memory → Option HeadResult
  | 0, _, write, m => some ⟨m, write, []⟩
  | left + 1, i, write, m => do
    let m₁ := storeByte m (q.msgBase + write) (psrc i)
    let step ← SizeT.addChecked write 1
    let r ← putHeadChecked q psrc left (i + 1) (step % q.queueSize m₁) m₁
    return ⟨r.mem, r.write, ⟨write, 1⟩ :: r.spans⟩

/-- `append` past its check. -/
def putMessageChecked (q : MsgQueue) (m : Memory) (pmsg : Nat → UInt8) (msgLength : Nat) :
    Option AppendResult := do
  let head ← q.putHeadChecked (byteOf msgLength) queueMessageHeadLength 0 (q.write m) m
  let behind ← SizeT.addChecked (q.write head.mem) queueMessageHeadLength
  let m₁ := q.setWrite head.mem (behind % q.queueSize head.mem)
  let stop ← SizeT.addChecked head.write msgLength
  if stop > q.queueSize m₁ then
    let first ← SizeT.subChecked (q.queueSize m₁) (q.write m₁)
    let second ← SizeT.subChecked msgLength first
    let m₂ := copy m₁ (q.msgBase + head.write) pmsg first
    let m₃ := copy m₂ q.msgBase (fun i => pmsg (first + i)) second
    return ⟨true, q.setWrite m₃ second, head.spans ++ [⟨head.write, first⟩, ⟨0, second⟩]⟩
  else
    let m₂ := copy m₁ (q.msgBase + head.write) pmsg msgLength
    let write ← SizeT.addChecked (q.write m₂) msgLength
    return ⟨true, q.setWrite m₂ write, head.spans ++ [⟨head.write, msgLength⟩]⟩

/-- `append`. -/
def appendChecked (q : MsgQueue) (m : Memory) (pmsg : Nat → UInt8) (msgLength : Nat) :
    Option AppendResult := do
  let free ← q.getFreeSizeChecked m
  let cost ← SizeT.addChecked msgLength queueMessageHeadLength
  if free < cost then return ⟨false, m, []⟩ else q.putMessageChecked m pmsg msgLength

/-- The local loop of `pop`. -/
def skipHeadChecked (queueSize : Nat) : Nat → Nat → Option Nat
  | 0, read => some read
  | left + 1, read => do
    let step ← SizeT.addChecked read 1
    skipHeadChecked queueSize left (step % queueSize)

/-- `pop` past its checks. -/
def takeMessageChecked (q : MsgQueue) (m buf : Memory) (bodySize : Nat) : Option PopResult := do
  let read ← skipHeadChecked (q.queueSize m) queueMessageHeadLength (q.read m)
  let behind ← SizeT.addChecked (q.read m) queueMessageHeadLength
  let m₁ := q.setRead m (behind % q.queueSize m)
  let stop ← SizeT.addChecked read bodySize
  if stop > q.queueSize m₁ then
    let first ← SizeT.subChecked (q.queueSize m₁) read
    let second ← SizeT.subChecked bodySize first
    let buf₁ := copy buf 0 (fun i => m₁ (q.msgBase + read + i)) first
    let buf₂ := copy buf₁ first (fun i => m₁ (q.msgBase + i)) second
    return ⟨true, q.setRead m₁ second, buf₂, bodySize,
      q.headSpans m ++ [⟨read, first⟩, ⟨0, second⟩]⟩
  else
    let buf₁ := copy buf 0 (fun i => m₁ (q.msgBase + read + i)) bodySize
    let next ← SizeT.addChecked (q.read m₁) bodySize
    return ⟨true, q.setRead m₁ next, buf₁, bodySize, q.headSpans m ++ [⟨read, bodySize⟩]⟩

/-- `pop`. The second sum of its first check is taken only where the first part is false. -/
def popChecked (q : MsgQueue) (m buf : Memory) (msgLength : Nat) : Option PopResult := do
  let used ← q.getUsedSizeChecked m
  let bodySize ← q.getMsgLengthChecked m
  if minMessageChunkSize > used then return ⟨false, m, buf, msgLength, q.headSpans m⟩
  else
    let cost ← SizeT.addChecked queueMessageHeadLength bodySize
    if cost > used then return ⟨false, m, buf, msgLength, q.headSpans m⟩
    else if bodySize > msgLength then return ⟨false, m, buf, msgLength, q.headSpans m⟩
    else q.takeMessageChecked m buf bodySize

end MsgQueue

end MmDriver

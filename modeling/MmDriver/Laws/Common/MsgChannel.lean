import MmDriver.Common.MsgChannel
import MmDriver.Laws.Common.MsgQueueFrame

/-!
# A channel holds two queues, side by side

`Attached c n m pending` is the invariant of an initialised channel: its two queues stand where
`InitMessageQueue` puts them, and the memory holds the pending messages of each side.
`InitMessageQueue` establishes it, and every call on either side keeps it while it acts on two
FIFOs (`simulates`).

The invariant speaks of the input queue's `mem_size_` and not of the output queue's: the first
byte of the latter is the byte behind the input ring.
-/

namespace MmDriver

open ByteMem MsgFifo CallMachine

/-! ## `Share_Memory` -/

namespace ShareMemory

variable {s : ShareMemory} {api : SharememoryApi} {uiKey uiSize : Nat}

/-- The handle `attach_share_memory` ends with: the segment's, or a new one's. -/
def handleFor (api : SharememoryApi) (uiKey uiRealSize : Nat) : Int :=
  if api.openShareMem uiKey uiRealSize = invalidSmHandle then api.createShareMem uiKey uiRealSize
  else api.openShareMem uiKey uiRealSize

/-- The mode `attach_share_memory` ends with. -/
def modeFor (s : ShareMemory) (api : SharememoryApi) (uiKey uiRealSize : Nat) : ShareMemMode :=
  if uiKey ≠ s.uiKey ∨ uiRealSize ≠ s.uiSize then .init
  else if api.openShareMem uiKey uiRealSize = invalidSmHandle then .init else .resume

/-- `attach_share_memory`, with the handle and the mode named. -/
theorem attachShareMemory_eq (s : ShareMemory) (api : SharememoryApi) (uiKey uiSize : Nat) :
    s.attachShareMemory api uiKey uiSize =
      let real := SizeT.add uiSize sizeofShareMemory
      let base := api.mapShareMem (handleFor api uiKey real)
      if uiSize = 0 then ⟨false, s⟩
      else if handleFor api uiKey real = invalidSmHandle then ⟨false, s⟩
      else if base = 0 then ⟨false, { s with memBase := base }⟩
      else ⟨true, { uiKey := uiKey, uiSize := real, uiOffset := sizeofShareMemory,
                    shareMemHandle := handleFor api uiKey real, memBase := base,
                    mode := s.modeFor api uiKey real }⟩ := rfl

/-- The object a successful attach leaves. -/
theorem attach_true (h : (s.attachShareMemory api uiKey uiSize).ret = true) :
    let real := SizeT.add uiSize sizeofShareMemory
    api.mapShareMem (handleFor api uiKey real) ≠ 0 ∧
      (s.attachShareMemory api uiKey uiSize).shareMemory =
        { uiKey := uiKey, uiSize := real, uiOffset := sizeofShareMemory,
          shareMemHandle := handleFor api uiKey real,
          memBase := api.mapShareMem (handleFor api uiKey real),
          mode := s.modeFor api uiKey real } := by
  rw [attachShareMemory_eq] at h ⊢
  dsimp only at h ⊢
  split at h
  · cases h
  · next hsize =>
    split at h
    · cases h
    · next hhandle =>
      split at h
      · cases h
      · next hbase =>
        rw [if_neg hsize, if_neg hhandle, if_neg hbase]
        exact ⟨hbase, rfl⟩

/-- A segment that fits is the next one of the mapping. -/
theorem createSegment_eq (uiSize : Nat) (hbase : s.memBase ≠ 0) (hpos : uiSize ≠ 0)
    (hfit : s.uiOffset + uiSize ≤ s.uiSize) (hsize : s.uiSize < 2 ^ 64) :
    s.createSegment uiSize =
      ⟨s.memBase + s.uiOffset, { s with uiOffset := s.uiOffset + uiSize }⟩ := by
  have hfree : ¬uiSize > s.getFreeSize := by
    unfold getFreeSize
    rw [SizeT.sub_eq (by omega) hsize]
    omega
  unfold createSegment
  rw [if_neg hbase, if_neg hpos, if_neg hfree, SizeT.add_eq (by omega)]

end ShareMemory

/-! ## The calls of a channel -/

/-- The two queues of a channel. -/
inductive Side where
  | input
  | output
deriving DecidableEq, Repr

namespace MessageChannel

open MsgQueue (Holds Outcome)

variable {c : MessageChannel} {n : Side → Nat} {m : Memory} {pending : Side → List Message}

/-- The queue on a side. -/
def queue (c : MessageChannel) : Side → MsgQueue
  | .input => c.msgInput
  | .output => c.msgOutput

/-- A call of one of the four methods: sending appends to a side's queue, receiving pops. -/
abbrev Call := Side × MsgQueue.Call

/-- One call on the channel. -/
def step (c : MessageChannel) (m : Memory) : Call → Memory × Outcome
  | (.input, .append pMsgBuff usMsgSize) => (c.sendMessageInput m pMsgBuff usMsgSize).answer
  | (.output, .append pMsgBuff usMsgSize) => (c.sendMessageOutput m pMsgBuff usMsgSize).answer
  | (.input, .pop pMsgBuff usMsgSize) => (c.recvMessasgeInput m pMsgBuff usMsgSize).answer
  | (.output, .pop pMsgBuff usMsgSize) => (c.recvMessageOutput m pMsgBuff usMsgSize).answer

/-- The length of a call is a `tuint16`. -/
def Fits : Call → Prop
  | (_, .append _ usMsgSize) => usMsgSize < 2 ^ 16
  | (_, .pop _ usMsgSize) => usMsgSize < 2 ^ 16

theorem Fits.short {k : Call} (h : Fits k) : k.2.Short := by
  obtain ⟨s, call⟩ := k
  cases call with
  | append pmsg len => exact Nat.le_of_lt_succ h
  | pop buf cap => trivial

/-- A record whose length fits passes through the `tuint16` unchanged. -/
theorem narrow_eq {r : MsgQueue.PopResult} {cap : Nat} (hlen : r.msgLength < 2 ^ 16)
    (hret : r.ret = false → r.msgLength = cap) :
    { r with msgLength := if r.ret then TUint16.ofNat r.msgLength else cap } = r := by
  cases r with
  | mk ret mem buf msgLength spans =>
    cases ret with
    | true => exact congrArg (MsgQueue.PopResult.mk true mem buf · spans) (Nat.mod_eq_of_lt hlen)
    | false => exact congrArg (MsgQueue.PopResult.mk false mem buf · spans) (hret rfl).symm

/-- Receiving is popping: the length fits in the `tuint16` it came from. -/
theorem recvMessage_eq (q : MsgQueue) (m buf : Memory) {cap : Nat} (hcap : cap < 2 ^ 16) :
    recvMessage q m buf cap = q.pop m buf cap := by
  have hle := q.pop_msgLength_le m buf cap
  have hret : (q.pop m buf cap).ret = false → (q.pop m buf cap).msgLength = cap :=
    fun h => (MsgQueue.pop_false h).2.2
  unfold recvMessage
  generalize q.pop m buf cap = r at hle hret ⊢
  exact narrow_eq (by omega) hret

/-- A call of the channel is a call of the side's queue. -/
theorem step_eq (c : MessageChannel) (m : Memory) {k : Call} (hk : Fits k) :
    c.step m k = (c.queue k.1).step m k.2 := by
  obtain ⟨s, call⟩ := k
  cases call with
  | append pmsg len => cases s <;> rfl
  | pop buf cap =>
    cases s with
    | input => rw [step, recvMessasgeInput, recvMessage_eq _ _ _ hk]; rfl
    | output => rw [step, recvMessageOutput, recvMessage_eq _ _ _ hk]; rfl

/-! ## The invariant -/

/-- An initialised channel of the sizes `n`, holding `pending`. -/
structure Attached (c : MessageChannel) (n : Side → Nat) (m : Memory)
    (pending : Side → List Message) : Prop where
  /-- The input queue starts behind the reserved bytes of the mapping. -/
  base : c.msgInput.head = c.shareMemory.memBase + ShareMemory.sizeofShareMemory
  /-- The output queue's header starts where the input ring ends. -/
  layout : c.msgOutput.head = c.msgInput.msgBase + (n .input + 16)
  /-- The output ring ends where the mapping does. -/
  limit : c.msgOutput.msgBase + (n .output + 16) = c.shareMemory.memBase + c.shareMemory.uiSize
  holds : ∀ s, Holds (c.queue s) (n s) m (pending s)
  inputMemSize : c.msgInput.memSize m = MsgQueue.allocSize (n .input)

/-- A call on one side keeps what the other side's queue holds. -/
theorem Attached.other (h : Attached c n m pending) {k : Call} (hk : Fits k) {s : Side}
    (hs : s ≠ k.1) : Holds (c.queue s) (n s) (c.step m k).1 (pending s) := by
  have hlayout := h.layout
  have hin : c.msgInput.msgBase = c.msgInput.head + 32 := (h.holds .input).placed
  have hout : c.msgOutput.msgBase = c.msgOutput.head + 32 := (h.holds .output).placed
  rw [step_eq c m hk]
  refine (h.holds s).congr fun a hlo hhi => (h.holds k.1).step_outside hk.short ?_
  obtain ⟨side, call⟩ := k
  cases s with
  | input =>
    cases side with
    | input => exact absurd rfl hs
    | output =>
      simp only [queue] at hlo hhi ⊢
      omega
  | output =>
    cases side with
    | input =>
      simp only [queue] at hlo hhi ⊢
      omega
    | output => exact absurd rfl hs

/-- The input queue's `mem_size_` is never written again. -/
theorem Attached.step_inputMemSize (h : Attached c n m pending) {k : Call} (hk : Fits k) :
    c.msgInput.memSize (c.step m k).1 = MsgQueue.allocSize (n .input) := by
  have hlayout := h.layout
  have hin : c.msgInput.msgBase = c.msgInput.head + 32 := (h.holds .input).placed
  rw [← h.inputMemSize, step_eq c m hk]
  refine loadWord_congr fun a hlo hhi => (h.holds k.1).step_outside hk.short ?_
  obtain ⟨side, call⟩ := k
  cases side with
  | input => simp only [queue]; omega
  | output => simp only [queue]; omega

/-- The calls of a channel as calls on two FIFOs. -/
def abs (k : Call) : Side × MsgFifo.Call := (k.1, k.2.abs)

/-- **The simulation**: a channel is two FIFOs, and keeps its invariant. -/
theorem simulates (c : MessageChannel) (n : Side → Nat) :
    Simulates c.step (MsgFifo.stepAt n) abs Fits (Attached c n) (fun o r => o.reply = r) := by
  intro m pending k hk h
  obtain ⟨hholds, hreply⟩ :=
    MsgQueue.simulates (c.queue k.1) (n k.1) m (pending k.1) k.2 hk.short.sized (h.holds k.1)
  refine ⟨⟨h.base, h.layout, h.limit, fun s => ?_, h.step_inputMemSize hk⟩, ?_⟩
  · by_cases hs : s = k.1
    · subst hs
      rw [step_eq c m hk, MsgFifo.stepAt, abs]
      dsimp only
      rw [Function.update_self]
      exact hholds
    · rw [MsgFifo.stepAt, abs]
      dsimp only
      rw [Function.update_of_ne hs]
      exact h.other hk hs
  · rw [step_eq c m hk]
    exact hreply

/-! ## `InitMessageQueue` -/

/-- What `InitMessageQueue` asks of the segment. -/
def segmentSize (n : Side → Nat) : Nat :=
  SizeT.add (MsgQueue.allocSize (n .input)) (MsgQueue.allocSize (n .output))

theorem segmentSize_def (n : Side → Nat) : SizeT.add (MsgQueue.allocSize (n .input))
    (MsgQueue.allocSize (n .output)) = segmentSize n := rfl

theorem segmentSize_eq (hn : ∀ s, n s < 2 ^ 31) :
    segmentSize n = (n .input + 48) + (n .output + 48) := by
  have hin := hn .input
  have hout := hn .output
  unfold segmentSize
  rw [MsgQueue.allocSize_eq (by omega), MsgQueue.allocSize_eq (by omega), SizeT.add_eq (by omega)]

/-- The channel of the sizes `n` in the mapping of `s`. -/
def placed (s : ShareMemory) (n : Side → Nat) : MessageChannel :=
  { shareMemory :=
      { s with uiOffset := ShareMemory.sizeofShareMemory + (n .input + 48) + (n .output + 48) }
    msgInput := ⟨s.memBase + 48, s.memBase + 48 + 32⟩
    msgOutput := ⟨s.memBase + 48 + (n .input + 48), s.memBase + 48 + (n .input + 48) + 32⟩ }

/-- `InitMessageQueue` with sizes that are not negative, once the segment is mapped: each
queue's `init` gets the part of the mapping that is its own. -/
theorem initMessageQueue_eq (c : MessageChannel) (api : SharememoryApi) (m : Memory) (key : Nat)
    (hn : ∀ s, n s < 2 ^ 31) {s : ShareMemory}
    (hmap : c.shareMemory.attachShareMemory api key (segmentSize n) = ⟨true, s⟩)
    (hbase : s.memBase ≠ 0) (hoffset : s.uiOffset = 48)
    (hsize : s.uiSize = 48 + (n .input + 48) + (n .output + 48)) :
    c.initMessageQueue api m key (n .input) (n .output) =
      let input := c.msgInput.init m (s.memBase + 48) (MsgQueue.allocSize (n .input)) (n .input)
        s.mode
      let output := c.msgOutput.init input.mem (s.memBase + 48 + (n .input + 48))
        (MsgQueue.allocSize (n .output)) (n .output) s.mode
      if input.ret = false then
        ⟨false, ⟨{ s with uiOffset := 48 + (n .input + 48) }, c.msgOutput, input.queue⟩, input.mem,
          [s.memBase + 48]⟩
      else
        ⟨output.ret, ⟨(placed s n).shareMemory, output.queue, input.queue⟩, output.mem,
          [s.memBase + 48, s.memBase + 48 + (n .input + 48)]⟩ := by
  have hin := hn .input
  have hout := hn .output
  have hsegIn := ShareMemory.createSegment_eq (s := s) (n .input + 48) hbase (by omega)
    (by omega) (by omega)
  have hsegOut := ShareMemory.createSegment_eq
    (s := { s with uiOffset := 48 + (n .input + 48) }) (n .output + 48) hbase (by omega)
    (by dsimp only; omega) (by dsimp only; omega)
  rw [hoffset] at hsegIn
  dsimp only at hsegOut
  rw [initMessageQueue, SizeT.ofInt_natCast (by omega), SizeT.ofInt_natCast (by omega)]
  dsimp only
  rw [segmentSize_def, hmap, MsgQueue.allocSize_eq (show n .input < 2 ^ 62 by omega),
    MsgQueue.allocSize_eq (show n .output < 2 ^ 62 by omega), hsegIn]
  dsimp only
  rw [hsegOut]
  simp only [placed, ShareMemory.sizeofShareMemory, Nat.add_assoc]

/-- The object an attach to `segmentSize n` bytes leaves: the segment is reserved bytes and the
two queues, nothing else. -/
theorem attach_segment {c : MessageChannel} {api : SharememoryApi} {key : Nat}
    (hn : ∀ s, n s < 2 ^ 31)
    (hmap : (c.shareMemory.attachShareMemory api key (segmentSize n)).ret = true) :
    ∃ s, c.shareMemory.attachShareMemory api key (segmentSize n) = ⟨true, s⟩ ∧ s.memBase ≠ 0 ∧
      s.uiOffset = 48 ∧ s.uiSize = 48 + (n .input + 48) + (n .output + 48) ∧ s.uiKey = key ∧
      s.memBase = api.mapShareMem (ShareMemory.handleFor api key s.uiSize) ∧
      s.mode = c.shareMemory.modeFor api key s.uiSize := by
  have hin := hn .input
  have hout := hn .output
  obtain ⟨hbase, heq⟩ := ShareMemory.attach_true hmap
  have hreal : SizeT.add (segmentSize n) ShareMemory.sizeofShareMemory =
      48 + (n .input + 48) + (n .output + 48) := by
    rw [segmentSize_eq hn, ShareMemory.sizeofShareMemory, SizeT.add_eq (by omega)]
    omega
  rw [hreal] at hbase heq
  generalize c.shareMemory.attachShareMemory api key (segmentSize n) = r at hmap heq ⊢
  obtain ⟨ret, s⟩ := r
  subst hmap heq
  exact ⟨_, rfl, hbase, rfl, rfl, rfl, rfl, rfl⟩

/-- A segment that is initialised holds two empty queues. -/
theorem initMessageQueue_init (c : MessageChannel) (api : SharememoryApi) (m : Memory) (key : Nat)
    (hn : ∀ s, n s < 2 ^ 31) {s : ShareMemory}
    (hmap : c.shareMemory.attachShareMemory api key (segmentSize n) = ⟨true, s⟩)
    (hbase : s.memBase ≠ 0) (hoffset : s.uiOffset = 48)
    (hsize : s.uiSize = 48 + (n .input + 48) + (n .output + 48)) (hmode : s.mode = .init) :
    let r := c.initMessageQueue api m key (n .input) (n .output)
    r.ret = true ∧ r.channel = placed s n ∧ Attached r.channel n r.mem (fun _ => []) ∧
      r.channel.msgOutput.memSize r.mem = MsgQueue.allocSize (n .output) ∧
      ∀ side, (r.channel.queue side).write r.mem = 0 := by
  have hin := hn .input
  have hout := hn .output
  rw [initMessageQueue_eq c api m key hn hmap hbase hoffset hsize, hmode]
  dsimp only
  obtain ⟨hret₁, hqueue₁, hmem₁, hholds₁, hwrite₁, -⟩ :=
    MsgQueue.init_init c.msgInput m (s.memBase + 48) (show n .input < 2 ^ 62 by omega)
  generalize c.msgInput.init m (s.memBase + 48) (MsgQueue.allocSize (n .input)) (n .input) .init
    = input at hret₁ hqueue₁ hmem₁ hholds₁ hwrite₁ ⊢
  obtain ⟨hret₂, hqueue₂, hmem₂, hholds₂, hwrite₂, hframe₂⟩ :=
    MsgQueue.init_init c.msgOutput input.mem (s.memBase + 48 + (n .input + 48))
      (show n .output < 2 ^ 62 by omega)
  generalize c.msgOutput.init input.mem (s.memBase + 48 + (n .input + 48))
    (MsgQueue.allocSize (n .output)) (n .output) .init
    = output at hret₂ hqueue₂ hmem₂ hholds₂ hwrite₂ hframe₂ ⊢
  -- the output queue's header lies behind the input queue's
  have hsame : ∀ a, input.queue.head ≤ a → a < input.queue.head + 32 →
      output.mem a = input.mem a := by
    intro a hlo hhi
    rw [hqueue₁] at hlo hhi
    exact hframe₂ a (by dsimp only at hlo hhi; omega)
  rw [if_neg (by rw [hret₁]; decide)]
  refine ⟨hret₂, by rw [hqueue₁, hqueue₂]; rfl, ⟨?_, ?_, ?_, fun side => ?_, ?_⟩, hmem₂,
    fun side => ?_⟩
  · rw [hqueue₁]
    rfl
  · rw [hqueue₁, hqueue₂]
    dsimp only
    omega
  · rw [hqueue₂]
    dsimp only [placed]
    omega
  · cases side with
    | input => exact hholds₁.congr_nil fun a hlo hhi => hsame a (by omega) hhi
    | output => exact hholds₂
  · have hword : input.queue.memSize output.mem = input.queue.memSize input.mem :=
      loadWord_congr fun a hlo hhi => hsame a hlo (by omega)
    exact hword.trans hmem₁
  · cases side with
    | input =>
      have hword : input.queue.write output.mem = input.queue.write input.mem :=
        loadWord_congr fun a hlo hhi => hsame a (by omega) (by omega)
      exact hword.trans hwrite₁
    | output => exact hwrite₂

/-- A fresh object always finds its own key and size different, so it initialises. -/
theorem new_attach_init (output input : MsgQueue) {api : SharememoryApi} {key : Nat}
    (hn : ∀ s, n s < 2 ^ 31)
    (hmap : (ShareMemory.new.attachShareMemory api key (segmentSize n)).ret = true) (m : Memory) :
    let r := (new output input).initMessageQueue api m key (n .input) (n .output)
    ∃ s, r.ret = true ∧ r.channel = placed s n ∧
      s.memBase = api.mapShareMem (ShareMemory.handleFor api key s.uiSize) ∧
      s.uiSize = 48 + (n .input + 48) + (n .output + 48) ∧ Attached r.channel n r.mem (fun _ => []) ∧
      ∀ side, (r.channel.queue side).write r.mem = 0 := by
  obtain ⟨s, heq, hbase, hoffset, hsize, -, hmapped, hmode⟩ :=
    attach_segment (c := new output input) hn hmap
  have hinit : s.mode = .init := by
    rw [hmode, ShareMemory.modeFor, if_pos (Or.inr _)]
    rw [hsize]
    exact Nat.ne_of_gt (by change 0 < _; omega)
  obtain ⟨hret, hplaced, hattached, -, hwrite⟩ :=
    initMessageQueue_init (new output input) api m key hn heq hbase hoffset hsize hinit
  exact ⟨s, hret, hplaced, hmapped, hsize, hattached, hwrite⟩

/-- A system where no segment exists yet, and where every segment is mapped at `4096`. -/
def firstAttach : SharememoryApi :=
  { openShareMem := fun _ _ => invalidSmHandle, createShareMem := fun _ _ => 1,
    mapShareMem := fun _ => 4096 }

end MessageChannel

end MmDriver

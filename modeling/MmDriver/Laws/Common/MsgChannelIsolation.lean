import MmDriver.Laws.Common.MsgChannel

/-!
# When the two queues of a segment leave each other alone

A call is isolated when it dereferences its own ring only, and changes neither the other
queue's bytes nor a byte outside the mapping. Over every run from `InitMessageQueue` on, all
calls are isolated exactly when none of them starts at an index equal to `queue_size_`
(`isolated_iff_reduced`).

`append` and `pop` leave such an index whenever a body ends exactly at the end of the ring:
the test for wrapping is `>`, and the index is then advanced without a reduction.
-/

namespace MmDriver.MessageChannel

open ByteMem RingIndex MsgFifo MsgRing CallMachine
open MsgQueue (Holds Outcome)

variable {c : MessageChannel} {n : Side → Nat} {m : Memory} {pending : Side → List Message}

/-- The spans of its ring a call dereferences. -/
def spans (c : MessageChannel) (m : Memory) : Call → List Span
  | (.input, .append pMsgBuff usMsgSize) => (c.sendMessageInput m pMsgBuff usMsgSize).touched
  | (.output, .append pMsgBuff usMsgSize) => (c.sendMessageOutput m pMsgBuff usMsgSize).touched
  | (.input, .pop pMsgBuff usMsgSize) => (c.recvMessasgeInput m pMsgBuff usMsgSize).touched
  | (.output, .pop pMsgBuff usMsgSize) => (c.recvMessageOutput m pMsgBuff usMsgSize).touched

/-- The side a call is not on. -/
def Side.other : Side → Side
  | .input => .output
  | .output => .input

/-- One call stays on its side of the segment. -/
structure Isolated (c : MessageChannel) (m : Memory) (k : Call) : Prop where
  /-- It reads and writes offsets in `[0, queue_size_)` of its own ring. -/
  within : ∀ s ∈ c.spans m k, s.start + s.len ≤ (c.queue k.1).queueSize m
  /-- It changes no byte of the other queue's header or ring. -/
  other : ∀ a, (c.queue (Side.other k.1)).head ≤ a →
    a < (c.queue (Side.other k.1)).msgBase + (c.queue (Side.other k.1)).queueSize m →
    (c.step m k).1 a = m a
  /-- It changes no byte outside the mapping. -/
  mapped : ∀ a, a < c.shareMemory.memBase ∨ c.shareMemory.memBase + c.shareMemory.uiSize ≤ a →
    (c.step m k).1 a = m a

/-- The index a call starts from is not `queue_size_`. -/
def Reduced (c : MessageChannel) (m : Memory) (k : Call) : Prop := (c.queue k.1).Reduced m k.2

theorem spans_eq (c : MessageChannel) (m : Memory) {k : Call} (hk : Fits k) :
    c.spans m k = (c.queue k.1).spans m k.2 := by
  obtain ⟨s, call⟩ := k
  cases call with
  | append pmsg len => cases s <;> rfl
  | pop buf cap =>
    cases s with
    | input => rw [spans, recvMessasgeInput, recvMessage_eq _ _ _ hk]; rfl
    | output => rw [spans, recvMessageOutput, recvMessage_eq _ _ _ hk]; rfl

/-- The step law: under the invariant a call is isolated exactly when its index is reduced. -/
theorem Attached.isolated_iff (h : Attached c n m pending) {k : Call} (hk : Fits k) :
    c.Isolated m k ↔ c.Reduced m k := by
  have hbase := h.base
  have hlayout := h.layout
  have hlimit := h.limit
  have hin : c.msgInput.msgBase = c.msgInput.head + 32 := (h.holds .input).placed
  have hout : c.msgOutput.msgBase = c.msgOutput.head + 32 := (h.holds .output).placed
  have hside := h.holds k.1
  rw [Reduced, ← hside.within_iff hk.short]
  refine ⟨fun hiso s hs => hiso.within s (by rwa [spans_eq c m hk]), fun hwithin => ?_⟩
  have hframe : ∀ a, ¬((c.queue k.1).head ≤ a ∧ a < (c.queue k.1).msgBase + (n k.1 + 16)) →
      (c.step m k).1 a = m a := fun a ha => by
    rw [step_eq c m hk]
    exact hside.step_frame hk.short ((hside.within_iff hk.short).mp hwithin) ha
  refine ⟨fun s hs => hwithin s (by rwa [← spans_eq c m hk]), fun a hlo hhi => hframe a ?_,
    fun a ha => hframe a ?_⟩
  · rw [(h.holds _).queueSize_eq] at hhi
    obtain ⟨side, call⟩ := k
    cases side <;> simp only [queue, Side.other] at hlo hhi ⊢ <;> omega
  · obtain ⟨side, call⟩ := k
    cases side <;> simp only [queue, ShareMemory.sizeofShareMemory] at hbase ⊢ <;> omega

/-- The run law. -/
theorem Attached.along_isolated_iff (h : Attached c n m pending) {ks : List Call}
    (hks : ∀ k ∈ ks, Fits k) :
    Along c.step c.Isolated m ks ↔ Along c.step c.Reduced m ks := by
  refine Along.congr_invariant (fun m => ∃ pending, Attached c n m pending) Fits
    ?_ ?_ ⟨pending, h⟩ hks
  · rintro m k hk ⟨pending, h⟩ -
    exact ⟨_, (simulates c n m pending k hk h).1⟩
  · rintro m k hk ⟨pending, h⟩
    exact h.isolated_iff hk

/-- **Isolation, over every run.** From `InitMessageQueue` on a fresh object, whatever the
sizes, all calls of a run are isolated exactly when none starts at the end of its ring. -/
theorem isolated_iff_reduced (output input : MsgQueue) (api : SharememoryApi) (m : Memory)
    (key : Nat) (n : Side → Nat) (hn : ∀ s, n s < 2 ^ 31)
    (hmap : (ShareMemory.new.attachShareMemory api key (segmentSize n)).ret = true)
    (ks : List Call) (hks : ∀ k ∈ ks, Fits k) :
    let r := (new output input).initMessageQueue api m key (n .input) (n .output)
    r.ret = true ∧
      (Along r.channel.step r.channel.Isolated r.mem ks ↔
        Along r.channel.step r.channel.Reduced r.mem ks) := by
  obtain ⟨-, hret, -, -, -, hattached, -⟩ := new_attach_init output input hn hmap m
  exact ⟨hret, hattached.along_isolated_iff hks⟩

/-! ## A run that leaves its side

Two queues of 16 bytes, so rings of 32. Two messages of eight bytes go through the input queue;
the second one's body ends at offset 32, and both indices stay there. The third message's first
header byte is then written to offset 32, where the output queue's `mem_size_` is. -/

/-- A message of eight bytes, sent and received twice, and sent once more. -/
def threeMessages : List Call :=
  let send : Call := (.input, .append (fun _ => 65) 8)
  let recv : Call := (.input, .pop (fun _ => 0) 8)
  [send, recv, send, recv, send]

theorem isolated_iff_reduced_run :
    let r := (new ⟨0, 0⟩ ⟨0, 0⟩).initMessageQueue firstAttach (fun _ => 0) 7 16 16
    r.ret = true ∧
      (Along r.channel.step r.channel.Isolated r.mem threeMessages ↔
        Along r.channel.step r.channel.Reduced r.mem threeMessages) :=
  isolated_iff_reduced ⟨0, 0⟩ ⟨0, 0⟩ firstAttach (fun _ => 0) 7 (fun _ => 16) (fun _ => by decide)
    (by decide) threeMessages (by simp [threeMessages, Fits])

/-- The fifth call starts at `write_ = 32 = queue_size_`, and is not isolated. -/
theorem third_message_not_isolated :
    let r := (new ⟨0, 0⟩ ⟨0, 0⟩).initMessageQueue firstAttach (fun _ => 0) 7 16 16
    r.ret = true ∧ ¬Along r.channel.step r.channel.Isolated r.mem threeMessages := by
  have hfits : ∀ k ∈ threeMessages, Fits k := by simp [threeMessages, Fits]
  have hmap : (ShareMemory.new.attachShareMemory firstAttach 7
    (segmentSize fun _ => 16)).ret = true := by decide
  obtain ⟨-, hret, -, -, -, hattached, hwrite⟩ :=
    new_attach_init ⟨0, 0⟩ ⟨0, 0⟩ (fun _ => by decide) hmap (fun _ => 0)
  generalize (new ⟨0, 0⟩ ⟨0, 0⟩).initMessageQueue firstAttach (fun _ => 0) 7 _ _ = r
    at hret hattached hwrite ⊢
  refine ⟨hret, fun hiso => ?_⟩
  obtain ⟨-, -, -, -, hlast, -⟩ := (hattached.along_isolated_iff hfits).mp hiso
  have hsend : ∀ m, (r.channel.step m (.input, .append (fun _ => 65) 8)).1 =
      (r.channel.msgInput.append m (fun _ => 65) 8).mem := fun m => by
    rw [step, MsgQueue.AppendResult.answer_mem, sendMessageInput]
  have hrecv : ∀ m, (r.channel.step m (.input, .pop (fun _ => 0) 8)).1 =
      (r.channel.msgInput.pop m (fun _ => 0) 8).mem := fun m => by
    rw [step, MsgQueue.PopResult.answer_mem, recvMessasgeInput, recvMessage_eq _ _ _ (by decide)]
  rw [hsend, hrecv, hsend, hrecv, Reduced, queue, MsgQueue.Reduced] at hlast
  -- the two rounds leave both indices at 16, then at 32
  have hholds : Holds r.channel.msgInput 16 r.mem [] := hattached.holds .input
  obtain ⟨hround₁, hwrite₁⟩ := hholds.round (fun _ => 65) (fun _ => 0) (show 0 < 8 by decide)
    (by decide) (Nat.le_refl 8)
  obtain ⟨hround₂, hwrite₂⟩ := hround₁.round (fun _ => 65) (fun _ => 0) (show 0 < 8 by decide)
    (by decide) (Nat.le_refl 8)
  have hzero : r.channel.msgInput.write r.mem = 0 := hwrite .input
  rw [hwrite₁, hzero] at hwrite₂
  rw [hround₂.getFreeSize_eq, hround₂.queueSize_eq, hwrite₂] at hlast
  exact hlast (by decide) (by decide)

end MmDriver.MessageChannel

import MmDriver.Common.MsgQueueChecked
import MmDriver.Laws.Common.MsgQueueFifo

/-!
# Where the arithmetic of `Msg_Queue` wraps

In the states that a run reaches, the checked `pop` answers what `pop` answers, and the checked
`append` what `append` answers, as long as the message's cost is a `size_t`. A length whose cost
wraps is compared by what is left of it, and is accepted.
-/

namespace MmDriver

theorem SizeT.addChecked_eq {a b : Nat} (h : a + b < 2 ^ 64) :
    SizeT.addChecked a b = some (SizeT.add a b) := by
  rw [addChecked, if_pos h, add_eq h]

theorem SizeT.subChecked_eq {a b : Nat} (h : b ≤ a) (ha : a < 2 ^ 64) :
    SizeT.subChecked a b = some (SizeT.sub a b) := by
  rw [subChecked, if_pos h, sub_eq h ha]

namespace MsgQueue

open ByteMem RingIndex MsgFifo MsgRing

variable {q : MsgQueue} {m : Memory} {n : Nat} {pending : List Message}

/-! ## The loops -/

theorem headOffsetsChecked_eq {Q p left : Nat} (hp : p ≤ Q) (hQ : 0 < Q) (hlarge : Q < 2 ^ 63) :
    headOffsetsChecked Q left p = some (headOffsets Q left p) := by
  induction left generalizing p with
  | zero => rfl
  | succ left ih =>
    have hstep : SizeT.add p 1 % Q ≤ Q := Nat.le_of_lt (Nat.mod_lt _ hQ)
    rw [headOffsetsChecked, SizeT.addChecked_eq (by omega), headOffsets, Option.bind_eq_bind,
      Option.bind_some, ih hstep]
    rfl

theorem skipHeadChecked_eq {Q p left : Nat} (hp : p ≤ Q) (hQ : 0 < Q) (hlarge : Q < 2 ^ 63) :
    skipHeadChecked Q left p = some (skipHead Q left p) := by
  induction left generalizing p with
  | zero => rfl
  | succ left ih =>
    have hstep : SizeT.add p 1 % Q ≤ Q := Nat.le_of_lt (Nat.mod_lt _ hQ)
    rw [skipHeadChecked, SizeT.addChecked_eq (by omega), skipHead, Option.bind_eq_bind,
      Option.bind_some, ih hstep]

theorem putHeadChecked_eq (src : Nat → UInt8) (i : Nat) {Q p left : Nat} (hq : q.Placed)
    (hp : p ≤ Q) (hQ : 0 < Q) (hlarge : Q < 2 ^ 63) (hsize : q.queueSize m = Q) :
    q.putHeadChecked src left i p m = some (q.putHead src left i p m) := by
  induction left generalizing p i m with
  | zero => rfl
  | succ left ih =>
    have hsize₁ : q.queueSize (storeByte m (q.msgBase + p) (src i)) = Q := by
      rw [← hsize]
      exact (fields_copy (by unfold Placed at hq; omega)).1
    have hstep : SizeT.add p 1 % q.queueSize (storeByte m (q.msgBase + p) (src i)) ≤ Q := by
      rw [hsize₁]
      exact Nat.le_of_lt (Nat.mod_lt _ hQ)
    rw [putHeadChecked, SizeT.addChecked_eq (by omega), putHead, Option.bind_eq_bind,
      Option.bind_some, ih (i + 1) hstep hsize₁]
    rfl

/-! ## The sizes -/

theorem Holds.getFreeSizeChecked_eq (h : Holds q n m pending) :
    q.getFreeSizeChecked m = some (q.getFreeSize m) := by
  have hread := h.read_le
  have hwrite := h.write_le
  have hsmall := h.small
  have hgap := h.gap_eq
  have hroom := h.room
  unfold gap at hgap
  unfold getFreeSizeChecked getFreeSize messageQueueReverseLength queueMessageHeadLength
  rw [h.queueSize_eq]
  split
  · next hgt =>
    rw [if_pos hgt] at hgap
    rw [SizeT.subChecked_eq (Nat.le_of_lt hgt) (by omega), Option.bind_eq_bind, Option.bind_some,
      SizeT.sub_eq (Nat.le_of_lt hgt) (by omega), SizeT.subChecked_eq (by omega) (by omega)]
  · next hle =>
    rw [if_neg hle] at hgap
    rw [SizeT.subChecked_eq hwrite (by omega), Option.bind_eq_bind, Option.bind_some,
      SizeT.sub_eq hwrite (by omega), SizeT.addChecked_eq (by omega), Option.bind_some,
      SizeT.add_eq (by omega), SizeT.subChecked_eq (by omega) (by omega)]

theorem Holds.getUsedSizeChecked_eq (h : Holds q n m pending) :
    q.getUsedSizeChecked m = some (q.getUsedSize m) := by
  have hsmall := h.small
  have hroom := h.room
  have hsize : q.size m = n := by
    unfold size
    rw [h.queueSize_eq]
    exact SizeT.sub_eq (Nat.le_add_left 16 n) (by omega)
  have hsizeChecked : q.sizeChecked m = some (q.size m) := by
    unfold sizeChecked size
    rw [h.queueSize_eq]
    exact SizeT.subChecked_eq (Nat.le_add_left 16 n) (by omega)
  unfold getUsedSizeChecked getUsedSize
  rw [hsizeChecked, h.getFreeSizeChecked_eq, Option.bind_eq_bind, Option.bind_some,
    Option.bind_some, hsize, h.getFreeSize_eq]
  exact SizeT.subChecked_eq (Nat.sub_le _ _) (by omega)

/-- With or without a message, the length at `read_` is read without a wrap. -/
theorem Holds.getMsgLengthChecked_eq (h : Holds q n m pending) :
    q.getMsgLengthChecked m = some (q.getMsgLength m) := by
  have hsmall := h.small
  have hread := h.read_le
  unfold getMsgLengthChecked getMsgLength
  rw [h.queueSize_eq, headOffsetsChecked_eq hread (by omega) (by omega), Option.bind_eq_bind,
    Option.bind_some]
  rfl

/-! ## The calls -/

/-- A message that fits is stored without a wrap. -/
theorem Holds.putMessageChecked_eq (h : Holds q n m pending) (pmsg : Nat → UInt8) {len : Nat}
    (hlen : len ≤ n) :
    q.putMessageChecked m pmsg len = some (q.putMessage m pmsg len) := by
  have hq := h.placed
  have hsmall := h.small
  have hwrite := h.write_le
  have hsize := h.queueSize_eq
  obtain ⟨hstop, -, -, hout⟩ := putHead_spec (byteOf len) 0 hq hwrite (by omega) (by omega)
    (show 8 ≤ n + 16 by omega) hsize
  rw [cell_pos (by omega)] at hstop
  have hh : (q.write m + 8) % (n + 16) < n + 16 := Nat.mod_lt _ (by omega)
  -- The loop leaves the header's fields.
  obtain ⟨hsize₁, -, hwrite₁⟩ := fields_congr (q := q) (m := m)
    (q.putHead (byteOf len) 8 0 (q.write m) m).mem fun a hlo hhi =>
      hout a fun d _ => by unfold Placed at hq; omega
  have hbehind : SizeT.addChecked (q.write m) 8 = some (q.write m + 8) := if_pos (by omega)
  have hend : SizeT.addChecked ((q.write m + 8) % (n + 16)) len =
      some ((q.write m + 8) % (n + 16) + len) := if_pos (by omega)
  unfold putMessageChecked putMessage queueMessageHeadLength
  rw [putHeadChecked_eq (byteOf len) 0 hq hwrite (by omega) (by omega) hsize]
  simp only [Option.bind_eq_bind, Option.bind_some, hwrite₁, hbehind, hsize₁, hsize, hstop, hend,
    queueSize_setWrite]
  rw [SizeT.add_eq (show q.write m + 8 < 2 ^ 64 by omega), SizeT.add_eq (by omega),
    write_setWrite (by omega)]
  split
  · next hwrap =>
    rw [SizeT.subChecked_eq (Nat.le_of_lt hh) (by omega), Option.bind_some,
      SizeT.sub_eq (Nat.le_of_lt hh) (by omega), SizeT.subChecked_eq (by omega) (by omega)]
    rfl
  · rw [(fields_copy (by unfold Placed at hq; omega)).2.2, write_setWrite (by omega),
      SizeT.addChecked_eq (by omega)]
    rfl

/-- `append` wraps exactly when the cost of the message does. -/
theorem Holds.appendChecked_eq (h : Holds q n m pending) (pmsg : Nat → UInt8) (len : Nat) :
    q.appendChecked m pmsg len =
      if len + 8 < 2 ^ 64 then some (q.append m pmsg len) else none := by
  have hroom := h.room
  have hsmall := h.small
  unfold appendChecked append queueMessageHeadLength
  rw [h.getFreeSizeChecked_eq, Option.bind_eq_bind, Option.bind_some]
  by_cases hlen : len + 8 < 2 ^ 64
  · rw [if_pos hlen, SizeT.addChecked_eq hlen, Option.bind_some]
    split
    · rfl
    · next hfit =>
      rw [SizeT.add_eq hlen, h.getFreeSize_eq] at hfit
      exact h.putMessageChecked_eq pmsg (by omega)
  · rw [if_neg hlen, SizeT.addChecked, if_neg hlen, Option.bind_none]

/-- The front message is taken without a wrap. -/
theorem Holds.takeMessageChecked_eq {x : Message} {xs : List Message}
    (h : Holds q n m (x :: xs)) (buf : Memory) :
    q.takeMessageChecked m buf x.length = some (q.takeMessage m buf x.length) := by
  have hsmall := h.small
  have hroom := h.room
  have hread := h.read_le
  have hsize := h.queueSize_eq
  rw [occupied_cons] at hroom
  have hh : (q.read m + 8) % (n + 16) < n + 16 := Nat.mod_lt _ (by omega)
  have hbehind : SizeT.addChecked (q.read m) 8 = some (q.read m + 8) := if_pos (by omega)
  have hend : SizeT.addChecked ((q.read m + 8) % (n + 16)) x.length =
      some ((q.read m + 8) % (n + 16) + x.length) := if_pos (by omega)
  unfold takeMessageChecked takeMessage queueMessageHeadLength
  rw [hsize, skipHeadChecked_eq hread (by omega) (by omega),
    skipHead_eq hread (by omega) (by omega), cell_pos (by omega)]
  simp only [Option.bind_eq_bind, Option.bind_some, hbehind, hend, queueSize_setRead, hsize]
  rw [SizeT.add_eq (show q.read m + 8 < 2 ^ 64 by omega), SizeT.add_eq (by omega)]
  split
  · next hwrap =>
    rw [SizeT.subChecked_eq (Nat.le_of_lt hh) (by omega), Option.bind_some,
      SizeT.sub_eq (Nat.le_of_lt hh) (by omega), SizeT.subChecked_eq (by omega) (by omega)]
    rfl
  · rw [read_setRead (by omega), SizeT.addChecked_eq (by omega)]
    rfl

/-- `pop` never wraps: the sum of its first check is taken only where a message is stored. -/
theorem Holds.popChecked_eq (h : Holds q n m pending) (buf : Memory) (cap : Nat) :
    q.popChecked m buf cap = some (q.pop m buf cap) := by
  have hsmall := h.small
  have hroom := h.room
  unfold popChecked
  rw [h.getUsedSizeChecked_eq, Option.bind_eq_bind, Option.bind_some, h.getMsgLengthChecked_eq,
    Option.bind_some]
  by_cases hmin : minMessageChunkSize > q.getUsedSize m
  · rw [if_pos hmin, pop_small (.inl hmin)]
    rfl
  · rw [if_neg hmin]
    cases pending with
    | nil =>
      rw [h.getUsedSize_eq, occupied_nil] at hmin
      exact absurd (Nat.succ_pos _) hmin
    | cons x xs =>
      rw [occupied_cons] at hroom
      have hlength := h.getMsgLength_eq
      rw [hlength, queueMessageHeadLength, SizeT.addChecked_eq (by omega), Option.bind_some]
      by_cases hcost : SizeT.add 8 x.length > q.getUsedSize m
      · rw [if_pos hcost, pop_small (.inr (by rw [hlength]; exact hcost))]
        rfl
      · rw [if_neg hcost]
        by_cases hcap : x.length > cap
        · rw [if_pos hcap, pop_short (by rw [hlength]; exact hcap)]
          rfl
        · rw [if_neg hcap, h.takeMessageChecked_eq buf, pop_take _ (by rw [hlength]; exact hcap),
            hlength]
          rw [hlength]
          exact fun hor => hor.elim hmin hcost

/-! ## The bounds -/

/-- An `append` takes only what fits in the free space `free`, leaves the memory as it is where it
refuses, and wraps nowhere. -/
structure RejectsOversize (q : MsgQueue) (m : Memory) (free : Nat) (pmsg : Nat → UInt8)
    (len : Nat) : Prop where
  fits : (q.append m pmsg len).ret = true → len + 8 ≤ free
  unchanged : (q.append m pmsg len).ret = false → (q.append m pmsg len).mem = m
  exact : q.appendChecked m pmsg len = some (q.append m pmsg len)

/-- It does so exactly when the message's cost is a `size_t`. -/
theorem Holds.rejectsOversize_iff (h : Holds q n m pending) (pmsg : Nat → UInt8) (len : Nat) :
    RejectsOversize q m (n - occupied pending) pmsg len ↔ len + 8 < 2 ^ 64 := by
  constructor
  · intro hrejects
    by_contra hlen
    have hexact := hrejects.exact
    rw [h.appendChecked_eq, if_neg hlen] at hexact
    cases hexact
  · intro hlen
    refine ⟨?_, fun hret => (append_false hret).1, ?_⟩
    · intro hret
      by_cases hfit : occupied pending + (8 + len) ≤ n
      · omega
      · rw [h.append_full hlen hfit] at hret
        cases hret
    · rw [h.appendChecked_eq, if_pos hlen]

/-- **What does not fit is rejected**, in every state that a run of sized calls reaches: by an
`append` exactly when the cost of its message is a `size_t`; and no `pop` wraps. -/
theorem rejects_oversize_iff (q : MsgQueue) (m : Memory) (pmem : Nat) {n : Nat} (hn : n < 2 ^ 62)
    {ks : List Call} (hks : ∀ k ∈ ks, k.Sized) :
    let r := init q m pmem (allocSize n) n .init
    let m' := r.queue.memAfter r.mem ks
    (∀ pmsg len,
      RejectsOversize r.queue m' (n - occupied (undelivered (ks.map Call.abs)
        (r.queue.replies r.mem ks))) pmsg len ↔ len + 8 < 2 ^ 64) ∧
      ∀ buf cap, r.queue.popChecked m' buf cap = some (r.queue.pop m' buf cap) := by
  intro r m'
  obtain ⟨-, -, -, hempty, -, -⟩ := init_init q m pmem hn
  have hholds := hempty.run_undelivered hks
  exact ⟨hholds.rejectsOversize_iff, hholds.popChecked_eq⟩

/-- A queue of 32 bytes with one message in it. -/
theorem rejects_oversize_iff_run :
    let r := init ⟨0, 0⟩ (fun _ => 0) 64 (allocSize 32) 32 .init
    let ks : List Call := [.append (fun _ => 7) 3]
    let m' := r.queue.memAfter r.mem ks
    (∀ pmsg len,
      RejectsOversize r.queue m' (32 - occupied (undelivered (ks.map Call.abs)
        (r.queue.replies r.mem ks))) pmsg len ↔ len + 8 < 2 ^ 64) ∧
      ∀ buf cap, r.queue.popChecked m' buf cap = some (r.queue.pop m' buf cap) :=
  rejects_oversize_iff ⟨0, 0⟩ (fun _ => 0) 64 (by decide) (by simp [Call.Sized])

/-- The cost of a message of `2 ^ 64 - 8` bytes is zero, and an empty queue takes it. The answer `true`
is that of the definitions, whose memory has no end: the program faults while it copies. -/
theorem wrapped_length_taken :
    let r := init ⟨0, 0⟩ (fun _ => 0) 64 (allocSize 32) 32 .init
    (r.queue.append r.mem (fun _ => 7) (2 ^ 64 - 8)).ret = true ∧
      ¬RejectsOversize r.queue r.mem (32 - occupied []) (fun _ => 7) (2 ^ 64 - 8) := by
  intro r
  obtain ⟨-, -, -, hempty, -, -⟩ :=
    init_init ⟨0, 0⟩ (fun _ => 0) 64 (show 32 < 2 ^ 62 by decide)
  have hcost : SizeT.add (2 ^ 64 - 8) queueMessageHeadLength = 0 := by
    unfold SizeT.add queueMessageHeadLength
    rfl
  refine ⟨?_, fun hrejects => ?_⟩
  · rw [append, hcost, if_neg (Nat.not_lt_zero _)]
    exact putMessage_ret
  · have hlen := (hempty.rejectsOversize_iff (fun _ => 7) (2 ^ 64 - 8)).mp hrejects
    omega

end MsgQueue

end MmDriver

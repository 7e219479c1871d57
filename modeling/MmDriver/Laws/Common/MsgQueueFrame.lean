import MmDriver.Laws.Common.MsgQueueFifo

/-!
# What a call on a queue touches

A queue's own bytes are its header and the `queue_size_` bytes of its ring. A call reads and
writes only those, with one exception that depends on where its index stands: an index equal to
`queue_size_` makes the first header byte the byte behind the ring. `Holds.within_iff` says that
this is the only exception, and that it always is one.
-/

namespace MmDriver.MsgQueue

open ByteMem RingIndex MsgFifo MsgRing

variable {q : MsgQueue} {m : Memory} {n : Nat} {pending : List Message}

/-- The spans of the ring an `append` dereferenced. -/
def AppendResult.touched (r : AppendResult) : List Span := r.spans

/-- The spans of the ring a `pop` dereferenced. -/
def PopResult.touched (r : PopResult) : List Span := r.spans

/-- The spans of the ring a call dereferences. -/
def spans (q : MsgQueue) (m : Memory) : Call → List Span
  | .append pmsg len => (q.append m pmsg len).touched
  | .pop buf cap => (q.pop m buf cap).touched

/-- Every span a call dereferences lies in `[0, queue_size_)`. -/
def Within (q : MsgQueue) (m : Memory) (k : Call) : Prop :=
  ∀ s ∈ q.spans m k, s.start + s.len ≤ q.queueSize m

/-- The index a call starts from is not the end of the ring: `write_` for a message that fits,
`read_` for every `pop`. -/
def Reduced (q : MsgQueue) (m : Memory) : Call → Prop
  | .append _ len =>
    SizeT.add len queueMessageHeadLength ≤ q.getFreeSize m → q.write m ≠ q.queueSize m
  | .pop _ _ => q.read m ≠ q.queueSize m

/-! ## The spans -/

/-- The eight cells from `p` on, byte by byte, lie in the ring exactly when `p` does. -/
theorem cells_within {Q p : Nat} (hp : p ≤ Q) (hQ : 0 < Q) :
    (∀ s ∈ (List.range 8).map fun d => (⟨cell Q p d, 1⟩ : Span), s.start + s.len ≤ Q) ↔
      p ≠ Q := by
  refine ⟨fun h hpQ => ?_, fun h s hs => ?_⟩
  · have hfirst := h ⟨cell Q p 0, 1⟩ (List.mem_map_of_mem (List.mem_range.mpr (by omega)))
    rw [cell_zero] at hfirst
    dsimp only at hfirst
    omega
  · obtain ⟨d, -, rfl⟩ := List.mem_map.mp hs
    dsimp only
    by_cases hd : d = 0
    · rw [hd, cell_zero]
      omega
    · exact cell_lt hQ hd

/-- The one or two spans of a body lie in the ring. -/
theorem bodySpans_within {Q h len : Nat} (hh : h ≤ Q) (hlen : len ≤ Q) :
    ∀ s ∈ bodySpans Q h len, s.start + s.len ≤ Q := by
  intro s hs
  unfold bodySpans at hs
  split at hs
  · rcases List.mem_pair.mp hs with rfl | rfl <;> dsimp only <;> omega
  · obtain rfl := List.mem_singleton.mp hs
    dsimp only
    omega

/-- What an accepted `append` dereferences. -/
theorem Holds.append_spans (h : Holds q n m pending) {pmsg : Nat → UInt8} {len : Nat}
    (hfit : occupied pending + (8 + len) ≤ n) :
    (q.append m pmsg len).spans =
      ((List.range 8).map fun d => ⟨cell (n + 16) (q.write m) d, 1⟩) ++
        bodySpans (n + 16) ((q.write m + 8) % (n + 16)) len := by
  have hsmall := h.small
  have hfree : ¬q.getFreeSize m < SizeT.add len queueMessageHeadLength := by
    rw [h.getFreeSize_eq, queueMessageHeadLength, SizeT.add_eq (by omega)]
    omega
  obtain ⟨-, hspans, -, -⟩ := putHead_spec (byteOf len) 0 h.placed h.write_le (by omega)
    (by omega) (show 8 ≤ n + 16 by omega) h.queueSize_eq
  rw [append_eq h.placed h.queueSize_eq (by omega) (by omega) (by omega) h.write_le hfree, hspans]

/-- What every `pop` dereferences first. -/
theorem Holds.headSpans_eq (h : Holds q n m pending) :
    q.headSpans m = (List.range 8).map fun d => ⟨cell (n + 16) (q.read m) d, 1⟩ := by
  have hsmall := h.small
  unfold headSpans
  rw [h.queueSize_eq, queueMessageHeadLength, headOffsets_eq h.read_le (by omega) (by omega),
    List.map_map]
  rfl

/-- A `pop` dereferences the header's cells, and the body's when it delivers. -/
theorem Holds.pop_spans (h : Holds q n m pending) (buf : Memory) (cap : Nat) :
    ∃ rest, (q.pop m buf cap).spans = q.headSpans m ++ rest ∧
      ∀ s ∈ rest, s.start + s.len ≤ n + 16 := by
  have hroom := h.room
  cases pending with
  | nil =>
    have hused := h.getUsedSize_eq
    rw [pop_small (.inl (by rw [hused, occupied_nil]; decide))]
    exact ⟨[], (List.append_nil _).symm, fun s hs => absurd hs List.not_mem_nil⟩
  | cons x xs =>
    by_cases hchunk : x = [] ∧ xs = []
    · have hused := h.getUsedSize_eq
      obtain ⟨rfl, rfl⟩ := hchunk
      rw [pop_small (.inl (by rw [hused]; decide))]
      exact ⟨[], (List.append_nil _).symm, fun s hs => absurd hs List.not_mem_nil⟩
    · by_cases hcap : cap < x.length
      · rw [pop_short (by rw [h.getMsgLength_eq]; exact hcap)]
        exact ⟨[], (List.append_nil _).symm, fun s hs => absurd hs List.not_mem_nil⟩
      · rw [occupied_cons] at hroom
        rw [h.pop_front hchunk hcap]
        exact ⟨_, rfl, bodySpans_within (Nat.le_of_lt (Nat.mod_lt _ (by omega))) (by omega)⟩

/-! ## The bytes written -/

/-- What `pop` does to the memory: two stores to `read_`, or nothing. -/
theorem pop_mem (q : MsgQueue) (m buf : Memory) (cap : Nat) : (q.pop m buf cap).mem = m ∨
    ∃ v v', (q.pop m buf cap).mem = q.setRead (q.setRead m v) v' := by
  by_cases hret : (q.pop m buf cap).ret = true
  · right
    by_cases hsmall : minMessageChunkSize > q.getUsedSize m ∨
        SizeT.add queueMessageHeadLength (q.getMsgLength m) > q.getUsedSize m
    · rw [pop_small hsmall] at hret
      cases hret
    · by_cases hshort : q.getMsgLength m > cap
      · rw [pop_short hshort] at hret
        cases hret
      · rw [pop_take hsmall hshort, takeMessage]
        dsimp only
        split
        · exact ⟨_, _, rfl⟩
        · exact ⟨_, _, rfl⟩
  · left
    exact (pop_false (Bool.eq_false_iff.mpr hret)).1

/-- A `pop` changes nothing but `read_`. -/
theorem pop_outside {buf : Memory} {cap a : Nat} (ha : ¬(q.head + 16 ≤ a ∧ a < q.head + 24)) :
    (q.pop m buf cap).mem a = m a := by
  rcases pop_mem q m buf cap with hmem | ⟨v, v', hmem⟩
  · rw [hmem]
  · rw [hmem, setRead_outside ha, setRead_outside ha]

/-- An `append` changes no byte in front of the indices or behind the ring, the byte at offset
`queue_size_` apart; that one it changes only when it accepts with `write_` there. -/
theorem Holds.append_outside (h : Holds q n m pending) (pmsg : Nat → UInt8) {len a : Nat}
    (hlen : len + 8 < 2 ^ 64) (ha : a < q.head + 16 ∨ q.msgBase + (n + 16) ≤ a)
    (hend : a = q.msgBase + (n + 16) → q.Reduced m (.append pmsg len)) :
    (q.append m pmsg len).mem a = m a := by
  have hsmall := h.small
  have hq : q.msgBase = q.head + 32 := h.placed
  by_cases hfit : occupied pending + (8 + len) ≤ n
  · have hfree : SizeT.add len queueMessageHeadLength ≤ q.getFreeSize m := by
      rw [h.getFreeSize_eq, queueMessageHeadLength, SizeT.add_eq hlen]
      omega
    obtain ⟨-, -, hout⟩ := append_mem pmsg h.placed h.queueSize_eq (by omega) (by omega)
      (show 8 + len ≤ n + 16 by omega) h.write_le (Nat.not_lt.mpr hfree)
    apply hout
    rintro (hindex | ⟨d, -, hcell⟩)
    · omega
    · have hle := cell_le (d := d) (show 0 < n + 16 by omega) h.write_le
      by_cases hd : d = 0
      · -- the first header byte: at the end of the ring only when `write_` is
        rw [hd, cell_zero] at hcell
        have hwrite := h.write_le
        have hat : q.write m = n + 16 := by omega
        exact hend (by omega) hfree (hat.trans h.queueSize_eq.symm)
      · have hlt := cell_lt (Q := n + 16) (p := q.write m) (by omega) hd
        omega
  · rw [h.append_full hlen hfit]

/-! ## The indices -/

/-- An accepted `append` moves `write_` to the message's end. -/
theorem Holds.append_indices (h : Holds q n m pending) (pmsg : Nat → UInt8) {len : Nat}
    (hfit : occupied pending + (8 + len) ≤ n) :
    q.read (q.append m pmsg len).mem = q.read m ∧
      q.write (q.append m pmsg len).mem = next (n + 16) (q.write m) len := by
  have hsmall := h.small
  have hq : q.msgBase = q.head + 32 := h.placed
  have hfree : ¬q.getFreeSize m < SizeT.add len queueMessageHeadLength := by
    rw [h.getFreeSize_eq, queueMessageHeadLength, SizeT.add_eq (by omega)]
    omega
  obtain ⟨hwrite, -, hout⟩ := append_mem pmsg h.placed h.queueSize_eq (by omega) (by omega)
    (show 8 + len ≤ n + 16 by omega) h.write_le hfree
  refine ⟨loadWord_congr fun a hlo hhi => hout a ?_, hwrite⟩
  rintro (hindex | ⟨d, -, hcell⟩) <;> omega

/-- A delivery moves `read_` to the message's end. -/
theorem Holds.pop_indices {x : Message} {xs : List Message} (h : Holds q n m (x :: xs))
    (buf : Memory) {cap : Nat} (hchunk : ¬(x = [] ∧ xs = [])) (hcap : ¬cap < x.length) :
    q.read (q.pop m buf cap).mem = next (n + 16) (q.read m) x.length ∧
      q.write (q.pop m buf cap).mem = q.write m := by
  have hsmall := h.small
  have hroom := h.room
  rw [occupied_cons] at hroom
  have hnext : next (n + 16) (q.read m) x.length ≤ n + 16 := next_le (by omega) (by omega)
  rw [h.pop_front hchunk hcap]
  exact ⟨read_setRead (by omega), by rw [write_setRead, write_setRead]⟩

/-- One message through an empty queue: both indices stand at its end. -/
theorem Holds.round (h : Holds q n m []) (pmsg : Nat → UInt8) (buf : Memory) {len cap : Nat}
    (hpos : 0 < len) (hfit : 8 + len ≤ n) (hcap : len ≤ cap) :
    Holds q n (q.pop (q.append m pmsg len).mem buf cap).mem [] ∧
      q.write (q.pop (q.append m pmsg len).mem buf cap).mem = next (n + 16) (q.write m) len := by
  have hroom : occupied [] + (8 + len) ≤ n := by rwa [occupied_nil, Nat.zero_add]
  obtain ⟨-, hsent⟩ := h.append_fits pmsg hroom
  obtain ⟨-, hwrite⟩ := h.append_indices pmsg hroom
  have hlength := slice_length pmsg 0 len
  have hchunk : ¬(slice pmsg 0 len = [] ∧ ([] : List Message) = []) := by
    rintro ⟨hnil, -⟩
    rw [hnil, List.length_nil] at hlength
    omega
  have hsmall : ¬cap < (slice pmsg 0 len).length := by rw [hlength]; omega
  obtain ⟨-, -, -, hempty⟩ := Holds.pop_delivers hsent buf hchunk hsmall
  obtain ⟨-, hkept⟩ := Holds.pop_indices hsent buf hchunk hsmall
  exact ⟨hempty, hkept.trans hwrite⟩

/-! ## Isolation -/

/-- No call changes a byte in front of its indices or past the byte behind its ring. -/
theorem Holds.step_outside (h : Holds q n m pending) {k : Call} (hk : k.Short) {a : Nat}
    (ha : a < q.head + 16 ∨ q.msgBase + (n + 16) < a) : (q.step m k).1 a = m a := by
  have hq : q.msgBase = q.head + 32 := h.placed
  cases k with
  | append pmsg len =>
    have hlen : len ≤ 65535 := hk
    rw [step, AppendResult.answer_mem]
    exact h.append_outside pmsg (by omega) (by omega) (fun heq => by omega)
  | pop buf cap =>
    rw [step, PopResult.answer_mem]
    exact pop_outside (by omega)

/-- An `append` stays inside its ring exactly when, fitting, it does not start at the end. -/
theorem Holds.append_within_iff (h : Holds q n m pending) (pmsg : Nat → UInt8) {len : Nat}
    (hlen : len ≤ 65535) :
    q.Within m (.append pmsg len) ↔ q.Reduced m (.append pmsg len) := by
  have hsmall := h.small
  have hfree : SizeT.add len queueMessageHeadLength ≤ q.getFreeSize m ↔
      8 + len ≤ n - occupied pending := by
    rw [h.getFreeSize_eq, queueMessageHeadLength, SizeT.add_eq (by omega), Nat.add_comm]
  rw [Within, spans, AppendResult.touched, h.queueSize_eq]
  refine ⟨fun hwithin hle hend => ?_, fun hred => ?_⟩
  · have hcost := hfree.mp hle
    rw [h.append_spans (by omega)] at hwithin
    refine (cells_within h.write_le (by omega)).mp (fun s hs => ?_) (hend.trans h.queueSize_eq)
    exact hwithin s (List.mem_append_left _ hs)
  · by_cases hfit : occupied pending + (8 + len) ≤ n
    · have hw : q.write m ≠ n + 16 := by
        rw [← h.queueSize_eq]
        exact hred (hfree.mpr (by omega))
      rw [h.append_spans hfit]
      intro s hs
      rcases List.mem_append.mp hs with hhead | hbody
      · exact (cells_within h.write_le (by omega)).mpr hw s hhead
      · exact bodySpans_within (Nat.le_of_lt (Nat.mod_lt _ (by omega))) (by omega) s hbody
    · rw [h.append_full (by omega) hfit]
      exact fun s hs => absurd hs List.not_mem_nil

/-- A `pop` stays inside its ring exactly when it does not start at the end. -/
theorem Holds.pop_within_iff (h : Holds q n m pending) (buf : Memory) (cap : Nat) :
    q.Within m (.pop buf cap) ↔ q.Reduced m (.pop buf cap) := by
  obtain ⟨rest, hspans, hrest⟩ := h.pop_spans buf cap
  rw [Within, spans, PopResult.touched, hspans, h.headSpans_eq, h.queueSize_eq, Reduced,
    h.queueSize_eq]
  refine ⟨fun hwithin => ?_, fun hred s hs => ?_⟩
  · exact (cells_within h.read_le (by omega)).mp fun s hs => hwithin s (List.mem_append_left _ hs)
  · rcases List.mem_append.mp hs with hhead | hbody
    · exact (cells_within h.read_le (by omega)).mpr hred s hhead
    · exact hrest s hbody

/-- **A call stays inside its ring exactly when its index is not the end of the ring.** -/
theorem Holds.within_iff (h : Holds q n m pending) {k : Call} (hk : k.Short) :
    q.Within m k ↔ q.Reduced m k := by
  cases k with
  | append pmsg len => exact h.append_within_iff pmsg hk
  | pop buf cap => exact h.pop_within_iff buf cap

/-- With its index inside the ring, a call changes no byte that is not its queue's own. -/
theorem Holds.step_frame (h : Holds q n m pending) {k : Call} (hk : k.Short)
    (hred : q.Reduced m k) {a : Nat} (ha : ¬(q.head ≤ a ∧ a < q.msgBase + (n + 16))) :
    (q.step m k).1 a = m a := by
  have hq : q.msgBase = q.head + 32 := h.placed
  cases k with
  | append pmsg len =>
    have hlen : len ≤ 65535 := hk
    rw [step, AppendResult.answer_mem]
    exact h.append_outside pmsg (by omega) (by omega) fun _ => hred
  | pop buf cap =>
    rw [step, PopResult.answer_mem]
    exact pop_outside (by omega)

/-! ## Two queues -/

/-- What a queue holds depends on its header's last three fields and on its ring, the byte
behind the ring included. -/
theorem Holds.congr {m' : Memory} (h : Holds q n m pending)
    (hsame : ∀ a, q.head + 8 ≤ a → a ≤ q.msgBase + (n + 16) → m' a = m a) :
    Holds q n m' pending := by
  have hq : q.msgBase = q.head + 32 := h.placed
  have hroom := h.room
  obtain ⟨hsize, hread, hwrite⟩ :=
    fields_congr (q := q) (m := m) m' fun a hlo hhi => hsame a hlo (by omega)
  refine ⟨h.placed, h.small, hsize.trans h.queueSize_eq, hread ▸ h.read_le, ?_, h.room⟩
  rw [hread, hwrite]
  refine stored_congr (by omega) h.read_le (by omega) (fun c hc d _ _ => ?_) h.stored
  exact hsame _ (by omega) (by omega)

/-- An empty queue is its header alone. -/
theorem Holds.congr_nil {m' : Memory} (h : Holds q n m [])
    (hsame : ∀ a, q.head + 8 ≤ a → a < q.head + 32 → m' a = m a) : Holds q n m' [] := by
  obtain ⟨hsize, hread, hwrite⟩ := fields_congr (q := q) (m := m) m' hsame
  refine ⟨h.placed, h.small, hsize.trans h.queueSize_eq, hread ▸ h.read_le, ?_, h.room⟩
  exact hread.trans (h.read_eq_write.trans hwrite.symm)

end MmDriver.MsgQueue

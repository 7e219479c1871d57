import MmDriver.Common.MsgQueue
import MmDriver.Laws.Common.MsgRing

/-!
# One specification for each operation of `Msg_Queue`

`Holds q n m pending` relates a memory to the messages a queue of size `n` holds in it: the
header's sizes, indices inside `[0, n + 16]`, and the messages stored in order from `read_` to
`write_`. Under it every subtraction in `get_free_size` and `get_used_size` is exact
(`getFreeSize_eq`, `getUsedSize_eq`), and the two calls are characterised once:

* `append_fits` and `append_full`: which messages are accepted, what is pending after, and
  which bytes of the memory changed;
* `pop_front` and `pop_refuses`: what is answered, and that nothing but `read_` changed.

`Holds` says nothing of `mem_size_`, which neither call reads.
-/

namespace MmDriver.MsgQueue

open ByteMem RingIndex MsgFifo MsgRing

variable {q : MsgQueue} {m : Memory} {n : Nat} {pending : List Message}

/-! ## The header under writes -/

/-- The members of an initialised queue: the ring stands behind the header. -/
def Placed (q : MsgQueue) : Prop := q.msgBase = q.head + 32

/-- The three fields the calls read are read from the header's bytes alone. -/
theorem fields_congr (m' : Memory) (h : ∀ a, q.head + 8 ≤ a → a < q.head + 32 → m' a = m a) :
    q.queueSize m' = q.queueSize m ∧ q.read m' = q.read m ∧ q.write m' = q.write m := by
  refine ⟨?_, ?_, ?_⟩ <;> exact loadWord_congr fun b hlo hhi => h b (by omega) (by omega)

/-- A copy behind the header leaves the header's fields. -/
theorem fields_copy {dst len : Nat} {src : Nat → UInt8} (h : q.head + 32 ≤ dst) :
    q.queueSize (copy m dst src len) = q.queueSize m ∧
      q.read (copy m dst src len) = q.read m ∧ q.write (copy m dst src len) = q.write m :=
  fields_congr _ fun _ _ _ => copy_outside (by omega)

theorem write_setWrite {v : Nat} (h : v < 2 ^ 64) : q.write (q.setWrite m v) = v :=
  loadWord_storeWord h

theorem read_setRead {v : Nat} (h : v < 2 ^ 64) : q.read (q.setRead m v) = v :=
  loadWord_storeWord h

@[simp] theorem queueSize_setWrite (v : Nat) : q.queueSize (q.setWrite m v) = q.queueSize m :=
  loadWord_storeWord_other (by omega)

@[simp] theorem read_setWrite (v : Nat) : q.read (q.setWrite m v) = q.read m :=
  loadWord_storeWord_other (by omega)

@[simp] theorem queueSize_setRead (v : Nat) : q.queueSize (q.setRead m v) = q.queueSize m :=
  loadWord_storeWord_other (by omega)

@[simp] theorem write_setRead (v : Nat) : q.write (q.setRead m v) = q.write m :=
  loadWord_storeWord_other (by omega)

/-- An index store changes only the index's own eight bytes. -/
theorem setWrite_outside {v a : Nat} (h : ¬(q.head + 24 ≤ a ∧ a < q.head + 32)) :
    q.setWrite m v a = m a := storeWord_outside h

theorem setRead_outside {v a : Nat} (h : ¬(q.head + 16 ≤ a ∧ a < q.head + 24)) :
    q.setRead m v a = m a := storeWord_outside h

theorem ring_setWrite (hq : q.Placed) (v : Nat) : q.ring (q.setWrite m v) = q.ring m := by
  funext c
  unfold Placed at hq
  exact setWrite_outside (by omega)

theorem ring_setRead (hq : q.Placed) (v : Nat) : q.ring (q.setRead m v) = q.ring m := by
  funext c
  unfold Placed at hq
  exact setRead_outside (by omega)

/-! ## The loops over the header bytes -/

/-- The reading loop visits the first cells of the run from `read`. -/
theorem headOffsets_eq {Q p left : Nat} (hp : p ≤ Q) (hQ : 0 < Q) (hlarge : Q < 2 ^ 64 - 1) :
    headOffsets Q left p = (List.range left).map (cell Q p) := by
  induction left generalizing p with
  | zero => rfl
  | succ left ih =>
    have hstep : (p + 1) % Q ≤ Q := Nat.le_of_lt (Nat.mod_lt _ hQ)
    rw [headOffsets, SizeT.add_eq (by omega), ih hstep, List.range_succ_eq_map, List.map_cons,
      List.map_map, cell_zero]
    congr 1
    exact List.map_congr_left fun d _ => cell_step Q p d

/-- The local loop of `pop` ends at the cell behind the header. -/
theorem skipHead_eq {Q p left : Nat} (hp : p ≤ Q) (hQ : 0 < Q) (hlarge : Q < 2 ^ 64 - 1) :
    skipHead Q left p = cell Q p left := by
  induction left generalizing p with
  | zero => rfl
  | succ left ih =>
    have hstep : (p + 1) % Q ≤ Q := Nat.le_of_lt (Nat.mod_lt _ hQ)
    rw [skipHead, SizeT.add_eq (by omega), ih hstep, cell_step]

/-- The header loop of `append`: byte `d` goes to the `d`-th cell of the run from `write`, no
other byte changes, and the run's cells are what it touched. -/
theorem putHead_spec (src : Nat → UInt8) (i : Nat) {Q p left : Nat} (hq : q.Placed)
    (hp : p ≤ Q) (hQ : 0 < Q) (hlarge : Q < 2 ^ 64 - 1) (hleft : left ≤ Q)
    (hsize : q.queueSize m = Q) :
    (q.putHead src left i p m).write = cell Q p left ∧
      (q.putHead src left i p m).spans = (List.range left).map (fun d => ⟨cell Q p d, 1⟩) ∧
      (∀ d < left, (q.putHead src left i p m).mem (q.msgBase + cell Q p d) = src (i + d)) ∧
      (∀ a, (∀ d < left, a ≠ q.msgBase + cell Q p d) →
        (q.putHead src left i p m).mem a = m a) := by
  induction left generalizing p i m with
  | zero => exact ⟨rfl, rfl, fun d hd => absurd hd (Nat.not_lt_zero d), fun a _ => rfl⟩
  | succ left ih =>
    have hstep : (p + 1) % Q ≤ Q := Nat.le_of_lt (Nat.mod_lt _ hQ)
    have hsize₁ : q.queueSize (storeByte m (q.msgBase + p) (src i)) = Q := by
      rw [← hsize]
      exact (fields_copy (by unfold Placed at hq; omega)).1
    obtain ⟨hwrite, hspans, hin, hout⟩ :=
      ih (i + 1) (m := storeByte m (q.msgBase + p) (src i)) hstep (by omega) hsize₁
    rw [putHead, SizeT.add_eq (by omega), hsize₁]
    refine ⟨?_, ?_, ?_, ?_⟩
    · rw [hwrite, cell_step]
    · simp only [hspans, List.range_succ_eq_map, List.map_cons, List.map_map, cell_zero,
        List.cons.injEq, true_and]
      exact List.map_congr_left fun d _ => by rw [Function.comp_apply, cell_step]
    · intro d hd
      cases d with
      | zero =>
        -- the first byte is not among the later cells
        rw [cell_zero, hout, storeByte_same, Nat.add_zero]
        intro d hd' heq
        rw [cell_step] at heq
        have hcell : cell Q p 0 = cell Q p (d + 1) := by rw [cell_zero]; omega
        exact absurd (cell_inj hcell hQ (by omega)) (by omega)
      | succ d =>
        rw [← cell_step, hin d (by omega)]
        congr 1
        omega
    · intro a ha
      rw [hout a fun d hd => by rw [cell_step]; exact ha (d + 1) (by omega)]
      exact storeByte_other (by simpa using ha 0 (by omega))

/-! ## Free and used space -/

/-- The arm of `get_free_size` for `read_` ahead of `write_`: what the ring holds less what is
written and less the reserve, as long as the reserve is kept. -/
theorem free_gt {Q r w : Nat} (h : r > w) (hr : r ≤ Q) (hlarge : Q < 2 ^ 63)
    (hkept : gap Q r w + 16 ≤ Q) : SizeT.sub (SizeT.sub r w) 16 = Q - gap Q r w - 16 := by
  unfold gap at hkept ⊢
  rw [if_pos h] at hkept ⊢
  rw [SizeT.sub_eq (Nat.le_of_lt h) (by omega), SizeT.sub_eq (by omega) (by omega)]
  omega

/-- The other arm computes the same number. -/
theorem free_le {Q r w : Nat} (h : ¬r > w) (hw : w ≤ Q) (hlarge : Q < 2 ^ 63)
    (hkept : gap Q r w + 16 ≤ Q) :
    SizeT.sub (SizeT.add (SizeT.sub Q w) r) 16 = Q - gap Q r w - 16 := by
  unfold gap at hkept ⊢
  rw [if_neg h] at hkept ⊢
  rw [SizeT.sub_eq hw (by omega), SizeT.add_eq (by omega), SizeT.sub_eq (by omega) (by omega)]
  omega

/-- The queue of size `n` at `q` holds exactly the messages `pending`. -/
structure Holds (q : MsgQueue) (n : Nat) (m : Memory) (pending : List Message) : Prop where
  placed : q.Placed
  small : n < 2 ^ 62
  queueSize_eq : q.queueSize m = n + 16
  read_le : q.read m ≤ n + 16
  stored : Stored (q.ring m) (n + 16) (q.read m) pending (q.write m)
  room : occupied pending ≤ n

/-- An empty queue's indices are equal. -/
theorem Holds.read_eq_write (h : Holds q n m []) : q.read m = q.write m := h.stored

theorem Holds.write_le (h : Holds q n m pending) : q.write m ≤ n + 16 :=
  stored_le (by omega) h.read_le (Nat.le_trans h.room (by omega)) h.stored

/-- The distance between the indices is what the pending messages occupy. -/
theorem Holds.gap_eq (h : Holds q n m pending) :
    gap (n + 16) (q.read m) (q.write m) = occupied pending := by
  have hroom := h.room
  refine RingIndex.gap_eq h.read_le h.write_le (stored_mod h.stored).symm (by omega) fun hz => ?_
  have hstored := h.stored
  rw [occupied_eq_zero hz] at hstored
  exact hstored

/-- What `get_free_size` answers. -/
theorem Holds.getFreeSize_eq (h : Holds q n m pending) :
    q.getFreeSize m = n - occupied pending := by
  have hroom := h.room
  have hsmall := h.small
  have hkept : gap (n + 16) (q.read m) (q.write m) + 16 ≤ n + 16 := by rw [h.gap_eq]; omega
  have hfree : n + 16 - gap (n + 16) (q.read m) (q.write m) - 16 = n - occupied pending := by
    rw [h.gap_eq]; omega
  unfold getFreeSize
  rw [h.queueSize_eq]
  split
  · next hgt => exact (free_gt hgt h.read_le (by omega) hkept).trans hfree
  · next hle => exact (free_le hle h.write_le (by omega) hkept).trans hfree

/-- What `get_used_size` answers. -/
theorem Holds.getUsedSize_eq (h : Holds q n m pending) :
    q.getUsedSize m = occupied pending := by
  have hroom := h.room
  have hsmall := h.small
  have hsize : q.size m = n := by
    unfold size
    rw [h.queueSize_eq]
    exact SizeT.sub_eq (Nat.le_add_left 16 n) (by omega)
  unfold getUsedSize
  rw [h.getFreeSize_eq, hsize, SizeT.sub_eq (by omega) (by omega)]
  omega

/-! ## `init` -/

theorem allocSize_eq (h : n < 2 ^ 62) : allocSize n = n + 48 := by
  unfold allocSize sizeofHead messageQueueReverseLength queueMessageHeadLength
  rw [SizeT.add_eq (show 32 + n < 2 ^ 64 by omega), SizeT.add_eq (by omega)]
  omega

theorem realQueueSize_eq (h : n < 2 ^ 62) : SizeT.add n messageQueueReverseLength = n + 16 :=
  SizeT.add_eq (by unfold messageQueueReverseLength queueMessageHeadLength; omega)

@[simp] theorem memSize_setQueueSize (v : Nat) : q.memSize (q.setQueueSize m v) = q.memSize m :=
  loadWord_storeWord_other (by omega)

@[simp] theorem memSize_clear : q.memSize (q.clear m) = q.memSize m :=
  (loadWord_storeWord_other (by omega)).trans (loadWord_storeWord_other (by omega))

/-- `clear` puts both indices at the start of the ring and leaves the two sizes. -/
theorem clear_fields : q.queueSize (q.clear m) = q.queueSize m ∧ q.read (q.clear m) = 0 ∧
    q.write (q.clear m) = 0 := by
  unfold clear
  refine ⟨?_, ?_, write_setWrite (by omega)⟩
  · rw [queueSize_setWrite, queueSize_setRead]
  · rw [read_setWrite, read_setRead (by omega)]

/-- In mode `ESM_INIT`, and with the memory size the caller computes, `init` succeeds and
leaves an empty queue; it writes the header and nothing else. -/
theorem init_init (q : MsgQueue) (m : Memory) (pmem : Nat) (h : n < 2 ^ 62) :
    let r := init q m pmem (allocSize n) n .init
    r.ret = true ∧ r.queue = ⟨pmem, pmem + 32⟩ ∧ r.queue.memSize r.mem = allocSize n ∧
      Holds r.queue n r.mem [] ∧ r.queue.write r.mem = 0 ∧
      ∀ a, ¬(pmem ≤ a ∧ a < pmem + 32) → r.mem a = m a := by
  have halloc := allocSize_eq h
  intro r
  obtain ⟨head, hhead⟩ : ∃ head : MsgQueue, head = ⟨pmem, pmem + sizeofHead⟩ := ⟨_, rfl⟩
  obtain ⟨m₁, hm₁⟩ : ∃ m₁, m₁ = head.setQueueSize (head.setMemSize m (allocSize n))
    (SizeT.add n messageQueueReverseLength) := ⟨_, rfl⟩
  have hmem : head.memSize m₁ = allocSize n := by
    rw [hm₁, memSize_setQueueSize]
    exact loadWord_storeWord (by omega)
  have hsize : head.queueSize m₁ = n + 16 := by
    rw [hm₁, realQueueSize_eq h]
    exact loadWord_storeWord (by omega)
  have hr : r = ⟨true, head, head.clear m₁⟩ := by
    change init q m pmem (allocSize n) n .init = _
    simp [init, ← hhead, ← hm₁, hmem]
  obtain ⟨hsize', hread', hwrite'⟩ := clear_fields (q := head) (m := m₁)
  rw [hr]
  refine ⟨rfl, hhead, by rw [memSize_clear, hmem], ⟨by rw [hhead]; rfl, h, ?_, ?_, ?_, ?_⟩,
    hwrite', fun a ha => ?_⟩
  · rw [hsize', hsize]
  · rw [hread']
    omega
  · rw [hread', hwrite']
    rfl
  · exact Nat.zero_le n
  · have hpmem : head.head = pmem := by rw [hhead]
    change head.setWrite (head.setRead m₁ 0) 0 a = m a
    rw [setWrite_outside (by omega), setRead_outside (by omega), hm₁]
    exact (storeWord_outside (by omega)).trans (storeWord_outside (by omega))

/-- In mode `ESM_RESUME`, `init` compares the two sizes and writes nothing. -/
theorem init_resume (q : MsgQueue) (m : Memory) (pmem : Nat) (h : n < 2 ^ 62) :
    init q m pmem (allocSize n) n .resume =
      if (⟨pmem, pmem + 32⟩ : MsgQueue).memSize m = allocSize n ∧
          (⟨pmem, pmem + 32⟩ : MsgQueue).queueSize m = n + 16 then
        ⟨true, ⟨pmem, pmem + 32⟩, m⟩
      else ⟨false, q, m⟩ := by
  unfold init sizeofHead
  rw [realQueueSize_eq h]
  by_cases hmem : (⟨pmem, pmem + 32⟩ : MsgQueue).memSize m = allocSize n
  · by_cases hsize : (⟨pmem, pmem + 32⟩ : MsgQueue).queueSize m = n + 16
    · simp [hmem, hsize]
    · simp [hmem, hsize]
  · simp [hmem]

/-! ## `append` -/

/-- The spans of a body of `len` bytes from `h`: one, or two when it wraps. -/
def bodySpans (Q h len : Nat) : List Span :=
  if h + len > Q then [⟨h, Q - h⟩, ⟨0, len - (Q - h)⟩] else [⟨h, len⟩]

/-- An accepted `append`, in closed form: the header by the loop, the body by one ring copy,
and the index at the end of the message. -/
theorem append_eq {Q len : Nat} {pmsg : Nat → UInt8} (hq : q.Placed)
    (hsize : q.queueSize m = Q) (hQ : 16 ≤ Q) (hlarge : Q < 2 ^ 63) (hlen : len ≤ Q)
    (hw : q.write m ≤ Q)
    (hfree : ¬q.getFreeSize m < SizeT.add len queueMessageHeadLength) :
    q.append m pmsg len =
      ⟨true,
        q.setWrite (ringCopy
          (q.setWrite (q.putHead (byteOf len) 8 0 (q.write m) m).mem ((q.write m + 8) % Q))
          q.msgBase Q ((q.write m + 8) % Q) pmsg len) (next Q (q.write m) len),
        (q.putHead (byteOf len) 8 0 (q.write m) m).spans ++
          bodySpans Q ((q.write m + 8) % Q) len⟩ := by
  obtain ⟨hwrite, -, -, hout⟩ :=
    putHead_spec (byteOf len) 0 hq hw (by omega) (by omega) (show 8 ≤ Q by omega) hsize
  rw [cell_pos (by omega)] at hwrite
  have hh : (q.write m + 8) % Q < Q := Nat.mod_lt _ (by omega)
  -- the loop leaves the header's fields
  obtain ⟨hsize₁, -, hwrite₁⟩ := fields_congr (q := q) (m := m)
    (q.putHead (byteOf len) 8 0 (q.write m) m).mem fun a hlo hhi =>
      hout a fun d _ => by unfold Placed at hq; omega
  rw [append, if_neg hfree, putMessage]
  simp only [queueMessageHeadLength, hwrite, queueSize_setWrite, hsize₁, hsize, hwrite₁]
  rw [SizeT.add_eq (show q.write m + 8 < 2 ^ 64 by omega), SizeT.add_eq (by omega),
    write_setWrite (by omega), SizeT.sub_eq (Nat.le_of_lt hh) (by omega)]
  unfold ringCopy next bodySpans
  split
  · next hwrap =>
    rw [SizeT.sub_eq (by omega) (by omega),
      show (q.write m + 8) % Q + len - Q = len - (Q - (q.write m + 8) % Q) by omega]
  · next hfit =>
    rw [(fields_copy (by unfold Placed at hq; omega)).2.2, write_setWrite (by omega),
      SizeT.add_eq (by omega)]

/-- The bytes an accepted `append` of `len` bytes may change: `write_`, and the run's cells. -/
def appendTouches (q : MsgQueue) (Q w len a : Nat) : Prop :=
  (q.head + 24 ≤ a ∧ a < q.head + 32) ∨ ∃ d < 8 + len, a = q.msgBase + cell Q w d

/-- An accepted `append` stores the message's bytes in the run from `write_`, and changes
nothing but the run and the index. -/
theorem append_mem (pmsg : Nat → UInt8) {Q len : Nat} (hq : q.Placed)
    (hsize : q.queueSize m = Q) (hQ : 16 ≤ Q) (hlarge : Q < 2 ^ 63) (hlen : 8 + len ≤ Q)
    (hw : q.write m ≤ Q)
    (hfree : ¬q.getFreeSize m < SizeT.add len queueMessageHeadLength) :
    q.write (q.append m pmsg len).mem = next Q (q.write m) len ∧
      FrameAt (q.ring (q.append m pmsg len).mem) Q (q.write m) (slice pmsg 0 len) ∧
      ∀ a, ¬q.appendTouches Q (q.write m) len a → (q.append m pmsg len).mem a = m a := by
  obtain ⟨-, -, hin, hout⟩ :=
    putHead_spec (byteOf len) 0 hq hw (by omega) (by omega) (show 8 ≤ Q by omega) hsize
  have hh : (q.write m + 8) % Q < Q := Nat.mod_lt _ (by omega)
  have hnext : next Q (q.write m) len ≤ Q := next_le (by omega) (by omega)
  have hbody : ∀ d, ((q.write m + 8) % Q + d) % Q = cell Q (q.write m) (8 + d) := fun d => by
    rw [cell_pos (by omega), Nat.mod_add_mod, Nat.add_assoc]
  rw [append_eq hq hsize hQ hlarge (by omega) hw hfree]
  refine ⟨write_setWrite (by omega), ?_, ?_⟩
  · rw [ring_setWrite hq]
    intro d hd
    rw [slice_length] at hd
    unfold ring frameByte
    rw [slice_length]
    split
    · next hlt =>
      -- a header byte: the body's cells are later cells of the same run
      rw [ringCopy_outside hh (by omega) fun d' hd' heq => ?_]
      · refine (congrFun (ring_setWrite hq _) _).trans ?_
        rw [show q.ring (q.putHead (byteOf len) 8 0 (q.write m) m).mem (cell Q (q.write m) d) =
          byteOf len (0 + d) from hin d hlt, Nat.zero_add]
      · rw [hbody] at heq
        have := cell_inj (Nat.add_left_cancel heq) (by omega) (by omega)
        omega
    · next hge =>
      obtain ⟨k, rfl⟩ := Nat.exists_eq_add_of_le (Nat.le_of_not_lt hge)
      rw [← hbody, ringCopy_inside hh (by omega) (by omega), Nat.add_sub_cancel_left,
        slice_getD (by omega), Nat.zero_add]
  · intro a ha
    unfold appendTouches at ha
    push Not at ha
    obtain ⟨hindex, hcells⟩ := ha
    have hmiss : ¬(q.head + 24 ≤ a ∧ a < q.head + 32) := by omega
    refine (setWrite_outside hmiss).trans ?_
    rw [ringCopy_outside hh (by omega) fun d hd => by rw [hbody]; exact hcells (8 + d) (by omega),
      setWrite_outside hmiss]
    exact hout a fun d hd => hcells d (by omega)

/-- A message whose cost fits is accepted and becomes the last one pending. -/
theorem Holds.append_fits (h : Holds q n m pending) (pmsg : Nat → UInt8) {len : Nat}
    (hfit : occupied pending + (8 + len) ≤ n) :
    (q.append m pmsg len).ret = true ∧
      Holds q n (q.append m pmsg len).mem (pending ++ [slice pmsg 0 len]) := by
  have hsmall := h.small
  have hq := h.placed
  have hfree : ¬q.getFreeSize m < SizeT.add len queueMessageHeadLength := by
    rw [h.getFreeSize_eq, queueMessageHeadLength, SizeT.add_eq (by omega)]
    omega
  obtain ⟨hwrite, hframe, hout⟩ :=
    append_mem pmsg hq h.queueSize_eq (by omega) (by omega) (by omega) h.write_le hfree
  have hfield : ∀ a, q.head + 8 ≤ a → a < q.head + 24 → (q.append m pmsg len).mem a = m a := by
    intro a hlo hhi
    apply hout
    rintro (hindex | ⟨d, -, hcell⟩)
    · omega
    · unfold Placed at hq; omega
  have hread : q.read (q.append m pmsg len).mem = q.read m :=
    loadWord_congr fun a hlo hhi => hfield a (by omega) (by omega)
  refine ⟨by rw [append_eq hq h.queueSize_eq (by omega) (by omega) (by omega) h.write_le hfree],
    hq, h.small, ?_, by rw [hread]; exact h.read_le, ?_, ?_⟩
  · rw [← h.queueSize_eq]
    exact loadWord_congr fun a hlo hhi => hfield a (by omega) (by omega)
  · have hold : Stored (q.ring (q.append m pmsg len).mem) (n + 16) (q.read m) pending
        (q.write m) := stored_congr (by omega) h.read_le (by omega) ?_ h.stored
    · have hnew := stored_snoc hold hframe
      rwa [slice_length, ← hwrite, ← hread] at hnew
    -- the new run starts where the old messages end, so it shares no cell with them
    intro c hc d hd hmod
    apply hout
    rintro (hindex | ⟨d', hd', hcell⟩)
    · unfold Placed at hq; omega
    · have hcell' : c = cell (n + 16) (q.write m) d' := Nat.add_left_cancel hcell
      have hapart : cell (n + 16) (q.write m) d' % (n + 16) ≠ (q.read m + d) % (n + 16) :=
        cell_mod_ne (stored_mod h.stored) hd (by omega)
      exact hapart (hcell' ▸ hmod)
  · rw [occupied_append, occupied_cons, occupied_nil, slice_length]
    omega

/-- A message whose cost does not fit is rejected. -/
theorem Holds.append_full (h : Holds q n m pending) {pmsg : Nat → UInt8} {len : Nat}
    (hlen : len + 8 < 2 ^ 64) (hfull : ¬occupied pending + (8 + len) ≤ n) :
    q.append m pmsg len = ⟨false, m, []⟩ := by
  have hroom := h.room
  unfold append
  rw [if_pos]
  rw [h.getFreeSize_eq, queueMessageHeadLength, SizeT.add_eq hlen]
  omega

theorem putMessage_ret {pmsg : Nat → UInt8} {len : Nat} :
    (q.putMessage m pmsg len).ret = true := by
  unfold putMessage
  dsimp only
  split <;> rfl

/-- A rejected message changes no byte, and no byte of the ring was read. -/
theorem append_false {pmsg : Nat → UInt8} {len : Nat} (h : (q.append m pmsg len).ret = false) :
    (q.append m pmsg len).mem = m ∧ (q.append m pmsg len).spans = [] := by
  unfold append at h ⊢
  split at h
  · next hfull => rw [if_pos hfull]; exact ⟨rfl, rfl⟩
  · rw [putMessage_ret] at h
    cases h

/-! ## `pop` -/

/-- `pop` with less than a message in the ring. -/
theorem pop_small {buf : Memory} {cap : Nat}
    (h : minMessageChunkSize > q.getUsedSize m ∨
      SizeT.add queueMessageHeadLength (q.getMsgLength m) > q.getUsedSize m) :
    q.pop m buf cap = ⟨false, m, buf, cap, q.headSpans m⟩ := if_pos h

/-- `pop` with a buffer shorter than the message. -/
theorem pop_short {buf : Memory} {cap : Nat} (h : q.getMsgLength m > cap) :
    q.pop m buf cap = ⟨false, m, buf, cap, q.headSpans m⟩ := by
  unfold pop
  rw [if_pos h]
  split <;> rfl

/-- `pop` past both checks. -/
theorem pop_take {buf : Memory} {cap : Nat}
    (hused : ¬(minMessageChunkSize > q.getUsedSize m ∨
      SizeT.add queueMessageHeadLength (q.getMsgLength m) > q.getUsedSize m))
    (hcap : ¬q.getMsgLength m > cap) :
    q.pop m buf cap = q.takeMessage m buf (q.getMsgLength m) :=
  (if_neg hused).trans (if_neg hcap)

theorem takeMessage_ret {buf : Memory} {len : Nat} : (q.takeMessage m buf len).ret = true := by
  unfold takeMessage
  dsimp only
  split <;> rfl

theorem takeMessage_msgLength {buf : Memory} {len : Nat} :
    (q.takeMessage m buf len).msgLength = len := by
  unfold takeMessage
  dsimp only
  split <;> rfl

/-- A refused `pop` changes no byte of the memory or of the caller's buffer, and not the
caller's length. -/
theorem pop_false {buf : Memory} {cap : Nat} (h : (q.pop m buf cap).ret = false) :
    (q.pop m buf cap).mem = m ∧ (q.pop m buf cap).buf = buf ∧
      (q.pop m buf cap).msgLength = cap := by
  by_cases hsmall : minMessageChunkSize > q.getUsedSize m ∨
      SizeT.add queueMessageHeadLength (q.getMsgLength m) > q.getUsedSize m
  · rw [pop_small hsmall]
    exact ⟨rfl, rfl, rfl⟩
  · by_cases hshort : q.getMsgLength m > cap
    · rw [pop_short hshort]
      exact ⟨rfl, rfl, rfl⟩
    · rw [pop_take hsmall hshort, takeMessage_ret] at h
      cases h

/-- The caller's length never grows. -/
theorem pop_msgLength_le (q : MsgQueue) (m buf : Memory) (cap : Nat) :
    (q.pop m buf cap).msgLength ≤ cap := by
  by_cases hsmall : minMessageChunkSize > q.getUsedSize m ∨
      SizeT.add queueMessageHeadLength (q.getMsgLength m) > q.getUsedSize m
  · rw [pop_small hsmall]
  · by_cases hshort : q.getMsgLength m > cap
    · rw [pop_short hshort]
    · rw [pop_take hsmall hshort, takeMessage_msgLength]
      exact Nat.le_of_not_lt hshort

/-- The length read from the ring is the front message's. -/
theorem Holds.getMsgLength_eq {x : Message} {xs : List Message}
    (h : Holds q n m (x :: xs)) : q.getMsgLength m = x.length := by
  have hsmall := h.small
  have hroom := h.room
  rw [occupied_cons] at hroom
  unfold getMsgLength
  simp only [queueMessageHeadLength, h.queueSize_eq]
  rw [headOffsets_eq h.read_le (by omega) (by omega), List.map_map,
    ← frame_length h.stored.1 (by omega)]
  exact ofBytes_congr fun d hd => by
    rw [ofList, List.getD_eq_getElem?_getD, List.getElem?_map, List.getElem?_range hd]
    rfl

/-- What `pop` computes when it delivers: the front message in the buffer, and `read_` at its
end. -/
theorem Holds.pop_front {x : Message} {xs : List Message} {buf : Memory} {cap : Nat}
    (h : Holds q n m (x :: xs)) (hchunk : ¬(x = [] ∧ xs = [])) (hcap : ¬cap < x.length) :
    q.pop m buf cap =
      ⟨true,
        q.setRead (q.setRead m ((q.read m + 8) % (n + 16))) (next (n + 16) (q.read m) x.length),
        ringFetch m q.msgBase (n + 16) ((q.read m + 8) % (n + 16)) buf x.length, x.length,
        q.headSpans m ++ bodySpans (n + 16) ((q.read m + 8) % (n + 16)) x.length⟩ := by
  have hsmall := h.small
  have hroom := h.room
  have hread := h.read_le
  rw [occupied_cons] at hroom
  have hh : (q.read m + 8) % (n + 16) < n + 16 := Nat.mod_lt _ (by omega)
  have hused : ¬(minMessageChunkSize > q.getUsedSize m ∨
      SizeT.add queueMessageHeadLength (q.getMsgLength m) > q.getUsedSize m) := by
    rw [h.getUsedSize_eq, h.getMsgLength_eq, minMessageChunkSize, queueMessageHeadLength,
      SizeT.add_eq (by omega), occupied_cons]
    rintro (hmin | hbody)
    · exact hchunk ⟨List.eq_nil_of_length_eq_zero (by omega), occupied_eq_zero (by omega)⟩
    · omega
  have hring : q.ring (q.setRead m ((q.read m + 8) % (n + 16))) = q.ring m :=
    ring_setRead h.placed _
  have hbyte : ∀ c, q.setRead m ((q.read m + 8) % (n + 16)) (q.msgBase + c) = m (q.msgBase + c) :=
    congrFun hring
  rw [pop_take hused (by rw [h.getMsgLength_eq]; exact hcap), h.getMsgLength_eq, takeMessage,
    skipHead_eq (by rw [h.queueSize_eq]; exact hread) (by rw [h.queueSize_eq]; omega)
    (by rw [h.queueSize_eq]; omega)]
  simp only [queueMessageHeadLength, queueSize_setRead, h.queueSize_eq]
  rw [cell_pos (by omega), SizeT.add_eq (show q.read m + 8 < 2 ^ 64 by omega),
    SizeT.add_eq (by omega), read_setRead (by omega), SizeT.sub_eq (Nat.le_of_lt hh) (by omega)]
  unfold ringFetch next bodySpans
  simp only [Nat.add_assoc, hbyte]
  split
  · next hwrap =>
    rw [SizeT.sub_eq (by omega) (by omega),
      show (q.read m + 8) % (n + 16) + x.length - (n + 16) =
        x.length - (n + 16 - (q.read m + 8) % (n + 16)) by omega]
  · next hfit => rw [SizeT.add_eq (by omega)]

/-- After a delivery the rest is pending, and the caller's buffer starts with the message. -/
theorem Holds.pop_delivers {x : Message} {xs : List Message} {cap : Nat}
    (h : Holds q n m (x :: xs)) (buf : Memory) (hchunk : ¬(x = [] ∧ xs = [])) (hcap : ¬cap < x.length) :
    (q.pop m buf cap).ret = true ∧ (q.pop m buf cap).msgLength = x.length ∧
      slice (q.pop m buf cap).buf 0 (q.pop m buf cap).msgLength = x ∧
      Holds q n (q.pop m buf cap).mem xs := by
  have hsmall := h.small
  have hroom := h.room
  rw [occupied_cons] at hroom
  have hnext : next (n + 16) (q.read m) x.length ≤ n + 16 := next_le (by omega) (by omega)
  rw [h.pop_front hchunk hcap]
  refine ⟨rfl, rfl, ?_, h.placed, h.small, ?_, ?_, ?_, ?_⟩
  · rw [slice_ringFetch (Nat.mod_lt _ (by omega)) (by omega)]
    simp only [Nat.mod_add_mod]
    exact frame_body h.stored.1
  · rw [queueSize_setRead, queueSize_setRead]
    exact h.queueSize_eq
  · rw [read_setRead (by omega)]
    exact hnext
  · rw [ring_setRead h.placed, ring_setRead h.placed, read_setRead (by omega), write_setRead,
      write_setRead]
    exact h.stored.2
  · omega

/-- An empty queue, a lone empty message and a short buffer are refused. -/
theorem Holds.pop_refuses {cap : Nat} (h : Holds q n m pending) (buf : Memory)
    (hfront : ∀ x xs, pending = x :: xs → (x = [] ∧ xs = []) ∨ cap < x.length) :
    (q.pop m buf cap).ret = false := by
  have hused := h.getUsedSize_eq
  cases pending with
  | nil =>
    rw [pop_small (.inl _)]
    rw [hused, occupied_nil]
    decide
  | cons x xs =>
    rcases hfront x xs rfl with ⟨rfl, rfl⟩ | hcap
    · rw [pop_small (.inl _)]
      rw [hused]
      decide
    · rw [pop_short (by rw [h.getMsgLength_eq]; exact hcap)]

end MmDriver.MsgQueue

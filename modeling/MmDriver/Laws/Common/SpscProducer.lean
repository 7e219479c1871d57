import MmDriver.Laws.Common.SpscInv

/-!
# The producer keeps its contract

An outline of `append`: what the producer knows before each of its accesses, whatever the
consumer does in between. The free space it computes is a lower bound that only the consumer's
progress can make larger (`Idle`); after that, each byte it puts extends the message's run by
one cell (`Writing`), and the two stores to `write_` move the invariant over the message.
-/

namespace MmDriver.MsgQueueSteps

open ByteMem RingIndex MsgFifo MsgRing RelyGuarantee
open MsgQueue (queueMessageHeadLength messageQueueReverseLength)

variable {n : Nat} {s s' : Shared} {done : List Message} {x : Message}

/-- Between two messages, with room for `k` bytes behind the live ones. -/
structure Idle (n : Nat) (done : List Message) (k : Nat) (s : Shared) : Prop where
  inv : Inv n s
  publishing_eq : s.publishing = none
  appended_eq : s.appended = done
  room : occupied s.live + k ≤ n + s.released

/-- Inside an `append` of `x` that has room, with the first `i` bytes of its run written. -/
structure Writing (n : Nat) (done : List Message) (x : Message) (publishing : Option Message)
    (i : Nat) (s : Shared) : Prop where
  inv : Inv n s
  publishing_eq : s.publishing = publishing
  appended_eq : s.appended = done
  room : occupied s.live + (8 + x.length) ≤ n + s.released
  bytes : ∀ d < i, s.ring (cell (n + 16) (after (n + 16) 0 done) d) = frameByte x d

theorem Idle.stable {k : Nat} (hstep : ConsumerStep n s s') (h : Idle n done k s) :
    Idle n done k s' :=
  ⟨hstep.inv h.inv, hstep.publishing_eq.trans h.publishing_eq,
    hstep.appended_eq.trans h.appended_eq, hstep.room k h.room⟩

theorem Writing.stable {p : Option Message} {i : Nat} (hstep : ConsumerStep n s s')
    (h : Writing n done x p i s) : Writing n done x p i s' := by
  refine ⟨hstep.inv h.inv, hstep.publishing_eq.trans h.publishing_eq,
    hstep.appended_eq.trans h.appended_eq, hstep.room _ h.room, fun d hd => ?_⟩
  rw [hstep.ring_eq]
  exact h.bytes d hd

/-- `write_` is at the end of what was appended. -/
theorem Idle.write_eq {k : Nat} (h : Idle n done k s) : s.write = after (n + 16) 0 done := by
  rw [h.inv.write_eq, h.publishing_eq, ← h.appended_eq]
  rfl

theorem Writing.back_eq {p : Option Message} {i : Nat} (h : Writing n done x p i s) :
    s.back n = after (n + 16) 0 done := by
  rw [← h.appended_eq]
  rfl

theorem Writing.length_lt {p : Option Message} {i : Nat} (h : Writing n done x p i s) :
    x.length ≤ n := by
  have hroom := h.room
  have hrel : s.released ≤ 8 := by
    unfold Shared.released
    split <;> omega
  omega

/-- A load of the producer that asks for no condition keeps every assertion. -/
theorem producer_load {c : Counter} {arm : Option Bool} {P : Shared → Prop}
    (hstable : ∀ s s', ConsumerStep n s s' → P s → P s') :
    Safe perform (producerParty n) (fun v s => P s ∧ (c = .write → v = s.write)) (load c arm) P := by
  refine Safe.step hstable fun s hs _ => ?_
  cases c with
  | read => exact ⟨⟨.refl n s, trivial⟩, hs, fun h => nomatch h⟩
  | write => exact ⟨⟨.refl n s, trivial⟩, hs, fun _ => rfl⟩

/-! ## The free space -/

/-- What the producer knows once it has loaded `read_` in the arm it chose: the free space it
is about to compute is there. -/
structure SeenRead (n : Nat) (done : List Message) (arm : Bool) (r : Nat) (s : Shared) : Prop where
  choice : (r > s.write) ↔ arm = true
  read_le : r ≤ n + 16
  gap_le : gap (n + 16) r s.write ≤ n
  idle : Idle n done (n - gap (n + 16) r s.write) s

theorem SeenRead.stable {arm : Bool} {r : Nat} (hstep : ConsumerStep n s s')
    (h : SeenRead n done arm r s) : SeenRead n done arm r s' := by
  obtain ⟨hchoice, hread, hgap, hidle⟩ := h
  rw [← hstep.write_eq] at hchoice hgap hidle
  exact ⟨hchoice, hread, hgap, hidle.stable hstep⟩

/-- The load of `read_` in an arm, under the condition. -/
theorem producer_loadRead (n : Nat) (done : List Message) (arm : Bool) {P : Shared → Prop}
    (hstable : ∀ s s', ConsumerStep n s s' → P s → P s') (hidle : ∀ s, P s → Idle n done 0 s) :
    Safe perform (producerParty n) (fun r s => SeenRead n done arm r s ∧ P s)
      (load .read (some arm)) P := by
  refine Safe.step hstable fun s hs hcond => ⟨⟨.refl n s, trivial⟩, ?_, hs⟩
  have h := hidle s hs
  have hgap := h.inv.gap_eq
  have hle := h.inv.gap_le
  have hroom := h.room
  have hpub : s.published = 0 := by rw [Shared.published, h.publishing_eq]; rfl
  exact ⟨hcond, h.inv.read_le, hle, h.inv, h.publishing_eq, h.appended_eq,
    show occupied s.live + (n - gap (n + 16) s.read s.write) ≤ n + s.released by omega⟩

/-- What `get_free_size` answers the producer is free, and stays free. -/
theorem producer_getFreeSize (hn : n < 2 ^ 62) (done : List Message) :
    Safe perform (producerParty n) (fun f s => Idle n done f s) (getFreeSize (n + 16))
      (Idle n done 0) := by
  have hidle : ∀ s s', ConsumerStep n s s' → Idle n done 0 s → Idle n done 0 s' :=
    fun _ _ hstep h => h.stable hstep
  refine Safe.bind (producer_load hidle) fun r₁ => ?_
  refine Safe.bind (Safe.pre (producer_load hidle) fun s hs => hs.1) fun w₁ => ?_
  split
  · refine Safe.bind (Safe.pre (producer_loadRead n done true hidle fun _ h => h)
      fun s hs => hs.1) fun r => ?_
    refine Safe.bind (Safe.pre (producer_load fun _ _ hstep h => SeenRead.stable hstep h)
      fun s hs => hs.1) fun w => Safe.ret fun s hs => ?_
    obtain ⟨h, hw⟩ := hs
    have hfree : SizeT.sub (SizeT.sub r s.write) 16 = _ :=
      MsgQueue.free_gt (h.choice.mpr rfl) h.read_le (by omega) (by have := h.gap_le; omega)
    rw [hw rfl]
    change Idle n done (SizeT.sub (SizeT.sub r s.write) 16) s
    rw [hfree, show n + 16 - gap (n + 16) r s.write - 16 = n - gap (n + 16) r s.write by omega]
    exact h.idle
  · have hkept : ∀ w s s', ConsumerStep n s s' → (Idle n done 0 s ∧ w = s.write) →
        Idle n done 0 s' ∧ w = s'.write :=
      fun w _ _ hstep h => ⟨h.1.stable hstep, h.2.trans hstep.write_eq.symm⟩
    refine Safe.bind (Safe.pre (producer_load hidle) fun s hs => hs.1) fun w => ?_
    refine Safe.bind (Safe.pre (producer_loadRead n done false (hkept w) fun _ h => h.1)
      fun s hs => ⟨hs.1, hs.2 rfl⟩) fun r => Safe.ret fun s hs => ?_
    obtain ⟨h, -, hw⟩ := hs
    have hwrite := h.idle.inv.write_le
    have hle : ¬r > s.write := fun hgt => Bool.false_ne_true (h.choice.mp hgt)
    have hfree : SizeT.sub (SizeT.add (SizeT.sub (n + 16) s.write) r) 16 = _ :=
      MsgQueue.free_le hle hwrite (by omega) (by have := h.gap_le; omega)
    rw [hw]
    change Idle n done (SizeT.sub (SizeT.add (SizeT.sub (n + 16) s.write) r) 16) s
    rw [hfree, show n + 16 - gap (n + 16) r s.write - 16 = n - gap (n + 16) r s.write by omega]
    exact h.idle

/-! ## The bytes -/

/-- One byte of the message, put at its cell. -/
theorem producer_putCell {p : Option Message} {i : Nat} (hi : i < 8 + x.length) :
    Safe perform (producerParty n) (fun _ s => Writing n done x p (i + 1) s)
      (putByte (cell (n + 16) (after (n + 16) 0 done) i) (frameByte x i))
      (Writing n done x p i) := by
  refine Safe.step (fun _ _ hstep h => h.stable hstep) fun s h _ => ?_
  have hroom := h.room
  have hrel : s.released ≤ 8 := by
    unfold Shared.released
    split <;> omega
  have hclear : ∀ d < occupied s.live,
      cell (n + 16) (after (n + 16) 0 done) i % (n + 16) ≠ (s.front n + d) % (n + 16) := by
    intro d hd
    rw [← h.back_eq]
    exact h.inv.cell_free hd hi h.room
  refine ⟨⟨⟨rfl, rfl, rfl, List.prefix_rfl, fun hinv => hinv.putByte hclear⟩, hclear⟩,
    h.inv.putByte hclear, h.publishing_eq, h.appended_eq, h.room, fun d hd => ?_⟩
  by_cases hdi : d = i
  · subst hdi
    exact Function.update_self _ _ _
  · refine (Function.update_of_ne (fun heq => hdi ?_) _ _).trans (h.bytes d (by omega))
    exact cell_inj heq (by omega) (by omega)

/-- The header loop. -/
theorem producer_putHead (hn : n < 2 ^ 62) {left i : Nat} (hi : i + left = 8) :
    Safe perform (producerParty n)
      (fun w s => w = cell (n + 16) (after (n + 16) 0 done) 8 ∧ Writing n done x none 8 s)
      (putHead (n + 16) (byteOf x.length) left i (cell (n + 16) (after (n + 16) 0 done) i))
      (fun s => after (n + 16) 0 done ≤ n + 16 ∧ Writing n done x none i s) := by
  induction left generalizing i with
  | zero =>
    obtain rfl : i = 8 := by omega
    exact Safe.ret fun s hs => ⟨rfl, hs.2⟩
  | succ left ih =>
    refine Safe.fact fun hle => ?_
    have hbyte : byteOf x.length i = frameByte x i := by rw [frameByte, if_pos (by omega)]
    have hcell : cell (n + 16) (after (n + 16) 0 done) i ≤ n + 16 := cell_le (by omega) hle
    have hnext : SizeT.add (cell (n + 16) (after (n + 16) 0 done) i) 1 % (n + 16) =
        cell (n + 16) (after (n + 16) 0 done) (i + 1) := by
      rw [SizeT.add_eq (by omega), cell_next]
    rw [putHead, hbyte, hnext]
    exact Safe.bind (producer_putCell (by omega)) fun _ =>
      (ih (by omega)).pre fun s hs => ⟨hle, hs⟩

/-- One piece of the body: a run of bytes that does not go past the end of the ring. -/
theorem producer_copyIn {left off j : Nat} (hoff : off + left ≤ n + 16)
    (hmod : off % (n + 16) = (after (n + 16) 0 done + 8 + j) % (n + 16))
    (hj : j + left ≤ x.length) :
    Safe perform (producerParty n) (fun _ s => Writing n done x (some x) (8 + (j + left)) s)
      (copyIn (ofList x) left off j) (Writing n done x (some x) (8 + j)) := by
  induction left generalizing off j with
  | zero => exact Safe.ret fun s hs => hs
  | succ left ih =>
    have hbyte : ofList x j = frameByte x (8 + j) := by
      rw [frameByte, if_neg (by omega), Nat.add_sub_cancel_left, ofList]
    have hcell : off = cell (n + 16) (after (n + 16) 0 done) (8 + j) := by
      rw [cell_pos (by omega), ← Nat.add_assoc, ← hmod, Nat.mod_eq_of_lt (by omega)]
    have hnext : (off + 1) % (n + 16) = (after (n + 16) 0 done + 8 + (j + 1)) % (n + 16) := by
      rw [← Nat.mod_add_mod, hmod, Nat.mod_add_mod, Nat.add_assoc _ j 1]
    rw [copyIn, hbyte]
    nth_rewrite 1 [hcell]
    refine Safe.bind (producer_putCell (by omega)) fun _ => ?_
    rw [show j + (left + 1) = (j + 1) + left by omega]
    exact ih (by omega) hnext (by omega)

/-! ## The stores -/

/-- The store that publishes the header. -/
theorem producer_publish (hx : 1 ≤ x.length) :
    Safe perform (producerParty n) (fun _ s => Writing n done x (some x) 8 s)
      (storeWrite ((after (n + 16) 0 done + 8) % (n + 16)) (some x))
      (Writing n done x none 8) := by
  refine Safe.step (fun _ _ hstep h => h.stable hstep) fun s h _ => ?_
  rw [← h.back_eq]
  have hkeep : Inv n s → Inv n { s with write := (s.back n + 8) % (n + 16), publishing := some x } :=
    fun hinv => hinv.publish h.room ⟨hx, h.length_lt⟩
  refine ⟨⟨⟨rfl, rfl, rfl, List.prefix_rfl, hkeep⟩, trivial⟩, hkeep h.inv, rfl, h.appended_eq,
    h.room, ?_⟩
  exact h.bytes

/-- The store that finishes the message. -/
theorem producer_finish :
    Safe perform (producerParty n) (fun _ s => ∃ done, Idle n done 0 s)
      (storeWrite (next (n + 16) (after (n + 16) 0 done) x.length) none)
      (Writing n done x (some x) (8 + x.length)) := by
  refine Safe.step (fun _ _ hstep h => h.stable hstep) fun s h _ => ?_
  rw [← h.back_eq]
  have hpub := h.publishing_eq
  have hframe : FrameAt s.ring (n + 16) (s.back n) x := by
    intro d hd
    rw [h.back_eq]
    exact h.bytes d hd
  have hstate : (perform (.storeWrite (next (n + 16) (s.back n) x.length) none) s).1 =
      { s with write := next (n + 16) (s.back n) x.length, publishing := none,
               appended := s.appended ++ [x] } := by
    simp [perform, hpub]
  rw [hstate]
  have hnext := h.inv.finish hpub hframe
  have hroom := hnext.room
  rw [Option.toList_none, occupied_nil] at hroom
  exact ⟨⟨⟨rfl, rfl, rfl, List.prefix_append _ _, fun _ => hnext⟩, trivial⟩,
    _, hnext, rfl, rfl, hroom⟩

/-! ## The body -/

/-- A load of `write_` inside an `append`, once the header is published. -/
theorem producer_published {i : Nat} :
    Safe perform (producerParty n)
      (fun w s => w = (after (n + 16) 0 done + 8) % (n + 16) ∧ Writing n done x (some x) i s)
      (load .write none) (Writing n done x (some x) i) := by
  refine Safe.post (producer_load fun _ _ hstep h => h.stable hstep) fun w s hs => ⟨?_, hs.1⟩
  rw [hs.2 rfl, hs.1.inv.write_eq, hs.1.publishing_eq, ← hs.1.back_eq]
  rfl

/-- The body, in one piece or two. -/
theorem producer_putBody (hn : n < 2 ^ 62) (hlen : x.length ≤ n) :
    Safe perform (producerParty n) (fun _ s => ∃ done, Idle n done 0 s)
      (putBody (n + 16) x ((after (n + 16) 0 done + 8) % (n + 16)))
      (Writing n done x (some x) 8) := by
  have hh := Nat.mod_lt (after (n + 16) 0 done + 8) (show 0 < n + 16 by omega)
  have hfinish := @producer_finish n done x
  unfold next at hfinish
  unfold putBody
  rw [SizeT.add_eq (by omega)]
  split
  · next hwrap =>
    rw [if_pos hwrap] at hfinish
    refine Safe.bind producer_published fun w => Safe.fact fun hw => ?_
    subst hw
    rw [SizeT.sub_eq (Nat.le_of_lt hh) (by omega)]
    dsimp only
    rw [SizeT.sub_eq (by omega) (by omega)]
    generalize hfirst : n + 16 - (after (n + 16) 0 done + 8) % (n + 16) = first
    -- the first piece ends at the end of the ring, so the second starts at offset 0
    have hwhole : 0 % (n + 16) = (after (n + 16) 0 done + 8 + first) % (n + 16) := by
      rw [← Nat.mod_add_mod, show (after (n + 16) 0 done + 8) % (n + 16) + first = n + 16 by omega,
        Nat.mod_self, Nat.zero_mod]
    refine Safe.bind (producer_copyIn (j := 0) (by omega) (by simp) (by omega)) fun _ => ?_
    rw [Nat.zero_add]
    refine Safe.bind (producer_copyIn (by omega) hwhole (by omega)) fun _ => ?_
    rw [show first + (x.length - first) = x.length by omega,
      show x.length - first = (after (n + 16) 0 done + 8) % (n + 16) + x.length - (n + 16) by omega]
    exact hfinish
  · next hfit =>
    rw [if_neg hfit] at hfinish
    refine Safe.bind (producer_copyIn (j := 0) (by omega) (by simp) (by omega)) fun _ => ?_
    refine Safe.bind producer_published fun w => Safe.fact fun hw => ?_
    subst hw
    rw [SizeT.add_eq (by omega), Nat.zero_add]
    exact hfinish

/-! ## The program -/

/-- A load of `write_` inside an `append`, before the header is published. -/
theorem producer_boundary {i : Nat} :
    Safe perform (producerParty n)
      (fun w s => (w = after (n + 16) 0 done ∧ after (n + 16) 0 done ≤ n + 16) ∧
        Writing n done x none i s)
      (load .write none) (Writing n done x none i) := by
  refine Safe.post (producer_load fun _ _ hstep h => h.stable hstep) fun w s hs => ⟨⟨?_, ?_⟩, hs.1⟩
  · rw [hs.2 rfl, hs.1.inv.write_eq, hs.1.publishing_eq, ← hs.1.back_eq]
    rfl
  · rw [← hs.1.back_eq]
    exact hs.1.inv.back_le

/-- `append`, from one message boundary to another. -/
theorem producer_append (hn : n < 2 ^ 62) (hx : 1 ≤ x.length) (hlen : x.length < 2 ^ 62) :
    Safe perform (producerParty n) (fun _ s => ∃ done, Idle n done 0 s) (append (n + 16) x)
      (Idle n done 0) := by
  refine Safe.bind (producer_getFreeSize hn done) fun free => ?_
  rw [queueMessageHeadLength, SizeT.add_eq (by omega)]
  split
  · exact Safe.ret fun s h => ⟨done, h.inv, h.publishing_eq, h.appended_eq,
      Nat.le_trans (by omega) h.room⟩
  · next hfree =>
    have hroom : ∀ s, Idle n done free s → Writing n done x none 0 s := fun s h =>
      ⟨h.inv, h.publishing_eq, h.appended_eq, Nat.le_trans (by omega) h.room,
        fun d hd => absurd hd (Nat.not_lt_zero d)⟩
    refine Safe.bind (Safe.pre producer_boundary hroom) fun w => Safe.fact fun hw => ?_
    obtain ⟨rfl, hle⟩ := hw
    -- the header: the run's first cell is the boundary itself
    refine Safe.bind (Safe.pre (producer_putHead hn (by omega)) fun s h => ⟨hle, h⟩) fun w =>
      Safe.fact fun hw => ?_
    subst hw
    refine Safe.bind producer_boundary fun w => Safe.fact fun hw => ?_
    obtain ⟨rfl, -⟩ := hw
    rw [SizeT.add_eq (by omega), cell_pos (by omega)]
    refine Safe.bind (producer_publish hx) fun _ => ?_
    refine Safe.bind (Safe.pre (Safe.fact fun hfits => producer_putBody hn hfits)
      fun s h => ⟨h.length_lt, h⟩) fun _ => Safe.ret fun s h => h

/-- The producer keeps its contract over any messages. -/
theorem producer_safe (hn : n < 2 ^ 62) {msgs : List Message}
    (hmsgs : ∀ x ∈ msgs, 1 ≤ x.length ∧ x.length ≤ 65535) :
    Safe perform (producerParty n) (fun _ _ => True) (producer (n + 16) msgs)
      (fun s => ∃ done, Idle n done 0 s) := by
  induction msgs with
  | nil => exact Safe.ret fun _ _ => trivial
  | cons x xs ih =>
    obtain ⟨hx, hlen⟩ := hmsgs x List.mem_cons_self
    exact Safe.bind (Safe.exists fun done => producer_append hn hx (by omega)) fun _ =>
      ih fun y hy => hmsgs y (List.mem_cons_of_mem x hy)

end MmDriver.MsgQueueSteps

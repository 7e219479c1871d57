import MmDriver.Laws.Common.SpscInv

/-!
# The consumer keeps its contract

An outline of `pop`. What the consumer learns from `get_free_size` is that a message is live
whenever the used space it computes is at least the smallest chunk (`consumer_getFreeSize`). A
live front message stays the front message, whole, until the consumer's own last store, so
every byte read afterwards is that message's (`Front`).
-/

namespace MmDriver.MsgQueueSteps

open ByteMem RingIndex MsgFifo MsgRing RelyGuarantee
open MsgQueue (queueMessageHeadLength minMessageChunkSize messageQueueReverseLength)

variable {n : Nat} {s s' : Shared} {done : List Message} {x : Message}

/-- Between two calls of `pop`. -/
structure Resting (n : Nat) (done : List Message) (s : Shared) : Prop where
  inv : Inv n s
  releasing_eq : s.releasing = false
  popped_eq : s.popped = done

/-- With `x` the front message, its header released or not. -/
structure Front (n : Nat) (done : List Message) (x : Message) (releasing : Bool) (s : Shared) :
    Prop where
  inv : Inv n s
  releasing_eq : s.releasing = releasing
  popped_eq : s.popped = done
  live : ∃ rest, s.live = x :: rest

theorem Resting.stable (hstep : ProducerStep n s s') (h : Resting n done s) :
    Resting n done s' :=
  ⟨hstep.inv h.inv, hstep.releasing_eq.trans h.releasing_eq, hstep.popped_eq.trans h.popped_eq⟩

theorem Front.stable {b : Bool} (hstep : ProducerStep n s s') (h : Front n done x b s) :
    Front n done x b s' := by
  obtain ⟨rest, hlive⟩ := h.live
  exact ⟨hstep.inv h.inv, hstep.releasing_eq.trans h.releasing_eq,
    hstep.popped_eq.trans h.popped_eq, hstep.live_cons h.inv hlive⟩

theorem Front.front_eq {b : Bool} (h : Front n done x b s) :
    s.front n = after (n + 16) 0 done := by
  rw [← h.popped_eq]
  rfl

theorem Front.front_le {b : Bool} (h : Front n done x b s) : after (n + 16) 0 done ≤ n + 16 := by
  rw [← h.front_eq]
  exact h.inv.front_le

/-- The front message's bytes are in the ring. -/
theorem Front.frame {b : Bool} (h : Front n done x b s) :
    FrameAt s.ring (n + 16) (after (n + 16) 0 done) x := by
  obtain ⟨rest, hlive⟩ := h.live
  have hstored := h.inv.stored
  rw [hlive] at hstored
  rw [← h.front_eq]
  exact hstored.1

theorem Front.lengths {b : Bool} (h : Front n done x b s) : 1 ≤ x.length ∧ x.length ≤ n := by
  obtain ⟨rest, hlive⟩ := h.live
  refine h.inv.lengths x (List.mem_append_left _ ?_)
  rw [h.inv.appended_eq, hlive]
  exact List.mem_append_right _ List.mem_cons_self

/-- A load of the consumer that asks for no condition keeps every assertion. -/
theorem consumer_load {c : Counter} {arm : Option Bool} {P : Shared → Prop}
    (hstable : ∀ s s', ProducerStep n s s' → P s → P s') :
    Safe perform (consumerParty n) (fun v s => P s ∧ (c = .read → v = s.read)) (load c arm) P := by
  refine Safe.step hstable fun s hs _ => ?_
  cases c with
  | read => exact ⟨.refl n s, hs, fun _ => rfl⟩
  | write => exact ⟨.refl n s, hs, fun h => nomatch h⟩

/-! ## The used space -/

/-- What the consumer knows once it has loaded `write_` in the arm it chose. -/
structure SeenWrite (n : Nat) (done : List Message) (arm : Bool) (w : Nat) (s : Shared) : Prop where
  choice : (s.read > w) ↔ arm = true
  write_le : w ≤ n + 16
  gap_le : gap (n + 16) s.read w ≤ n
  live : 9 ≤ gap (n + 16) s.read w → ∃ x rest, s.live = x :: rest
  resting : Resting n done s

theorem SeenWrite.stable {arm : Bool} {w : Nat} (hstep : ProducerStep n s s')
    (h : SeenWrite n done arm w s) : SeenWrite n done arm w s' := by
  obtain ⟨hchoice, hwrite, hgap, hlive, hrest⟩ := h
  rw [← hstep.read_eq] at hchoice hgap hlive
  refine ⟨hchoice, hwrite, hgap, fun hbig => ?_, hrest.stable hstep⟩
  obtain ⟨x, rest, hx⟩ := hlive hbig
  exact ⟨x, hstep.live_cons hrest.inv hx⟩

/-- The load of `write_` in an arm, under the condition. -/
theorem consumer_loadWrite (n : Nat) (done : List Message) (arm : Bool) {P : Shared → Prop}
    (hstable : ∀ s s', ProducerStep n s s' → P s → P s') (hrest : ∀ s, P s → Resting n done s) :
    Safe perform (consumerParty n) (fun w s => SeenWrite n done arm w s ∧ P s)
      (load .write (some arm)) P := by
  refine Safe.step hstable fun s hs hcond => ⟨.refl n s, ?_, hs⟩
  have h := hrest s hs
  have hgap := h.inv.gap_eq
  have hpub : s.published ≤ 8 := by
    unfold Shared.published
    split <;> omega
  refine ⟨hcond, h.inv.write_le, h.inv.gap_le, fun hbig => ?_, h⟩
  change 9 ≤ gap (n + 16) s.read s.write at hbig
  -- a published header alone is eight bytes, below the smallest chunk
  have hlive : s.live ≠ [] := fun hnil => by
    rw [hnil, occupied_nil] at hgap
    omega
  exact List.exists_cons_of_ne_nil hlive

/-- From `get_free_size` the consumer learns when a message is live. -/
theorem consumer_getFreeSize (hn : n < 2 ^ 62) (done : List Message) :
    Safe perform (consumerParty n)
      (fun f s => Resting n done s ∧
        (9 ≤ SizeT.sub (SizeT.sub (n + 16) messageQueueReverseLength) f →
          ∃ x rest, s.live = x :: rest))
      (getFreeSize (n + 16)) (Resting n done) := by
  have hrest : ∀ s s', ProducerStep n s s' → Resting n done s → Resting n done s' :=
    fun _ _ hstep h => h.stable hstep
  have hused : ∀ {r w : Nat}, gap (n + 16) r w ≤ n →
      SizeT.sub (SizeT.sub (n + 16) 16) (n + 16 - gap (n + 16) r w - 16) = gap (n + 16) r w := by
    intro r w hgap
    rw [SizeT.sub_eq (show 16 ≤ n + 16 by omega) (by omega), SizeT.sub_eq (by omega) (by omega)]
    omega
  refine Safe.bind (consumer_load hrest) fun r₁ => ?_
  refine Safe.bind (Safe.pre (consumer_load hrest) fun s hs => hs.1) fun w₁ => ?_
  split
  · have hkept : ∀ r s s', ProducerStep n s s' → (Resting n done s ∧ r = s.read) →
        Resting n done s' ∧ r = s'.read :=
      fun r _ _ hstep h => ⟨h.1.stable hstep, h.2.trans hstep.read_eq.symm⟩
    refine Safe.bind (Safe.pre (consumer_load hrest) fun s hs => hs.1) fun r => ?_
    refine Safe.bind (Safe.pre (consumer_loadWrite n done true (hkept r) fun _ h => h.1)
      fun s hs => ⟨hs.1, hs.2 rfl⟩) fun w => Safe.ret fun s hs => ?_
    obtain ⟨h, -, hr⟩ := hs
    have hread := h.resting.inv.read_le
    have hfree : SizeT.sub (SizeT.sub s.read w) 16 = _ :=
      MsgQueue.free_gt (h.choice.mpr rfl) hread (by omega) (by have := h.gap_le; omega)
    rw [hr]
    change Resting n done s ∧ (9 ≤ SizeT.sub (SizeT.sub (n + 16) 16)
      (SizeT.sub (SizeT.sub s.read w) 16) → ∃ x rest, s.live = x :: rest)
    rw [hfree, hused h.gap_le]
    exact ⟨h.resting, h.live⟩
  · refine Safe.bind (Safe.pre (consumer_loadWrite n done false hrest fun _ h => h)
      fun s hs => hs.1) fun w => ?_
    refine Safe.bind (Safe.pre (consumer_load fun _ _ hstep h => SeenWrite.stable hstep h)
      fun s hs => hs.1) fun r => Safe.ret fun s hs => ?_
    obtain ⟨h, hr⟩ := hs
    have hle : ¬s.read > w := fun hgt => Bool.false_ne_true (h.choice.mp hgt)
    have hfree : SizeT.sub (SizeT.add (SizeT.sub (n + 16) w) s.read) 16 = _ :=
      MsgQueue.free_le hle h.write_le (by omega) (by have := h.gap_le; omega)
    rw [hr rfl]
    change Resting n done s ∧ (9 ≤ SizeT.sub (SizeT.sub (n + 16) 16)
      (SizeT.sub (SizeT.add (SizeT.sub (n + 16) w) s.read) 16) → ∃ x rest, s.live = x :: rest)
    rw [hfree, hused h.gap_le]
    exact ⟨h.resting, h.live⟩

/-! ## The bytes -/

/-- A byte read keeps every assertion. -/
theorem consumer_getByte {off : Nat} {P : Shared → Prop}
    (hstable : ∀ s s', ProducerStep n s s' → P s → P s') :
    Safe perform (consumerParty n) (fun b s => b = s.ring off ∧ P s) (getByte off) P :=
  Safe.step hstable fun s hs _ => ⟨.refl n s, rfl, hs⟩

/-- The header read when nothing is known to be live: whatever it is, it is not used. -/
theorem consumer_getHead_any {P : Shared → Prop}
    (hstable : ∀ s s', ProducerStep n s s' → P s → P s') (left read : Nat) :
    Safe perform (consumerParty n) (fun _ s => P s) (getHead (n + 16) left read) P := by
  induction left generalizing read with
  | zero => exact Safe.ret fun _ h => h
  | succ left ih =>
    refine Safe.bind (consumer_getByte hstable) fun b => ?_
    refine Safe.bind (Safe.pre (ih _) fun s h => h.2) fun bs => Safe.ret fun _ h => h

/-- The header of the front message, from its byte `i` on. -/
theorem consumer_getHead (hn : n < 2 ^ 62) (hle : after (n + 16) 0 done ≤ n + 16) {left i : Nat}
    (hi : i + left = 8) :
    Safe perform (consumerParty n)
      (fun bs s => bs = (List.range left).map (fun d => byteOf x.length (i + d)) ∧
        Front n done x false s)
      (getHead (n + 16) left (cell (n + 16) (after (n + 16) 0 done) i)) (Front n done x false) := by
  induction left generalizing i with
  | zero => exact Safe.ret fun _ h => ⟨rfl, h⟩
  | succ left ih =>
    have hcell : cell (n + 16) (after (n + 16) 0 done) i ≤ n + 16 := cell_le (by omega) hle
    have hnext : SizeT.add (cell (n + 16) (after (n + 16) 0 done) i) 1 % (n + 16) =
        cell (n + 16) (after (n + 16) 0 done) (i + 1) := by
      rw [SizeT.add_eq (by omega), cell_next]
    have hbyte : Safe perform (consumerParty n)
        (fun b s => b = byteOf x.length i ∧ Front n done x false s)
        (getByte (cell (n + 16) (after (n + 16) 0 done) i)) (Front n done x false) :=
      Safe.post (consumer_getByte fun _ _ hstep h => h.stable hstep) fun b s ⟨hb, h⟩ => by
        rw [h.frame i (by omega), frameByte, if_pos (by omega)] at hb
        exact ⟨hb, h⟩
    rw [getHead, hnext]
    refine Safe.bind hbyte fun b => Safe.fact fun hb => ?_
    refine Safe.bind (ih (by omega)) fun bs => Safe.fact fun hbs => Safe.ret fun s h => ⟨?_, h⟩
    rw [hb, hbs, List.range_succ_eq_map, List.map_cons, List.map_map, Nat.add_zero]
    congr 1
    exact List.map_congr_left fun d _ => by rw [Function.comp_apply, Nat.succ_eq_add_one]; congr 1; omega

/-- A load of `read_` inside a `pop`, before the header is released. -/
theorem consumer_boundary :
    Safe perform (consumerParty n)
      (fun r s => (r = after (n + 16) 0 done ∧ after (n + 16) 0 done ≤ n + 16 ∧ x.length ≤ n) ∧
        Front n done x false s)
      (load .read none) (Front n done x false) := by
  refine Safe.post (consumer_load fun _ _ hstep h => h.stable hstep) fun r s hs =>
    ⟨⟨?_, hs.1.front_le, hs.1.lengths.2⟩, hs.1⟩
  rw [hs.2 rfl, hs.1.inv.read_eq, hs.1.releasing_eq, hs.1.front_eq]
  rfl

/-- The length read from the front message's header. -/
theorem consumer_getMsgLength (hn : n < 2 ^ 62) :
    Safe perform (consumerParty n) (fun len s => len = x.length ∧ Front n done x false s)
      (getMsgLength (n + 16)) (Front n done x false) := by
  refine Safe.bind consumer_boundary fun r => Safe.fact fun ⟨hr, hle, hlen⟩ => ?_
  subst hr
  refine Safe.bind (consumer_getHead hn hle (show 0 + 8 = 8 by omega)) fun bs =>
    Safe.fact fun hbs => Safe.ret fun s h => ⟨?_, h⟩
  have hbytes : ∀ d < 8, ofList bs d = byteOf x.length d := fun d hd => by
    rw [hbs, ofList, List.getD_eq_getElem?_getD, List.getElem?_map, List.getElem?_range hd]
    simp
  rw [queueMessageHeadLength, ofBytes_congr hbytes, ofBytes_byteOf]
  exact Nat.mod_eq_of_lt (by omega)

/-- One piece of the front message's body, a run that does not go past the end of the ring. -/
theorem consumer_copyOut {left off j : Nat} (hoff : off + left ≤ n + 16)
    (hmod : off % (n + 16) = (after (n + 16) 0 done + 8 + j) % (n + 16))
    (hj : j + left ≤ x.length) :
    Safe perform (consumerParty n)
      (fun bs s => bs = (x.drop j).take left ∧ Front n done x true s)
      (copyOut left off) (Front n done x true) := by
  induction left generalizing off j with
  | zero => exact Safe.ret fun s h => ⟨by rw [List.take_zero], h⟩
  | succ left ih =>
    have hcell : off = cell (n + 16) (after (n + 16) 0 done) (8 + j) := by
      rw [cell_pos (by omega), ← Nat.add_assoc, ← hmod, Nat.mod_eq_of_lt (by omega)]
    have hnext : (off + 1) % (n + 16) = (after (n + 16) 0 done + 8 + (j + 1)) % (n + 16) := by
      rw [← Nat.mod_add_mod, hmod, Nat.mod_add_mod, Nat.add_assoc _ j 1]
    have hlt : j < x.length := by omega
    have hbyte : Safe perform (consumerParty n) (fun b s => b = x[j] ∧ Front n done x true s)
        (getByte off) (Front n done x true) :=
      Safe.post (consumer_getByte fun _ _ hstep h => h.stable hstep) fun b s ⟨hb, h⟩ => by
        rw [hcell, h.frame (8 + j) (by omega), frameByte, if_neg (by omega),
          Nat.add_sub_cancel_left, List.getD_eq_getElem?_getD, List.getElem?_eq_getElem hlt] at hb
        exact ⟨hb, h⟩
    refine Safe.bind hbyte fun b => Safe.fact fun hb => ?_
    refine Safe.bind (ih (by omega) hnext (by omega)) fun bs => Safe.fact fun hbs =>
      Safe.ret fun s h => ⟨?_, h⟩
    rw [hb, hbs, List.drop_eq_getElem_cons hlt, List.take_succ_cons]

/-! ## The stores -/

/-- The store that releases the front message's header. -/
theorem consumer_release :
    Safe perform (consumerParty n) (fun _ s => Front n done x true s)
      (storeRead ((after (n + 16) 0 done + 8) % (n + 16)) none) (Front n done x false) := by
  refine Safe.step (fun _ _ hstep h => h.stable hstep) fun s h _ => ?_
  obtain ⟨rest, hlive⟩ := h.live
  have hkeep : Inv n s → Inv n { s with read := (s.front n + 8) % (n + 16), releasing := true } :=
    fun hinv => hinv.release h.releasing_eq (by rw [hlive]; exact List.cons_ne_nil x rest)
  rw [← h.front_eq]
  refine ⟨⟨rfl, rfl, rfl, rfl, fun k hk => ?_, hkeep⟩, hkeep h.inv, rfl, h.popped_eq, h.live⟩
  rw [Shared.released, h.releasing_eq] at hk
  exact Nat.le_trans hk (by simp [perform, Shared.released])

/-- The store that delivers the front message. -/
theorem consumer_deliver :
    Safe perform (consumerParty n) (fun _ s => ∃ done, Resting n done s)
      (storeRead (next (n + 16) (after (n + 16) 0 done) x.length) (some x))
      (Front n done x true) := by
  refine Safe.step (fun _ _ hstep h => h.stable hstep) fun s h _ => ?_
  obtain ⟨rest, hlive⟩ := h.live
  rw [← h.front_eq]
  have hnext := h.inv.deliver hlive
  refine ⟨⟨rfl, rfl, rfl, rfl, fun k hk => ?_, fun _ => hnext⟩, _, hnext, rfl, rfl⟩
  -- the message was at least one byte more than the header it had given back
  have happended : s.appended = s.popped ++ [x] ++ rest := by
    rw [h.inv.appended_eq, hlive, List.append_assoc, List.singleton_append]
  have hrest : s.appended.drop (s.popped ++ [x]).length = rest := by
    rw [happended, List.drop_left]
  have hlen := h.lengths
  rw [hlive, occupied_cons, Shared.released, h.releasing_eq, if_pos rfl] at hk
  change occupied (s.appended.drop (s.popped ++ [x]).length) + k ≤ n + 0
  rw [hrest]
  omega

/-! ## The program -/

/-- A load of `read_` inside a `pop`, once the header is released. -/
theorem consumer_released :
    Safe perform (consumerParty n)
      (fun r s => r = (after (n + 16) 0 done + 8) % (n + 16) ∧ Front n done x true s)
      (load .read none) (Front n done x true) := by
  refine Safe.post (consumer_load fun _ _ hstep h => h.stable hstep) fun r s hs => ⟨?_, hs.1⟩
  rw [hs.2 rfl, hs.1.inv.read_eq, hs.1.releasing_eq, hs.1.front_eq]
  rfl

/-- The body, in one piece or two. -/
theorem consumer_takeBody (hn : n < 2 ^ 62) (hlen : x.length ≤ n) :
    Safe perform (consumerParty n) (fun _ s => ∃ done, Resting n done s)
      (takeBody (n + 16) x.length ((after (n + 16) 0 done + 8) % (n + 16)))
      (Front n done x true) := by
  have hh := Nat.mod_lt (after (n + 16) 0 done + 8) (show 0 < n + 16 by omega)
  have hdeliver := @consumer_deliver n done x
  unfold next at hdeliver
  unfold takeBody
  rw [SizeT.add_eq (by omega)]
  split
  · next hwrap =>
    rw [if_pos hwrap] at hdeliver
    rw [SizeT.sub_eq (Nat.le_of_lt hh) (by omega)]
    dsimp only
    rw [SizeT.sub_eq (by omega) (by omega)]
    generalize hfirst : n + 16 - (after (n + 16) 0 done + 8) % (n + 16) = first
    -- the first piece ends at the end of the ring, so the second starts at offset 0
    have hwhole : 0 % (n + 16) = (after (n + 16) 0 done + 8 + first) % (n + 16) := by
      rw [← Nat.mod_add_mod, show (after (n + 16) 0 done + 8) % (n + 16) + first = n + 16 by omega,
        Nat.mod_self, Nat.zero_mod]
    refine Safe.bind (consumer_copyOut (j := 0) (by omega) (by simp) (by omega)) fun front =>
      Safe.fact fun hfront => ?_
    refine Safe.bind (consumer_copyOut (by omega) hwhole (by omega)) fun back =>
      Safe.fact fun hback => ?_
    have hbody : front ++ back = x := by
      rw [hfront, hback, List.drop_zero, List.take_of_length_le (l := x.drop first) (by simp),
        List.take_append_drop]
    rw [hbody, show x.length - first =
      (after (n + 16) 0 done + 8) % (n + 16) + x.length - (n + 16) by omega]
    exact Safe.bind hdeliver fun _ => Safe.ret fun _ h => h
  · next hfit =>
    rw [if_neg hfit] at hdeliver
    refine Safe.bind (consumer_copyOut (j := 0) (by omega) (by simp) (by omega)) fun body =>
      Safe.fact fun hbody => ?_
    refine Safe.bind consumer_released fun r => Safe.fact fun hr => ?_
    subst hr
    rw [SizeT.add_eq (by omega), hbody, List.drop_zero, List.take_length]
    exact Safe.bind hdeliver fun _ => Safe.ret fun _ h => h

/-- `pop`, from one boundary to another. -/
theorem consumer_pop (hn : n < 2 ^ 62) (cap : Nat) :
    Safe perform (consumerParty n) (fun _ s => ∃ done, Resting n done s) (pop (n + 16) cap)
      (Resting n done) := by
  have hrest : ∀ s s', ProducerStep n s s' → Resting n done s → Resting n done s' :=
    fun _ _ hstep h => h.stable hstep
  refine Safe.bind (consumer_getFreeSize hn done) fun free => ?_
  dsimp only
  generalize SizeT.sub (SizeT.sub (n + 16) messageQueueReverseLength) free = used
  by_cases hbig : 9 ≤ used
  · -- a message is live, and it is fixed from here on
    have hfront : ∀ s, (Resting n done s ∧ (9 ≤ used → ∃ x rest, s.live = x :: rest)) →
        ∃ x : Message, Front n done x false s := fun s ⟨h, hlive⟩ => by
      obtain ⟨x, rest, hx⟩ := hlive hbig
      exact ⟨x, h.inv, h.releasing_eq, h.popped_eq, rest, hx⟩
    refine Safe.pre (Safe.exists fun x => ?_) hfront
    · refine Safe.bind (consumer_getMsgLength hn) fun len => Safe.fact fun hlen => ?_
      subst hlen
      split
      · exact Safe.ret fun s h => ⟨done, h.inv, h.releasing_eq, h.popped_eq⟩
      · split
        · exact Safe.ret fun s h => ⟨done, h.inv, h.releasing_eq, h.popped_eq⟩
        · refine Safe.bind consumer_boundary fun r => Safe.fact fun ⟨hr, hle, hfits⟩ => ?_
          subst hr
          refine Safe.bind consumer_boundary fun r => Safe.fact fun ⟨hr, _, _⟩ => ?_
          subst hr
          rw [queueMessageHeadLength, SizeT.add_eq (by omega),
            MsgQueue.skipHead_eq hle (by omega) (by omega), cell_pos (by omega)]
          refine Safe.bind consumer_release fun _ => ?_
          exact Safe.bind (consumer_takeBody hn hfits) fun _ => Safe.ret fun _ h => h
  · -- nothing is known to be live, and nothing is taken
    refine Safe.bind (Safe.bind (Safe.pre (consumer_load hrest) fun s hs => hs.1) fun r =>
      Safe.bind (Safe.pre (consumer_getHead_any hrest _ r) fun s hs => hs.1) fun bs =>
        Safe.ret (Q := fun _ s => Resting n done s) fun _ h => h) fun len => ?_
    have hsmall : minMessageChunkSize > used := Nat.lt_of_not_le hbig
    rw [if_pos (.inl hsmall)]
    exact Safe.ret fun s h => ⟨done, h⟩

/-- The consumer keeps its contract over any buffers. -/
theorem consumer_safe (hn : n < 2 ^ 62) (caps : List Nat) :
    Safe perform (consumerParty n) (fun _ _ => True) (consumer (n + 16) caps)
      (fun s => ∃ done, Resting n done s) := by
  induction caps with
  | nil => exact Safe.ret fun _ _ => trivial
  | cons cap caps ih => exact Safe.bind (Safe.exists fun done => consumer_pop hn cap) fun _ => ih

end MmDriver.MsgQueueSteps

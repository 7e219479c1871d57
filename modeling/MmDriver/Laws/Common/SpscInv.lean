import MmDriver.Common.MsgQueueSteps
import MmDriver.Laws.Common.MsgQueue

/-!
# The invariant of one producer and one consumer

Between any two accesses the ring holds the appended messages that were not popped, in order
from the front message's start (`Inv.stored`). The indices stand at a message boundary, or
eight bytes past one while a header is published before its body (`publishing`) or released
before its body (`releasing`). A released header is free space to the producer although its
body is not; the sixteen reserved bytes are what keeps the body whole (`Inv.room`).

Each access that changes the state is shown to keep the invariant, once.
-/

namespace MmDriver.MsgQueueSteps

open ByteMem RingIndex MsgFifo MsgRing

variable {n : Nat} {s : Shared} {x : Message} {rest : List Message}

/-! ## Positions -/

/-- Where messages laid out from position `p` end. -/
def after (Q p : Nat) (xs : List Message) : Nat := xs.foldl (fun p x => next Q p x.length) p

@[simp] theorem after_nil (Q p : Nat) : after Q p [] = p := rfl

theorem after_snoc (Q p : Nat) (xs : List Message) (x : Message) :
    after Q p (xs ++ [x]) = next Q (after Q p xs) x.length := by
  simp [after]

theorem after_append (Q p : Nat) (xs ys : List Message) :
    after Q p (xs ++ ys) = after Q (after Q p xs) ys := by
  simp [after]

theorem after_le {Q p : Nat} {xs : List Message} (hQ : 0 < Q) (hp : p ≤ Q)
    (hxs : ∀ x ∈ xs, x.length ≤ Q) : after Q p xs ≤ Q := by
  induction xs generalizing p with
  | nil => exact hp
  | cons x xs ih =>
    exact ih (next_le hQ (hxs x List.mem_cons_self)) fun y hy => hxs y (List.mem_cons_of_mem x hy)

/-- Modulo the ring, messages end where they start and what they occupy. -/
theorem after_mod (Q p : Nat) (xs : List Message) : after Q p xs % Q = (p + occupied xs) % Q := by
  induction xs generalizing p with
  | nil => rfl
  | cons x xs ih =>
    rw [occupied_cons, ← Nat.add_assoc]
    exact (ih (next Q p x.length)).trans (Nat.ModEq.add_right (occupied xs) (next_mod Q p x.length))

/-! ## The invariant -/

namespace Shared

/-- The messages appended and not popped. -/
def live (s : Shared) : List Message := s.appended.drop s.popped.length

/-- What the front message has already given back. -/
def released (s : Shared) : Nat := if s.releasing then 8 else 0

/-- What the message being published already shows. -/
def published (s : Shared) : Nat := if s.publishing.isSome then 8 else 0

/-- The start of the front message. -/
def front (n : Nat) (s : Shared) : Nat := after (n + 16) 0 s.popped

/-- The end of the last message appended. -/
def back (n : Nat) (s : Shared) : Nat := after (n + 16) 0 s.appended

end Shared

/-- What holds between any two accesses to a queue of size `n`. -/
structure Inv (n : Nat) (s : Shared) : Prop where
  popped_prefix : s.popped <+: s.appended
  read_eq : s.read = if s.releasing then (s.front n + 8) % (n + 16) else s.front n
  write_eq : s.write = if s.publishing.isSome then (s.back n + 8) % (n + 16) else s.back n
  stored : Stored s.ring (n + 16) (s.front n) s.live (s.back n)
  /-- The live messages and the one being published fit, beside what was given back. -/
  room : occupied s.live + occupied s.publishing.toList ≤ n + s.released
  releasing_live : s.releasing = true → s.live ≠ []
  lengths : ∀ x ∈ s.begun, 1 ≤ x.length ∧ x.length ≤ n

theorem Inv.appended_eq (h : Inv n s) : s.appended = s.popped ++ s.live := by
  obtain ⟨rest, hrest⟩ := h.popped_prefix
  rw [Shared.live, ← hrest, List.drop_left]

theorem Inv.back_eq (h : Inv n s) : s.back n = after (n + 16) (s.front n) s.live := by
  unfold Shared.back Shared.front
  rw [← after_append, ← h.appended_eq]

theorem Inv.front_le (h : Inv n s) : s.front n ≤ n + 16 := by
  refine after_le (by omega) (by omega) fun x hx => ?_
  have := h.lengths x (List.mem_append_left _ (h.popped_prefix.subset hx))
  omega

theorem Inv.back_le (h : Inv n s) : s.back n ≤ n + 16 := by
  refine after_le (by omega) (by omega) fun x hx => ?_
  have := h.lengths x (List.mem_append_left _ hx)
  omega

theorem Inv.read_le (h : Inv n s) : s.read ≤ n + 16 := by
  have hmod := Nat.mod_lt (s.front n + 8) (show 0 < n + 16 by omega)
  have hfront := h.front_le
  rw [h.read_eq]
  split <;> omega

theorem Inv.write_le (h : Inv n s) : s.write ≤ n + 16 := by
  have hmod := Nat.mod_lt (s.back n + 8) (show 0 < n + 16 by omega)
  have hback := h.back_le
  rw [h.write_eq]
  split <;> omega

/-- A live message occupies more than its header. -/
theorem Inv.released_lt (h : Inv n s) (hlive : s.live ≠ []) : 8 < occupied s.live := by
  cases hl : s.live with
  | nil => exact absurd hl hlive
  | cons x xs =>
    have hmem : x ∈ s.begun := by
      refine List.mem_append_left _ ?_
      rw [h.appended_eq, hl]
      exact List.mem_append_right _ List.mem_cons_self
    have := (h.lengths x hmem).1
    rw [occupied_cons]
    omega

/-- The number a comparison of the two indices finds: what the live messages occupy, with what
is published and without what is released. -/
theorem Inv.gap_eq (h : Inv n s) :
    gap (n + 16) s.read s.write + s.released = occupied s.live + s.published := by
  have hroom := h.room
  have hreleased : s.released ≤ occupied s.live + s.published ∧
      (occupied s.live + s.published = s.released → s.live = [] ∧ s.publishing = none) := by
    unfold Shared.released Shared.published
    split
    · next hrel =>
      have := h.released_lt (h.releasing_live hrel)
      refine ⟨by omega, fun heq => by omega⟩
    · refine ⟨by omega, fun heq => ⟨occupied_eq_zero (by omega), ?_⟩⟩
      cases hp : s.publishing with
      | none => rfl
      | some x => rw [hp] at heq; simp at heq
  have hpublished : s.published ≤ occupied s.publishing.toList := by
    unfold Shared.published
    cases s.publishing with
    | none => simp
    | some x => simp
  have hread : s.read % (n + 16) = (s.front n + s.released) % (n + 16) := by
    rw [h.read_eq, Shared.released]
    split
    · rw [Nat.mod_mod]
    · rfl
  have hwrite : s.write % (n + 16) = (s.back n + s.published) % (n + 16) := by
    rw [h.write_eq, Shared.published]
    split
    · rw [Nat.mod_mod]
    · rfl
  have hrel : s.released ≤ 8 := by
    unfold Shared.released
    split <;> omega
  have hend : (s.read + (occupied s.live + s.published - s.released)) % (n + 16) =
      s.write % (n + 16) := by
    calc (s.read + (occupied s.live + s.published - s.released)) % (n + 16)
        = (s.front n + s.released + (occupied s.live + s.published - s.released)) % (n + 16) :=
          Nat.ModEq.add_right _ hread
      _ = (s.front n + occupied s.live + s.published) % (n + 16) := by
          congr 1
          omega
      _ = (s.back n + s.published) % (n + 16) := by
          refine Nat.ModEq.add_right _ ?_
          rw [h.back_eq]
          exact (after_mod (n + 16) (s.front n) s.live).symm
      _ = s.write % (n + 16) := hwrite.symm
  have hgap : gap (n + 16) s.read s.write = occupied s.live + s.published - s.released := by
    refine RingIndex.gap_eq h.read_le h.write_le hend (by omega) fun hz => ?_
    obtain ⟨hlive, hpub⟩ := hreleased.2 (by omega)
    -- nothing is live and nothing is published: both indices are the same boundary
    have hnot : ¬s.releasing = true := fun hrel => h.releasing_live hrel hlive
    rw [h.read_eq, if_neg hnot, h.write_eq, hpub, h.back_eq, hlive]
    rfl
  omega

/-- The distance leaves the reserved bytes. -/
theorem Inv.gap_le (h : Inv n s) : gap (n + 16) s.read s.write ≤ n := by
  have hgap := h.gap_eq
  have hroom := h.room
  have hpublished : s.published ≤ occupied s.publishing.toList := by
    unfold Shared.published
    cases s.publishing with
    | none => simp
    | some x => simp
  omega

/-! ## The accesses that change the state -/

/-- Modulo the ring, the end of the live messages is their start and what they occupy. -/
theorem Inv.back_mod (h : Inv n s) :
    s.back n % (n + 16) = (s.front n + occupied s.live) % (n + 16) := by
  rw [h.back_eq]
  exact after_mod (n + 16) (s.front n) s.live

/-- A cell of a message that fits behind the live ones is none of theirs. -/
theorem Inv.cell_free (h : Inv n s) {cost d d' : Nat} (hd : d < occupied s.live) (hd' : d' < cost)
    (hroom : occupied s.live + cost ≤ n + s.released) :
    cell (n + 16) (s.back n) d' % (n + 16) ≠ (s.front n + d) % (n + 16) := by
  have hrel : s.released ≤ 8 := by
    unfold Shared.released
    split <;> omega
  exact cell_mod_ne h.back_mod hd (by omega)

/-- A byte put anywhere but in a live message. -/
theorem Inv.putByte (h : Inv n s) {off : Nat} {b : UInt8}
    (hfree : ∀ d < occupied s.live, off % (n + 16) ≠ (s.front n + d) % (n + 16)) :
    Inv n { s with ring := Function.update s.ring off b } := by
  have hroom := h.room
  have hrel : s.released ≤ 8 := by
    unfold Shared.released
    split <;> omega
  have hfits : occupied s.live ≤ n + 16 := by omega
  refine ⟨h.popped_prefix, h.read_eq, h.write_eq, ?_, h.room, h.releasing_live, h.lengths⟩
  refine stored_congr (by omega) h.front_le hfits (fun c _ d hd hmod => ?_) h.stored
  refine Function.update_of_ne (fun hc => ?_) b s.ring
  subst hc
  exact hfree d hd hmod

/-- The first store of an `append`: the header is published. -/
theorem Inv.publish (h : Inv n s)
    (hroom : occupied s.live + (8 + x.length) ≤ n + s.released)
    (hx : 1 ≤ x.length ∧ x.length ≤ n) :
    Inv n { s with write := (s.back n + 8) % (n + 16), publishing := some x } := by
  refine ⟨h.popped_prefix, h.read_eq, rfl, h.stored, ?_, h.releasing_live, fun y hy => ?_⟩
  · change occupied s.live + occupied [x] ≤ n + s.released
    rwa [occupied_cons, occupied_nil]
  · rcases List.mem_append.mp hy with happ | hpub
    · exact h.lengths y (List.mem_append_left _ happ)
    · obtain rfl := List.mem_singleton.mp hpub
      exact hx

/-- The last store of an `append`: the whole message is appended. -/
theorem Inv.finish (h : Inv n s) (hpub : s.publishing = some x)
    (hframe : FrameAt s.ring (n + 16) (s.back n) x) :
    Inv n { s with write := next (n + 16) (s.back n) x.length, publishing := none,
                   appended := s.appended ++ [x] } := by
  have hlive : (s.appended ++ [x]).drop s.popped.length = s.live ++ [x] :=
    List.drop_append_of_le_length h.popped_prefix.length_le
  have hback : after (n + 16) 0 (s.appended ++ [x]) = next (n + 16) (s.back n) x.length :=
    after_snoc _ _ _ _
  have hroom := h.room
  rw [hpub] at hroom
  refine ⟨h.popped_prefix.trans (List.prefix_append _ _), h.read_eq, hback.symm, ?_, ?_,
    fun hrel hnil => ?_, fun y hy => ?_⟩
  · change Stored s.ring (n + 16) (s.front n) ((s.appended ++ [x]).drop s.popped.length)
      (after (n + 16) 0 (s.appended ++ [x]))
    rw [hlive, hback]
    exact stored_snoc h.stored hframe
  · change occupied ((s.appended ++ [x]).drop s.popped.length) + occupied [] ≤ n + s.released
    rw [hlive, occupied_append]
    exact hroom
  · change (s.appended ++ [x]).drop s.popped.length = [] at hnil
    rw [hlive] at hnil
    exact List.append_ne_nil_of_right_ne_nil _ (List.cons_ne_nil x []) hnil
  · refine h.lengths y ?_
    rw [Shared.begun, hpub]
    rwa [Shared.begun, Option.toList_none, List.append_nil] at hy

/-- The first store of a `pop`: the front message's header is released. -/
theorem Inv.release (h : Inv n s) (hrest : s.releasing = false) (hlive : s.live ≠ []) :
    Inv n { s with read := (s.front n + 8) % (n + 16), releasing := true } := by
  have hroom := h.room
  rw [Shared.released, hrest] at hroom
  refine ⟨h.popped_prefix, rfl, h.write_eq, h.stored, ?_, fun _ => hlive, h.lengths⟩
  change occupied s.live + occupied s.publishing.toList ≤ n + 8
  exact Nat.le_trans hroom (by simp)

/-- The last store of a `pop`: the front message is popped. -/
theorem Inv.deliver (h : Inv n s) (hlive : s.live = x :: rest) :
    Inv n { s with read := next (n + 16) (s.front n) x.length, releasing := false,
                   popped := s.popped ++ [x] } := by
  have happended : s.appended = s.popped ++ [x] ++ rest := by
    rw [h.appended_eq, hlive, List.append_assoc, List.singleton_append]
  have hrest : s.appended.drop (s.popped ++ [x]).length = rest := by
    rw [happended, List.drop_left]
  have hfront : after (n + 16) 0 (s.popped ++ [x]) = next (n + 16) (s.front n) x.length :=
    after_snoc _ _ _ _
  have hroom := h.room
  have hrel : s.released ≤ 8 := by
    unfold Shared.released
    split <;> omega
  have hlen := (h.lengths x (List.mem_append_left _ (by rw [happended]; simp))).1
  rw [hlive, occupied_cons] at hroom
  have hstored := h.stored
  rw [hlive] at hstored
  refine ⟨⟨rest, happended.symm⟩, hfront.symm, h.write_eq, ?_, ?_, fun hfalse => ?_, h.lengths⟩
  · change Stored s.ring (n + 16) (after (n + 16) 0 (s.popped ++ [x]))
      (s.appended.drop (s.popped ++ [x]).length) (s.back n)
    rw [hrest, hfront]
    exact hstored.2
  · change occupied (s.appended.drop (s.popped ++ [x]).length) + occupied s.publishing.toList ≤
      n + 0
    rw [hrest]
    omega
  · exact absurd hfalse Bool.false_ne_true

/-! ## The contract -/

/-- What an access of the producer does: it keeps the consumer's part of the state, and the
messages appended only grow. -/
structure ProducerStep (n : Nat) (s s' : Shared) : Prop where
  read_eq : s'.read = s.read
  popped_eq : s'.popped = s.popped
  releasing_eq : s'.releasing = s.releasing
  appended_prefix : s.appended <+: s'.appended
  inv : Inv n s → Inv n s'

/-- What an access of the consumer does: it keeps the producer's part of the state, and what
fits in the ring still fits. -/
structure ConsumerStep (n : Nat) (s s' : Shared) : Prop where
  write_eq : s'.write = s.write
  ring_eq : s'.ring = s.ring
  appended_eq : s'.appended = s.appended
  publishing_eq : s'.publishing = s.publishing
  room : ∀ k, occupied s.live + k ≤ n + s.released → occupied s'.live + k ≤ n + s'.released
  inv : Inv n s → Inv n s'

/-- A byte the producer puts lies in no live message. -/
def Clear (n : Nat) (s : Shared) : Access → Prop
  | .putByte off _ => ∀ d < occupied s.live, off % (n + 16) ≠ (s.front n + d) % (n + 16)
  | _ => True

/-- Whenever the producer loads `read_` in an arm of `get_free_size`, the comparison that chose
the arm still has its outcome. -/
def producerCond (s : Shared) : Access → Prop
  | .load .read (some arm) => (s.read > s.write) ↔ arm = true
  | _ => True

/-- The same for the consumer and `write_`. -/
def consumerCond (s : Shared) : Access → Prop
  | .load .write (some arm) => (s.read > s.write) ↔ arm = true
  | _ => True

open RelyGuarantee in
/-- The producer's side of the contract. -/
def producerParty (n : Nat) : Party Shared Access :=
  { rely := ConsumerStep n
    guar := fun s a s' => ProducerStep n s s' ∧ Clear n s a
    cond := producerCond }

open RelyGuarantee in
/-- The consumer's side of the contract. -/
def consumerParty (n : Nat) : Party Shared Access :=
  { rely := ProducerStep n
    guar := fun s _ s' => ConsumerStep n s s'
    cond := consumerCond }

/-- An access that leaves the state is within both contracts. -/
theorem ProducerStep.refl (n : Nat) (s : Shared) : ProducerStep n s s :=
  ⟨rfl, rfl, rfl, List.prefix_rfl, id⟩

theorem ConsumerStep.refl (n : Nat) (s : Shared) : ConsumerStep n s s :=
  ⟨rfl, rfl, rfl, rfl, fun _ => id, id⟩

/-- While the producer works, a live front message stays the front message. -/
theorem ProducerStep.live_cons {s' : Shared} (h : ProducerStep n s s') (hinv : Inv n s)
    (hlive : s.live = x :: rest) : ∃ rest', s'.live = x :: rest' := by
  obtain ⟨more, hmore⟩ := h.appended_prefix
  refine ⟨rest ++ more, ?_⟩
  rw [Shared.live, h.popped_eq, ← hmore,
    List.drop_append_of_le_length hinv.popped_prefix.length_le]
  rw [Shared.live] at hlive
  rw [hlive, List.cons_append]

end MmDriver.MsgQueueSteps

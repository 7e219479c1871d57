import MmDriver.Laws.Common.SpscConsumer
import MmDriver.Laws.Common.SpscProducer

/-!
# One producer and one consumer

Both outlines hold from a fresh queue on, and each party's guarantee is within the other's
rely, so the invariant holds between any two accesses of every run in which no index wraps
between a comparison in `get_free_size` and the load in the arm it chose (`spsc_in_order`).

Without that condition it does not: a queue of nine bytes delivers a byte that nobody sent
(`stale_comparison`).
-/

namespace MmDriver.MsgQueueSteps

open MsgFifo MsgRing RelyGuarantee

/-- What a state of a run says about the messages. -/
structure InOrder (n : Nat) (c : Pair Access.Resp Shared) : Prop where
  /-- The consumer's results are, in order, the first messages whose publication began. -/
  popped_prefix : c.shared.popped <+: c.shared.begun
  /-- Every other message is appended and whole in the ring, in order from the front message's
  start, or is the one being published. -/
  nothing_lost :
    c.shared.begun = c.shared.popped ++ c.shared.live ++ c.shared.publishing.toList ∧
      Stored c.shared.ring (n + 16) (c.shared.front n) c.shared.live (c.shared.back n)
  /-- The byte the producer is about to put lies in no message that is not popped. -/
  no_overwrite : ∀ off b k, c.left = .act (.putByte off b) k →
    ∀ d < occupied c.shared.live, off % (n + 16) ≠ (c.shared.front n + d) % (n + 16)

/-- A fresh queue satisfies the invariant. -/
theorem fresh_inv (n : Nat) (ring : Nat → UInt8) : Inv n (fresh ring) := by
  refine ⟨List.prefix_rfl, rfl, rfl, rfl, Nat.zero_le _, fun h => absurd h Bool.false_ne_true, ?_⟩
  intro x hx
  exact absurd hx List.not_mem_nil

/-- Both programs have an outline at the start. -/
theorem start_outlined {n : Nat} (hn : n < 2 ^ 62) (ring : Nat → UInt8)
    {msgs : List Message} (hmsgs : ∀ x ∈ msgs, 1 ≤ x.length ∧ x.length ≤ 65535)
    (caps : List Nat) :
    Outlined perform (producerParty n) (consumerParty n) (start n ring msgs caps) :=
  ⟨⟨_, ⟨[], fresh_inv n ring, rfl, rfl, Nat.zero_le _⟩, producer_safe hn hmsgs⟩,
    ⟨_, ⟨[], fresh_inv n ring, rfl, rfl⟩, consumer_safe hn caps⟩⟩

/-- **Every run whose loads meet the condition keeps the messages in order.** -/
theorem spsc_in_order {n : Nat} (hn : n < 2 ^ 62) (ring : Nat → UInt8) {msgs : List Message}
    (hmsgs : ∀ x ∈ msgs, 1 ≤ x.length ∧ x.length ≤ 65535) (caps : List Nat)
    {c : Pair Access.Resp Shared}
    (hrun : Relation.ReflTransGen (Step perform producerCond consumerCond)
      (start n ring msgs caps) c) : InOrder n c := by
  obtain ⟨houtlined, hinv⟩ := run_inv (L := producerParty n) (R := consumerParty n)
    (fun _ _ _ h => h.1) (fun _ _ _ h => h) (fun _ _ _ h => h.1.inv) (fun _ _ _ h => h.inv)
    (start_outlined hn ring hmsgs caps) (fresh_inv n ring) hrun
  refine ⟨hinv.popped_prefix.trans (List.prefix_append _ _), ⟨?_, hinv.stored⟩,
    fun off b k hact => ?_⟩
  · rw [Shared.begun, hinv.appended_eq]
  · exact (houtlined.left_guar hact trivial).2

/-! ## Two schedules -/

instance (s : Shared) (a : Access) : Decidable (producerCond s a) :=
  match a with
  | .load .read (some arm) => inferInstanceAs (Decidable ((s.read > s.write) ↔ arm = true))
  | .load .read none | .load .write _ | .storeWrite _ _ | .storeRead _ _ | .getByte _
  | .putByte _ _ => isTrue trivial

instance (s : Shared) (a : Access) : Decidable (consumerCond s a) :=
  match a with
  | .load .write (some arm) => inferInstanceAs (Decidable ((s.read > s.write) ↔ arm = true))
  | .load .write none | .load .read _ | .storeWrite _ _ | .storeRead _ _ | .getByte _
  | .putByte _ _ => isTrue trivial

/-- The producer takes `k` accesses. -/
def produce (k : Nat) : List Bool := List.replicate k true

/-- The consumer takes `k` accesses. -/
def consume (k : Nat) : List Bool := List.replicate k false

/-- The consumer asks while the first message's body is still being copied, and again once it
is there. -/
def twoAsks : List Bool := produce 15 ++ consume 13 ++ produce 4 ++ consume 20

theorem spsc_in_order_twoAsks :
    InOrder 9 (turns perform (start 9 (fun _ => 0) [[5, 6], [7]] [4, 4]) twoAsks) :=
  spsc_in_order (by decide) (fun _ => 0) (by decide) [4, 4] (turns_run (by decide +kernel))

/-- Two messages of one byte go through a queue of nine bytes, and both indices stand at 18.
The consumer compares them; the producer then publishes the header of a third message, which
wraps `write_` to 1; the consumer loads `write_` in the arm it chose before. -/
def staleSchedule : List Bool :=
  produce 18 ++ consume 19 ++ produce 18 ++ consume 19 ++ consume 2 ++ produce 15 ++ consume 17

/-- The used space underflows, and the third result is a byte that was never sent. -/
theorem stale_comparison :
    ∃ c, Relation.ReflTransGen (Step perform (fun _ _ => True) fun _ _ => True)
        (start 9 (fun _ => 0) [[1], [2], [7]] [1, 1, 1]) c ∧
      c.shared.popped = [[1], [2], [0]] ∧ c.shared.begun = [[1], [2], [7]] ∧
      ¬c.shared.popped <+: c.shared.begun :=
  ⟨turns perform (start 9 (fun _ => 0) [[1], [2], [7]] [1, 1, 1]) staleSchedule,
    turns_run (by decide +kernel), by decide +kernel⟩

end MmDriver.MsgQueueSteps

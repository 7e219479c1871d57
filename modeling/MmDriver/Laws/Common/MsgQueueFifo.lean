import MmDriver.Laws.Common.MsgQueue
import Mathlib.Data.List.Forall2

/-!
# `Msg_Queue` refines the bounded FIFO

A queue object, its memory and the calls `append` and `pop` are a call machine whose replies
are what the caller sees. `Holds q n` relates its memories to the pending lists of the
capacity-`n` FIFO, and every call keeps the relation (`simulates`): the queue's replies are the
FIFO's replies, over every run. The FIFO law then speaks about the queue.
-/

namespace MmDriver.MsgQueue

open ByteMem MsgFifo CallMachine

variable {q : MsgQueue} {m : Memory} {n : Nat} {pending : List Message}

/-- A call of one of the two parties, with what it passes. -/
inductive Call where
  | append (pmsg : Nat → UInt8) (msgLength : Nat)
  | pop (buf : Memory) (msgLength : Nat)

/-- What a call answers: the result, and for `pop` the caller's buffer and `msg_length`. -/
inductive Outcome where
  | appended (ret : Bool)
  | popped (ret : Bool) (buf : Memory) (msgLength : Nat)

/-- What the caller and the memory have after an `append`. -/
def AppendResult.answer (r : AppendResult) : Memory × Outcome := (r.mem, .appended r.ret)

/-- What the caller and the memory have after a `pop`. -/
def PopResult.answer (r : PopResult) : Memory × Outcome :=
  (r.mem, .popped r.ret r.buf r.msgLength)

/-- One call on the queue `q`. -/
def step (q : MsgQueue) (m : Memory) : Call → Memory × Outcome
  | .append pmsg len => (q.append m pmsg len).answer
  | .pop buf cap => (q.pop m buf cap).answer

@[simp] theorem AppendResult.answer_mem (r : AppendResult) : r.answer.1 = r.mem := rfl

@[simp] theorem PopResult.answer_mem (r : PopResult) : r.answer.1 = r.mem := rfl

@[simp] theorem AppendResult.answer_outcome (r : AppendResult) :
    r.answer.2 = .appended r.ret := rfl

@[simp] theorem PopResult.answer_outcome (r : PopResult) :
    r.answer.2 = .popped r.ret r.buf r.msgLength := rfl

/-- The lengths `MessageChannel` passes: a `tuint16`. -/
def Call.Short : Call → Prop
  | .append _ len => len ≤ 65535
  | .pop _ _ => True

/-- The lengths whose cost is computed without a wrap: those of the messages a memory can hold. -/
def Call.Sized : Call → Prop
  | .append _ len => len + 8 < 2 ^ 64
  | .pop _ _ => True

theorem Call.Short.sized {k : Call} (hk : k.Short) : k.Sized := by
  cases k with
  | append pmsg len =>
    have hlen : len ≤ 65535 := hk
    exact (show len + 8 < 2 ^ 64 by omega)
  | pop buf cap => trivial

/-- The message a call appends is the bytes behind its pointer. -/
def Call.abs : Call → MsgFifo.Call
  | .append pmsg len => .append (slice pmsg 0 len)
  | .pop _ cap => .pop cap

/-- The message a successful `pop` answers is the first `msg_length` bytes of the buffer. -/
def Outcome.reply : Outcome → Reply
  | .appended ret => .appended ret
  | .popped true buf len => .popped (some (slice buf 0 len))
  | .popped false _ _ => .popped none

/-- The replies of a run, as the FIFO's. -/
def replies (q : MsgQueue) (m : Memory) (ks : List Call) : List Reply :=
  (exec q.step m ks).2.map Outcome.reply

/-- The memory a run leaves. -/
def memAfter (q : MsgQueue) (m : Memory) (ks : List Call) : Memory := (exec q.step m ks).1

/-! ## The simulation -/

/-- An `append` answers as the FIFO does, and the relation holds after it. -/
theorem Holds.append_step (h : Holds q n m pending) (pmsg : Nat → UInt8) {len : Nat}
    (hlen : len + 8 < 2 ^ 64) :
    Holds q n (q.step m (.append pmsg len)).1
        (MsgFifo.step n pending (.append (slice pmsg 0 len))).1 ∧
      (q.step m (.append pmsg len)).2.reply =
        (MsgFifo.step n pending (.append (slice pmsg 0 len))).2 := by
  simp only [MsgFifo.step, frameLength, slice_length, step, AppendResult.answer_mem,
    AppendResult.answer_outcome]
  split
  · next hfit =>
    obtain ⟨hret, hnext⟩ := h.append_fits pmsg hfit
    exact ⟨hnext, congrArg Reply.appended hret⟩
  · next hfull =>
    rw [h.append_full hlen hfull]
    exact ⟨h, rfl⟩

/-- A `pop` that the FIFO refuses is refused, and leaves the relation. -/
theorem Holds.pop_stays (h : Holds q n m pending) (buf : Memory) {cap : Nat}
    (hfront : ∀ x xs, pending = x :: xs → (x = [] ∧ xs = []) ∨ cap < x.length) :
    Holds q n (q.step m (.pop buf cap)).1 pending ∧
      (q.step m (.pop buf cap)).2.reply = .popped none := by
  have hret := h.pop_refuses buf hfront
  obtain ⟨hmem, -, -⟩ := pop_false hret
  rw [step, PopResult.answer_mem, PopResult.answer_outcome, hmem, hret]
  exact ⟨h, rfl⟩

/-- A `pop` answers as the FIFO does, and the relation holds after it. -/
theorem Holds.pop_step (h : Holds q n m pending) (buf : Memory) (cap : Nat) :
    Holds q n (q.step m (.pop buf cap)).1 (MsgFifo.step n pending (.pop cap)).1 ∧
      (q.step m (.pop buf cap)).2.reply = (MsgFifo.step n pending (.pop cap)).2 := by
  cases pending with
  | nil => exact h.pop_stays buf fun x xs hxs => nomatch hxs
  | cons x xs =>
    simp only [MsgFifo.step]
    split
    · next hkeep =>
      refine h.pop_stays buf fun y ys hys => ?_
      obtain ⟨rfl, rfl⟩ := List.cons.inj hys
      exact hkeep
    · next hgive =>
      obtain ⟨hchunk, hcap⟩ := not_or.mp hgive
      obtain ⟨hret, -, hbody, hnext⟩ := h.pop_delivers buf hchunk hcap
      rw [step, PopResult.answer_mem, PopResult.answer_outcome, hret]
      exact ⟨hnext, congrArg (fun x => Reply.popped (some x)) hbody⟩

/-- **The simulation**: the queue's calls answer as the FIFO's, one call at a time. -/
theorem simulates (q : MsgQueue) (n : Nat) :
    Simulates q.step (MsgFifo.step n) Call.abs Call.Sized (Holds q n)
      (fun o r => o.reply = r) := by
  intro m pending k hk h
  cases k with
  | append pmsg len => exact h.append_step pmsg hk
  | pop buf cap => exact h.pop_step buf cap

/-- From related states a run's replies are the FIFO's, and the final states are related. -/
theorem Holds.run (h : Holds q n m pending) {ks : List Call} (hks : ∀ k ∈ ks, k.Sized) :
    Holds q n (q.memAfter m ks) (exec (MsgFifo.step n) pending (ks.map Call.abs)).1 ∧
      q.replies m ks = (exec (MsgFifo.step n) pending (ks.map Call.abs)).2 := by
  obtain ⟨hholds, hreplies⟩ := (simulates q n).exec h hks
  refine ⟨hholds, ?_⟩
  rw [← List.forall₂_eq_eq_eq]
  exact List.forall₂_map_left_iff.mpr hreplies

/-- From an empty queue on, the memory holds what the history leaves undelivered. -/
theorem Holds.run_undelivered (h : Holds q n m []) {ks : List Call} (hks : ∀ k ∈ ks, k.Sized) :
    Holds q n (q.memAfter m ks) (undelivered (ks.map Call.abs) (q.replies m ks)) := by
  obtain ⟨hholds, hreplies⟩ := h.run hks
  rw [← undelivered_exec n, ← hreplies] at hholds
  exact hholds

/-! ## The refinement -/

/-- The queue `q` of size `n`, in memory `m`, behaves over the run `ks` as a FIFO of byte
strings, and so does every call that can follow the run. -/
structure RefinesFifo (q : MsgQueue) (m : Memory) (n : Nat) (ks : List Call) : Prop where
  /-- Every reply of the run is the FIFO's. -/
  replies_eq : q.replies m ks = (exec (MsgFifo.step n) [] (ks.map Call.abs)).2
  /-- The messages popped are, in order, the first of the messages accepted. -/
  delivered_prefix :
    delivered (q.replies m ks) <+: accepted (ks.map Call.abs) (q.replies m ks)
  /-- The memory holds the accepted messages that were not popped. -/
  holds : Holds q n (q.memAfter m ks) (undelivered (ks.map Call.abs) (q.replies m ks))
  /-- A message is accepted exactly when its cost fits beside the pending ones. -/
  append_iff : ∀ pmsg, ∀ len ≤ 65535,
    (q.append (q.memAfter m ks) pmsg len).ret = true ↔
      ((undelivered (ks.map Call.abs) (q.replies m ks)).map frameLength).sum + (8 + len) ≤ n
  /-- A refused `append` changes no byte of the memory, so neither index. -/
  append_false : ∀ pmsg, ∀ len ≤ 65535, (q.append (q.memAfter m ks) pmsg len).ret = false →
    (q.append (q.memAfter m ks) pmsg len).mem = q.memAfter m ks
  /-- A refused `pop` changes no byte of the memory, nor the caller's buffer and length. -/
  pop_false : ∀ buf cap, (q.pop (q.memAfter m ks) buf cap).ret = false →
    (q.pop (q.memAfter m ks) buf cap).mem = q.memAfter m ks ∧
      (q.pop (q.memAfter m ks) buf cap).buf = buf ∧
      (q.pop (q.memAfter m ks) buf cap).msgLength = cap

/-- A queue that holds nothing refines the FIFO over every run. -/
theorem Holds.refines (h : Holds q n m []) {ks : List Call} (hks : ∀ k ∈ ks, k.Short) :
    RefinesFifo q m n ks := by
  have hsized : ∀ k ∈ ks, k.Sized := fun k hk => (hks k hk).sized
  have hreplies := (h.run hsized).2
  have hholds := h.run_undelivered hsized
  refine ⟨hreplies, ?_, hholds, fun pmsg len hlen => ?_, fun pmsg len _ hret => ?_, fun buf cap => ?_⟩
  · rw [hreplies]
    exact delivered_prefix_accepted n _
  · by_cases hfit : occupied (undelivered (ks.map Call.abs) (q.replies m ks)) + (8 + len) ≤ n
    · exact iff_of_true (hholds.append_fits pmsg hfit).1 hfit
    · rw [hholds.append_full (by omega) hfit]
      exact iff_of_false Bool.false_ne_true hfit
  · exact (MsgQueue.append_false hret).1
  · exact MsgQueue.pop_false

/-- `Msg_Queue` refines a FIFO of byte strings, from `init` in mode `ESM_INIT` on. -/
theorem init_refines_fifo (q : MsgQueue) (m : Memory) (pmem : Nat) {n : Nat} (hn : n < 2 ^ 31)
    {ks : List Call} (hks : ∀ k ∈ ks, k.Short) :
    let r := init q m pmem (allocSize n) n .init
    r.ret = true ∧ RefinesFifo r.queue r.mem n ks := by
  obtain ⟨hret, -, -, hholds, -, -⟩ := init_init q m pmem (show n < 2 ^ 62 by omega)
  exact ⟨hret, hholds.refines hks⟩

/-- One message through a queue of 32 bytes, and a `pop` of the empty queue. -/
theorem init_refines_fifo_run :
    let r := init ⟨0, 0⟩ (fun _ => 0) 64 (allocSize 32) 32 .init
    r.ret = true ∧ RefinesFifo r.queue r.mem 32
      [.append (fun _ => 7) 3, .pop (fun _ => 0) 16, .pop (fun _ => 0) 16] :=
  init_refines_fifo ⟨0, 0⟩ (fun _ => 0) 64 (by decide) (by simp [Call.Short])

/-! ## Taking the stored messages out -/

/-- What a reader relies on: to a buffer that holds the front message `pop` answers that message,
and it answers `false` to such a buffer only when nothing is pending. -/
structure TakesOut (q : MsgQueue) (m : Memory) (pending : List Message) : Prop where
  /-- The front message comes out. -/
  delivers : ∀ x ∈ pending.head?, ∀ buf cap, x.length ≤ cap →
    (q.pop m buf cap).ret = true ∧ slice (q.pop m buf cap).buf 0 (q.pop m buf cap).msgLength = x
  /-- `false` means that nothing is pending. -/
  refuses : ∀ buf cap, (∀ x ∈ pending.head?, x.length ≤ cap) → (q.pop m buf cap).ret = false →
    pending = []

/-- A lone empty message is below the chunk size `pop` asks for; no other pending list is. -/
theorem Holds.takesOut_iff (h : Holds q n m pending) : TakesOut q m pending ↔ pending ≠ [[]] := by
  cases pending with
  | nil =>
    refine iff_of_true ⟨fun x hx => (nomatch hx), fun _ _ _ _ => rfl⟩ ?_
    exact (List.cons_ne_nil [] []).symm
  | cons x xs =>
    refine ⟨?_, fun hlone => ?_⟩
    · rintro hout hlone
      obtain ⟨rfl, rfl⟩ := List.cons.inj hlone
      have hret : (q.pop m m 0).ret = false := h.pop_refuses m fun y ys hys =>
        .inl ⟨(List.cons.inj hys).1.symm, (List.cons.inj hys).2.symm⟩
      have hdelivered := (hout.delivers [] rfl m 0 (Nat.le_refl 0)).1
      rw [hret] at hdelivered
      exact Bool.false_ne_true hdelivered
    · have hchunk : ¬(x = [] ∧ xs = []) := by
        rintro ⟨rfl, rfl⟩
        exact hlone rfl
      have hpop : ∀ buf cap, x.length ≤ cap → (q.pop m buf cap).ret = true ∧
          slice (q.pop m buf cap).buf 0 (q.pop m buf cap).msgLength = x := by
        intro buf cap hcap
        obtain ⟨hret, -, hbody, -⟩ := h.pop_delivers buf hchunk (Nat.not_lt.mpr hcap)
        exact ⟨hret, hbody⟩
      refine ⟨fun y hy buf cap hcap => ?_, fun buf cap hcap hret => ?_⟩
      · obtain rfl : x = y := Option.some.inj hy
        exact hpop buf cap hcap
      · rw [(hpop buf cap (hcap x rfl)).1] at hret
        exact absurd hret.symm Bool.false_ne_true

/-- In every state a queue reaches from `init` by calls of either kind, a stored message can be
taken out if and only if it is not an empty message pending alone. -/
theorem takes_out_iff (q : MsgQueue) (m : Memory) (pmem : Nat) {n : Nat} (hn : n < 2 ^ 62)
    {ks : List Call} (hks : ∀ k ∈ ks, k.Sized) :
    let r := init q m pmem (allocSize n) n .init
    TakesOut r.queue (r.queue.memAfter r.mem ks)
        (undelivered (ks.map Call.abs) (r.queue.replies r.mem ks)) ↔
      undelivered (ks.map Call.abs) (r.queue.replies r.mem ks) ≠ [[]] := by
  obtain ⟨-, -, -, hholds, -, -⟩ := init_init q m pmem hn
  exact (hholds.run_undelivered hks).takesOut_iff

/-- An empty message with a message behind it comes out. -/
theorem takes_out_iff_run :
    let r := init ⟨0, 0⟩ (fun _ => 0) 64 (allocSize 32) 32 .init
    let ks : List Call := [.append (fun _ => 7) 0, .append (fun _ => 7) 3]
    TakesOut r.queue (r.queue.memAfter r.mem ks)
        (undelivered (ks.map Call.abs) (r.queue.replies r.mem ks)) ↔
      undelivered (ks.map Call.abs) (r.queue.replies r.mem ks) ≠ [[]] :=
  takes_out_iff ⟨0, 0⟩ (fun _ => 0) 64 (by decide) (by simp [Call.Sized])

/-- One empty message is appended to an empty queue, and no `pop` answers it. -/
theorem lone_empty_stays :
    let r := init ⟨0, 0⟩ (fun _ => 0) 64 (allocSize 32) 32 .init
    let a := r.queue.append r.mem (fun _ => 7) 0
    a.ret = true ∧ ∀ buf cap, (r.queue.pop a.mem buf cap).ret = false := by
  intro r a
  obtain ⟨-, -, -, hempty, -, -⟩ :=
    init_init ⟨0, 0⟩ (fun _ => 0) 64 (show 32 < 2 ^ 62 by decide)
  obtain ⟨hret, hholds⟩ := hempty.append_fits (fun _ => 7) (show occupied [] + (8 + 0) ≤ 32 by decide)
  refine ⟨hret, fun buf cap => hholds.pop_refuses buf ?_⟩
  rintro x xs hpending
  obtain ⟨rfl, rfl⟩ := List.cons.inj hpending
  exact .inl ⟨rfl, rfl⟩

end MmDriver.MsgQueue

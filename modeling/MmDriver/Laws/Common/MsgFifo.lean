import MmDriver.Lib.CallMachine
import Mathlib.Data.Nat.ModEq
import Mathlib.Algebra.BigOperators.Group.List.Basic

/-!
# What a message queue is for

A bounded FIFO of byte strings. Each message costs its length and the eight bytes of its
header; `append` succeeds exactly when the cost fits, and `pop` answers the front message to a
caller whose buffer holds it.

One answer is the source's own and not a FIFO's: a single empty message costs eight bytes,
which is below the chunk size `pop` asks for, so it is not delivered until another message
follows it. The machine says so, and everything else about the queue's answers is a function
of the pending list.
-/

namespace MmDriver.MsgFifo

/-- A message is a byte string. -/
abbrev Message := List UInt8

/-- What one message occupies: the header and the body. -/
def frameLength (x : Message) : Nat := 8 + x.length

/-- What a list of messages occupies. -/
def occupied (pending : List Message) : Nat := (pending.map frameLength).sum

@[simp] theorem occupied_nil : occupied [] = 0 := rfl

@[simp] theorem occupied_cons (x : Message) (xs : List Message) :
    occupied (x :: xs) = 8 + x.length + occupied xs := rfl

@[simp] theorem occupied_append (xs ys : List Message) :
    occupied (xs ++ ys) = occupied xs + occupied ys := by
  simp [occupied]

/-- A queue that occupies nothing holds nothing. -/
theorem occupied_eq_zero {xs : List Message} (h : occupied xs = 0) : xs = [] := by
  cases xs with
  | nil => rfl
  | cons x xs => rw [occupied_cons] at h; omega

inductive Call where
  | append (msg : Message)
  | pop (capacity : Nat)

inductive Reply where
  | appended (ret : Bool)
  | popped (msg : Option Message)
deriving DecidableEq, Repr

/-- The queue of capacity `n`, as a machine over its pending messages. -/
def step (n : Nat) (pending : List Message) : Call → List Message × Reply
  | .append msg =>
    if occupied pending + frameLength msg ≤ n then (pending ++ [msg], .appended true)
    else (pending, .appended false)
  | .pop capacity =>
    match pending with
    | [] => ([], .popped none)
    | x :: xs =>
      if (x = [] ∧ xs = []) ∨ capacity < x.length then (x :: xs, .popped none)
      else (xs, .popped (some x))

/-- Several queues, each call on one of them. -/
def stepAt {ι : Type} [DecidableEq ι] (n : ι → Nat) (pending : ι → List Message)
    (k : ι × Call) : (ι → List Message) × Reply :=
  let r := step (n k.1) (pending k.1) k.2
  (Function.update pending k.1 r.1, r.2)

/-- The messages whose `append` returned true, in order. -/
def accepted : List Call → List Reply → List Message
  | .append x :: ks, .appended true :: rs => x :: accepted ks rs
  | _ :: ks, _ :: rs => accepted ks rs
  | _, _ => []

/-- The messages the successful `pop` calls answered, in order. -/
def delivered : List Reply → List Message
  | .popped (some x) :: rs => x :: delivered rs
  | _ :: rs => delivered rs
  | [] => []

/-- The FIFO law of one call: what was pending and what the call accepted is what the call
delivered and what is pending now. -/
theorem step_conserves (n : Nat) (pending : List Message) (k : Call) :
    pending ++ accepted [k] [(step n pending k).2] =
      delivered [(step n pending k).2] ++ (step n pending k).1 := by
  cases k with
  | append x =>
    by_cases hfit : occupied pending + frameLength x ≤ n
    · simp [step, if_pos hfit, accepted, delivered]
    · simp [step, if_neg hfit, accepted, delivered]
  | pop capacity =>
    cases pending with
    | nil => rfl
    | cons x xs =>
      by_cases hkeep : (x = [] ∧ xs = []) ∨ capacity < x.length
      · simp [step, if_pos hkeep, accepted, delivered]
      · simp [step, if_neg hkeep, accepted, delivered]

/-- Histories are built one call at a time. -/
theorem accepted_cons (k : Call) (ks : List Call) (r : Reply) (rs : List Reply) :
    accepted (k :: ks) (r :: rs) = accepted [k] [r] ++ accepted ks rs := by
  cases k with
  | append x =>
    cases r with
    | appended ret => cases ret <;> rfl
    | popped msg => rfl
  | pop capacity => cases r <;> rfl

theorem delivered_cons (r : Reply) (rs : List Reply) :
    delivered (r :: rs) = delivered [r] ++ delivered rs := by
  cases r with
  | appended ret => rfl
  | popped msg => cases msg <;> rfl

/-- **The FIFO law**: over every run, the messages accepted are those delivered followed by
those still pending, in order. -/
theorem conserves (n : Nat) (pending : List Message) (ks : List Call) :
    pending ++ accepted ks (CallMachine.exec (step n) pending ks).2 =
      delivered (CallMachine.exec (step n) pending ks).2 ++
        (CallMachine.exec (step n) pending ks).1 := by
  induction ks generalizing pending with
  | nil => simp [accepted, delivered]
  | cons k ks ih =>
    rw [CallMachine.exec_cons_replies, CallMachine.exec_cons_state, accepted_cons, delivered_cons,
      ← List.append_assoc, step_conserves, List.append_assoc, ih, List.append_assoc]

/-! ## The pending messages, by the history alone -/

/-- The messages accepted and not delivered. -/
def undelivered (ks : List Call) (rs : List Reply) : List Message :=
  (accepted ks rs).drop (delivered rs).length

/-- The machine's state is its history. -/
theorem undelivered_exec (n : Nat) (ks : List Call) :
    undelivered ks (CallMachine.exec (step n) [] ks).2 = (CallMachine.exec (step n) [] ks).1 := by
  have h := conserves n [] ks
  rw [List.nil_append] at h
  rw [undelivered, h, List.drop_left]

theorem delivered_prefix_accepted (n : Nat) (ks : List Call) :
    delivered (CallMachine.exec (step n) [] ks).2 <+:
      accepted ks (CallMachine.exec (step n) [] ks).2 :=
  ⟨_, (conserves n [] ks).symm⟩

/-! ## Several queues -/

section Sides

variable {ι : Type} [DecidableEq ι]

/-- The messages accepted by one of several queues, in order. -/
def acceptedAt (i : ι) : List (ι × Call) → List Reply → List Message
  | k :: ks, r :: rs => (if k.1 = i then accepted [k.2] [r] else []) ++ acceptedAt i ks rs
  | _, _ => []

/-- The messages one of several queues delivered, in order. -/
def deliveredAt (i : ι) : List (ι × Call) → List Reply → List Message
  | k :: ks, r :: rs => (if k.1 = i then delivered [r] else []) ++ deliveredAt i ks rs
  | _, _ => []

/-- The FIFO law of one call, on each queue. -/
theorem stepAt_conserves (n : ι → Nat) (pending : ι → List Message) (k : ι × Call) (i : ι) :
    pending i ++ (if k.1 = i then accepted [k.2] [(stepAt n pending k).2] else []) =
      (if k.1 = i then delivered [(stepAt n pending k).2] else []) ++
        (stepAt n pending k).1 i := by
  by_cases hi : k.1 = i
  · subst hi
    rw [if_pos rfl, if_pos rfl, stepAt]
    dsimp only
    rw [Function.update_self]
    exact step_conserves (n k.1) (pending k.1) k.2
  · rw [if_neg hi, if_neg hi, stepAt]
    dsimp only
    rw [Function.update_of_ne (Ne.symm hi), List.append_nil, List.nil_append]

/-- **The FIFO law of several queues**: over every run it holds on each of them. -/
theorem conservesAt (n : ι → Nat) (pending : ι → List Message) (ks : List (ι × Call)) (i : ι) :
    pending i ++ acceptedAt i ks (CallMachine.exec (stepAt n) pending ks).2 =
      deliveredAt i ks (CallMachine.exec (stepAt n) pending ks).2 ++
        (CallMachine.exec (stepAt n) pending ks).1 i := by
  induction ks generalizing pending with
  | nil => simp [acceptedAt, deliveredAt]
  | cons k ks ih =>
    rw [CallMachine.exec_cons_replies, CallMachine.exec_cons_state, acceptedAt, deliveredAt,
      ← List.append_assoc, stepAt_conserves, List.append_assoc, ih, List.append_assoc]

/-- Once the messages `front` are delivered, what was pending behind them and what was accepted
since is pending. -/
theorem exec_eq_of_delivered {n : ι → Nat} {pending : ι → List Message} {ks : List (ι × Call)}
    {i : ι} {front back : List Message} (hpending : pending i = front ++ back)
    (hlen : (deliveredAt i ks (CallMachine.exec (stepAt n) pending ks).2).length = front.length) :
    (CallMachine.exec (stepAt n) pending ks).1 i =
      back ++ acceptedAt i ks (CallMachine.exec (stepAt n) pending ks).2 := by
  have h := conservesAt n pending ks i
  rw [hpending, List.append_assoc] at h
  exact (List.append_inj_right h hlen.symm).symm

end Sides

end MmDriver.MsgFifo

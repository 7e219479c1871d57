import MmDriver.Laws.Test.MessageLoop
import MmDriver.Test.HttpManagerService

/-!
# What the HTTP dispatcher loses

The manager's `Tick` runs in steps, and between any two of them the services may receive messages
and send answers, and the net service may send messages and collect answers. `Linked` is the
invariant: what is pending on each side of each channel.

Every message and answer the manager takes is in its hands until a send is made for it, and every
send that is accepted is behind the messages that are pending (`Linked.step`, `Linked.run`): a run
drops something exactly when a step of the manager finds no room for what it has in hand.

Every call is made in one piece here.
-/

namespace MmDriver

open ByteMem MessageChannel CallMachine

namespace HttpManagerService

variable {σ : Type}

/-! ## The system -/

/-- A step of the manager, a call of the net service on the manager's channel, or a call of one of
the services on its own. -/
inductive Action where
  | manager
  | net (k : MessageChannel.Call)
  | http (iter : Nat) (k : MessageChannel.Call)

/-- The net service sends to the output queue and receives from the input queue. -/
def NetCall : MessageChannel.Call → Prop
  | (.output, .append _ usMsgSize) => usMsgSize < 2 ^ 16
  | (.input, .pop _ usMsgSize) => usMsgSize < 2 ^ 16
  | _ => False

/-- A service receives from its output queue and sends what an encoder made to its input queue. -/
def HttpCall : MessageChannel.Call → Prop
  | (.output, .pop _ usMsgSize) => usMsgSize < 2 ^ 16
  | (.input, .append pMsgBuff usMsgSize) => Encoded (slice pMsgBuff 0 usMsgSize)
  | _ => False

/-- The calls each party makes. -/
def Action.Allowed : Action → Prop
  | .manager => True
  | .net k => NetCall k
  | .http _ k => HttpCall k

/-- The message a receive delivered. -/
def received : MsgQueue.Outcome → Option MsgFifo.Message
  | .popped true buf len => some (slice buf 0 len)
  | _ => none

/-- One action. -/
def step (s : HttpManagerService σ) : Action → HttpManagerService σ × Option Event
  | .manager => s.managerStep
  | .net k =>
    let r := s.kMsgChannel.step s.mem k
    ({ s with mem := r.1 }, (received r.2).map .collected)
  | .http iter k =>
    match s.httpServicePool[iter]? with
    | some (some slot) =>
      let r := slot.svc.kMCHttp2Login.step slot.mem k
      ({ s with httpServicePool := s.httpServicePool.set iter (some ⟨slot.svc, r.1⟩) },
        (received r.2).map (.served iter))
    | some none | none => (s, none)

/-! ## What is pending -/

/-- The messages pending on the manager's channel and on those of the services. -/
structure Pendings where
  manager : Side → List MsgFifo.Message
  service : Nat → Side → List MsgFifo.Message

/-- The channels are initialised and hold `p`, and the services' answers were encoded. -/
structure Linked (n : Side → Nat) (ns : Nat → Side → Nat) (s : HttpManagerService σ)
    (p : Pendings) : Prop where
  manager : Attached s.kMsgChannel n s.mem p.manager
  service : ∀ i slot, s.httpServicePool[i]? = some (some slot) →
    Attached slot.svc.kMCHttp2Login (ns i) slot.mem (p.service i)
  answers : ∀ i slot, s.httpServicePool[i]? = some (some slot) → ∀ x ∈ p.service i .input, Encoded x
  bufSize : s.bufSize < 2 ^ 16

/-! ## Projections of the events -/

def Event.took? : Event → Option MsgFifo.Message
  | .took x => some x
  | _ => none

def Event.forwarded? : Event → Option MsgFifo.Message
  | .forwarded _ x => some x
  | _ => none

def Event.forwardedTo? (i : Nat) : Event → Option MsgFifo.Message
  | .forwarded j x => if j = i then some x else none
  | _ => none

def Event.servedBy? (i : Nat) : Event → Option MsgFifo.Message
  | .served j x => if j = i then some x else none
  | _ => none

def Event.tookResponse? : Event → Option MsgFifo.Message
  | .tookResponse _ x => some x
  | _ => none

def Event.returned? : Event → Option MsgFifo.Message
  | .returned x => some x
  | _ => none

def Event.collected? : Event → Option MsgFifo.Message
  | .collected x => some x
  | _ => none

/-- The message that is to be dispatched. -/
def inHand (s : HttpManagerService σ) : List MsgFifo.Message :=
  match s.pc with
  | .dispatch => [slice s.buf 0 s.bufSize]
  | _ => []

/-- The answer that is to be sent back. -/
def answerInHand (s : HttpManagerService σ) : List MsgFifo.Message :=
  match s.pc with
  | .sendInput _ => [slice s.buf 0 s.bufSize]
  | _ => []

/-- The first service of the pool that is free. -/
def firstFree (pool : List (Option (HttpSlot σ))) : Option (HttpSlot σ) :=
  pool.findSome? fun slot => slot.filter (·.svc.isFree)

/-- Where the manager is about to send, there is a free service with room for the message, or room
for the answer in the manager's own input queue. -/
def HasRoom (s : HttpManagerService σ) : Prop :=
  match s.pc with
  | .dispatch => ∃ slot, firstFree s.httpServicePool = some slot ∧
      s.bufSize + 8 ≤ slot.svc.kMCHttp2Login.msgOutput.getFreeSize slot.mem
  | .sendInput _ => s.bufSize + 8 ≤ s.kMsgChannel.msgInput.getFreeSize s.mem
  | _ => True

/-- What the events of a run move between the queues. -/
structure Flow (p p' : Pendings) (events : List Event) : Prop where
  service : ∀ i, p.service i .output ++ events.filterMap (Event.forwardedTo? i) =
    events.filterMap (Event.servedBy? i) ++ p'.service i .output
  manager : p.manager .input ++ events.filterMap Event.returned? =
    events.filterMap Event.collected? ++ p'.manager .input

theorem Flow.refl (p : Pendings) : Flow p p [] := ⟨fun _ => by simp, by simp⟩

/-- The queues the flow is about are as they were, and the events do not speak of them. -/
theorem Flow.of_same {p p' : Pendings} {events : List Event}
    (hservice : ∀ i, p'.service i .output = p.service i .output)
    (hmanager : p'.manager .input = p.manager .input)
    (hforwarded : ∀ i, events.filterMap (Event.forwardedTo? i) = [])
    (hserved : ∀ i, events.filterMap (Event.servedBy? i) = [])
    (hreturned : events.filterMap Event.returned? = [])
    (hcollected : events.filterMap Event.collected? = []) : Flow p p' events := by
  refine ⟨fun i => ?_, ?_⟩
  · rw [hforwarded, hserved, hservice, List.append_nil, List.nil_append]
  · rw [hreturned, hcollected, hmanager, List.append_nil, List.nil_append]

theorem Flow.append {p p' p'' : Pendings} {events events' : List Event} (h : Flow p p' events)
    (h' : Flow p' p'' events') : Flow p p'' (events ++ events') := by
  refine ⟨fun i => ?_, ?_⟩
  · rw [List.filterMap_append, List.filterMap_append, ← List.append_assoc, h.service,
      List.append_assoc, h'.service, List.append_assoc]
  · rw [List.filterMap_append, List.filterMap_append, ← List.append_assoc, h.manager,
      List.append_assoc, h'.manager, List.append_assoc]

/-! ## The books -/

/-- Every message and every answer that was in hand or was taken was sent on, or is in hand. -/
structure Settled (s s' : HttpManagerService σ) (events : List Event) : Prop where
  messages : s.inHand ++ events.filterMap Event.took? =
    events.filterMap Event.forwarded? ++ s'.inHand
  answers : s.answerInHand ++ events.filterMap Event.tookResponse? =
    events.filterMap Event.returned? ++ s'.answerInHand

/-- The books of a run in which `lost` messages and answers were dropped. -/
structure Ledger (s s' : HttpManagerService σ) (events : List Event) (lost : Nat) : Prop where
  settled : lost = 0 → Settled s s' events
  count : s.inHand.length + (events.filterMap Event.took?).length +
      (s.answerInHand.length + (events.filterMap Event.tookResponse?).length) =
    (events.filterMap Event.forwarded?).length + s'.inHand.length +
      ((events.filterMap Event.returned?).length + s'.answerInHand.length) + lost

theorem Settled.ledger {s s' : HttpManagerService σ} {events : List Event}
    (h : Settled s s' events) : Ledger s s' events 0 := by
  refine ⟨fun _ => h, ?_⟩
  have hmessages := congrArg List.length h.messages
  have hanswers := congrArg List.length h.answers
  rw [List.length_append, List.length_append] at hmessages hanswers
  rw [hmessages, hanswers, Nat.add_zero]

theorem Settled.append {s s' s'' : HttpManagerService σ} {events events' : List Event}
    (h : Settled s s' events) (h' : Settled s' s'' events') : Settled s s'' (events ++ events') := by
  constructor
  · rw [List.filterMap_append, List.filterMap_append, ← List.append_assoc, h.messages,
      List.append_assoc, h'.messages, List.append_assoc]
  · rw [List.filterMap_append, List.filterMap_append, ← List.append_assoc, h.answers,
      List.append_assoc, h'.answers, List.append_assoc]

theorem Ledger.append {s s' s'' : HttpManagerService σ} {events events' : List Event}
    {lost lost' : Nat} (h : Ledger s s' events lost) (h' : Ledger s' s'' events' lost') :
    Ledger s s'' (events ++ events') (lost + lost') := by
  refine ⟨fun hnone => ?_, ?_⟩
  · obtain ⟨hfirst, hsecond⟩ := Nat.add_eq_zero_iff.mp hnone
    exact (h.settled hfirst).append (h'.settled hsecond)
  · have hcount := h.count
    have hcount' := h'.count
    simp only [List.filterMap_append, List.length_append]
    omega

/-- What was in hand is in no hand any more, and nothing was sent. -/
theorem Ledger.dropped {s s' : HttpManagerService σ}
    (hbefore : s.inHand.length + s.answerInHand.length = 1) (hhand : s'.inHand = [])
    (hanswer : s'.answerInHand = []) : Ledger s s' [] 1 := by
  refine ⟨fun hnone => absurd hnone Nat.one_ne_zero, ?_⟩
  rw [hhand, hanswer]
  simp only [List.filterMap_nil, List.length_nil]
  omega

/-- The books balance exactly when nothing was dropped. -/
theorem Ledger.settled_iff {s s' : HttpManagerService σ} {events : List Event} {lost : Nat}
    (h : Ledger s s' events lost) : Settled s s' events ↔ lost = 0 := by
  refine ⟨fun hsettled => ?_, h.settled⟩
  have hcount := h.count
  have hbalance := hsettled.ledger.count
  omega

/-- A step that changes neither hand and reports nothing about the manager. -/
theorem Settled.of_same {s s' : HttpManagerService σ} {events : List Event}
    (hhand : s'.inHand = s.inHand) (hanswer : s'.answerInHand = s.answerInHand)
    (htook : events.filterMap Event.took? = []) (hforwarded : events.filterMap Event.forwarded? = [])
    (hresponse : events.filterMap Event.tookResponse? = [])
    (hreturned : events.filterMap Event.returned? = []) : Settled s s' events := by
  constructor
  · rw [htook, hforwarded, hhand, List.append_nil, List.nil_append]
  · rw [hresponse, hreturned, hanswer, List.append_nil, List.nil_append]

/-! ## One step -/

variable {n : Side → Nat} {ns : Nat → Side → Nat} {s : HttpManagerService σ} {p : Pendings}

/-- What a step does: it keeps the channels, moves what its event says, and drops something exactly
when there was no room. -/
def StepLaw (n : Side → Nat) (ns : Nat → Side → Nat) (s s' : HttpManagerService σ)
    (event : Option Event) (p : Pendings) (room : Prop) : Prop :=
  ∃ p' lost, Linked n ns s' p' ∧ Flow p p' event.toList ∧ Ledger s s' event.toList lost ∧
    (lost = 0 ↔ room)

/-- The manager's queues, with other messages on one side. -/
def Pendings.setManager (p : Pendings) (s : Side) (xs : List MsgFifo.Message) : Pendings :=
  { p with manager := Function.update p.manager s xs }

/-- The flow is not about the manager's output queue. -/
theorem Pendings.flow_setManager (p : Pendings) (xs : List MsgFifo.Message) {events : List Event}
    (hforwarded : ∀ i, events.filterMap (Event.forwardedTo? i) = [])
    (hserved : ∀ i, events.filterMap (Event.servedBy? i) = [])
    (hreturned : events.filterMap Event.returned? = [])
    (hcollected : events.filterMap Event.collected? = []) :
    Flow p (p.setManager .output xs) events := by
  have hother : Side.input ≠ Side.output := by decide
  exact .of_same (fun _ => rfl) (Function.update_of_ne hother xs p.manager) hforwarded hserved
    hreturned hcollected

/-- A service's queues, with other messages on one side. -/
def Pendings.setService (p : Pendings) (i : Nat) (s : Side) (xs : List MsgFifo.Message) : Pendings :=
  { p with service := Function.update p.service i (Function.update (p.service i) s xs) }

/-- A step that only changes where the manager stands, and has nothing in hand before and after. -/
theorem StepLaw.moved {s' : HttpManagerService σ} (hlinked : Linked n ns s' p)
    (hhand : s'.inHand = s.inHand) (hanswer : s'.answerInHand = s.answerInHand) :
    StepLaw n ns s s' none p True :=
  ⟨p, 0, hlinked, .refl p, (Settled.of_same hhand hanswer rfl rfl rfl rfl).ledger,
    iff_of_true rfl trivial⟩

/-! ### Taking a message -/

theorem managerStep_idle (hpc : s.pc = .idle) : s.managerStep =
    ({ s with pc := .recvOutput, buf := fun _ => 0, bufSize := messageLoopBufSize }, none) := by
  simp only [managerStep, hpc]

theorem managerStep_recvOutput (hpc : s.pc = .recvOutput) : s.managerStep =
    s.afterRecvOutput (s.kMsgChannel.recvMessageOutput s.mem s.buf s.bufSize) := by
  simp only [managerStep, hpc]

/-- Nothing is in hand but where a send is next. -/
theorem hands_empty {pc : TickPc} (hpc : s.pc = pc) (hdispatch : pc ≠ .dispatch)
    (hsend : ∀ iter, pc ≠ .sendInput iter) : s.inHand = [] ∧ s.answerInHand = [] := by
  subst hpc
  unfold inHand answerInHand
  cases hpc : s.pc with
  | idle => exact ⟨rfl, rfl⟩
  | recvOutput => exact ⟨rfl, rfl⟩
  | dispatch => exact absurd hpc hdispatch
  | recvInput iter => exact ⟨rfl, rfl⟩
  | sendInput iter => exact absurd hpc (hsend iter)

theorem Linked.idle (h : Linked n ns s p) (hpc : s.pc = .idle) :
    StepLaw n ns s s.managerStep.1 s.managerStep.2 p True := by
  have hsize : messageLoopBufSize < 2 ^ 16 := by decide
  obtain ⟨hhand, hanswer⟩ := hands_empty hpc TickPc.noConfusion fun _ => TickPc.noConfusion
  rw [managerStep_idle hpc]
  exact .moved ⟨h.manager, h.service, h.answers, hsize⟩ hhand.symm hanswer.symm

theorem Linked.afterRecvOutput (h : Linked n ns s p) (hpc : s.pc = .recvOutput)
    {r : MsgQueue.PopResult} (hlen : r.msgLength < 2 ^ 16)
    (hcases : (r.ret = false ∧ Attached s.kMsgChannel n r.mem p.manager) ∨
      (r.ret = true ∧ ∃ xs, p.manager .output = slice r.buf 0 r.msgLength :: xs ∧
        Attached s.kMsgChannel n r.mem (Function.update p.manager .output xs))) :
    StepLaw n ns s (s.afterRecvOutput r).1 (s.afterRecvOutput r).2 p True := by
  obtain ⟨hhand, hanswer⟩ := hands_empty hpc TickPc.noConfusion fun _ => TickPc.noConfusion
  rcases hcases with ⟨hret, hnext⟩ | ⟨hret, xs, -, hnext⟩
  · rw [HttpManagerService.afterRecvOutput, if_pos hret]
    exact .moved ⟨hnext, h.service, h.answers, hlen⟩ hhand.symm hanswer.symm
  · rw [HttpManagerService.afterRecvOutput, if_neg (by rw [hret]; decide)]
    cases headFits r.buf r.msgLength with
    | false =>
      rw [if_pos rfl]
      refine ⟨p.setManager .output xs, 0, ⟨hnext, h.service, h.answers, hlen⟩,
        p.flow_setManager xs (fun _ => rfl) (fun _ => rfl) rfl rfl, Settled.ledger ?_,
        iff_of_true rfl trivial⟩
      exact Settled.of_same hhand.symm hanswer.symm rfl rfl rfl rfl
    | true =>
      rw [if_neg (by decide)]
      refine ⟨p.setManager .output xs, 0, ⟨hnext, h.service, h.answers, hlen⟩,
        p.flow_setManager xs (fun _ => rfl) (fun _ => rfl) rfl rfl, Settled.ledger ⟨?_, ?_⟩,
        iff_of_true rfl trivial⟩
      · rw [hhand]
        rfl
      · rw [hanswer]
        rfl

theorem Linked.recvOutput (h : Linked n ns s p) (hpc : s.pc = .recvOutput) :
    StepLaw n ns s s.managerStep.1 s.managerStep.2 p True := by
  obtain ⟨hlen, hcases⟩ := h.manager.recv_cases .output s.buf h.bufSize
  rw [recv_output] at hlen hcases
  rw [managerStep_recvOutput hpc]
  generalize s.kMsgChannel.recvMessageOutput s.mem s.buf s.bufSize = r at hlen hcases ⊢
  exact h.afterRecvOutput hpc hlen hcases

/-! ### Dispatching it -/

/-- The loop over the pool: the first free service is sent the message, and the others are left
alone. -/
theorem dispatchBy_spec (send : HttpSlot σ → HttpSlot σ × Bool) (pool : List (Option (HttpSlot σ))) :
    (firstFree pool = none ∧ dispatchBy send pool = (pool, none)) ∨
      ∃ i slot, firstFree pool = some slot ∧ pool[i]? = some (some slot) ∧
        dispatchBy send pool = (pool.set i (some (send slot).1), some (i, (send slot).2)) := by
  induction pool with
  | nil => exact .inl ⟨rfl, rfl⟩
  | cons head pool ih =>
    -- a place that is skipped shifts what the rest of the pool does by one
    have hskip : (firstFree (head :: pool) = firstFree pool) →
        dispatchBy send (head :: pool) =
          (head :: (dispatchBy send pool).1,
            (dispatchBy send pool).2.map fun sent => (sent.1 + 1, sent.2)) →
        (firstFree (head :: pool) = none ∧ dispatchBy send (head :: pool) = (head :: pool, none)) ∨
          ∃ i slot, firstFree (head :: pool) = some slot ∧ (head :: pool)[i]? = some (some slot) ∧
            dispatchBy send (head :: pool) =
              ((head :: pool).set i (some (send slot).1), some (i, (send slot).2)) := by
      intro hfree hdispatch
      rw [hfree, hdispatch]
      rcases ih with ⟨hnone, heq⟩ | ⟨i, slot, hsome, hi, heq⟩
      · rw [heq]
        exact .inl ⟨hnone, rfl⟩
      · rw [heq]
        exact .inr ⟨i + 1, slot, hsome, hi, rfl⟩
    cases head with
    | none => exact hskip rfl (by rw [dispatchBy])
    | some slot =>
      cases hslot : slot.svc.isFree with
      | false =>
        refine hskip ?_ ?_
        · simp [firstFree, hslot]
        · rw [dispatchBy, if_neg (by rw [hslot]; decide)]
      | true =>
        refine .inr ⟨0, slot, ?_, rfl, ?_⟩
        · simp [firstFree, hslot]
        · rw [dispatchBy, if_pos hslot]
          rfl

theorem dispatch_spec (buf : Memory) (bufSize : Nat) (pool : List (Option (HttpSlot σ))) :
    (firstFree pool = none ∧ dispatch buf bufSize pool = (pool, none)) ∨
      ∃ i slot, firstFree pool = some slot ∧ pool[i]? = some (some slot) ∧
        dispatch buf bufSize pool =
          (pool.set i (some ⟨(slot.svc.sendMessageOutput slot.mem buf bufSize).1,
              (slot.svc.sendMessageOutput slot.mem buf bufSize).2.mem⟩),
            some (i, (slot.svc.sendMessageOutput slot.mem buf bufSize).2.ret)) :=
  dispatchBy_spec _ pool

/-- One service's channel is used: the others are as they were. -/
theorem Linked.setService (h : Linked n ns s p) {s' : HttpManagerService σ} {i : Nat}
    {slot slot' : HttpSlot σ} {side : Side} {ys : List MsgFifo.Message}
    (hslot : s.httpServicePool[i]? = some (some slot))
    (hchannel : s'.kMsgChannel = s.kMsgChannel) (hmem : s'.mem = s.mem)
    (hpool : s'.httpServicePool = s.httpServicePool.set i (some slot'))
    (hsize : s'.bufSize < 2 ^ 16) (hsame : slot'.svc.kMCHttp2Login = slot.svc.kMCHttp2Login)
    (hnext : Attached slot.svc.kMCHttp2Login (ns i) slot'.mem
      (Function.update (p.service i) side ys))
    (hanswers : ∀ x ∈ Function.update (p.service i) side ys .input, Encoded x) :
    Linked n ns s' (p.setService i side ys) := by
  have hi : i < s.httpServicePool.length := (List.getElem?_eq_some_iff.mp hslot).1
  -- a place of the new pool is the one that was set, or as it was
  have hplace : ∀ j other, s'.httpServicePool[j]? = some (some other) →
      (j = i ∧ other = slot') ∨ (j ≠ i ∧ s.httpServicePool[j]? = some (some other)) := by
    intro j other hother
    rw [hpool] at hother
    by_cases hj : j = i
    · subst hj
      rw [List.getElem?_set_self hi] at hother
      exact .inl ⟨rfl, (Option.some.inj (Option.some.inj hother)).symm⟩
    · rw [List.getElem?_set_ne (Ne.symm hj)] at hother
      exact .inr ⟨hj, hother⟩
  refine ⟨?_, fun j other hother => ?_, fun j other hother => ?_, hsize⟩
  · rw [hchannel, hmem]
    exact h.manager
  · rcases hplace j other hother with ⟨rfl, rfl⟩ | ⟨hj, hold⟩
    · rw [hsame]
      simpa [Pendings.setService] using hnext
    · simpa [Pendings.setService, Function.update_of_ne hj] using h.service j other hold
  · rcases hplace j other hother with ⟨rfl, rfl⟩ | ⟨hj, hold⟩
    · simpa [Pendings.setService] using hanswers
    · simpa [Pendings.setService, Function.update_of_ne hj] using h.answers j other hold

theorem managerStep_dispatch (hpc : s.pc = .dispatch) :
    s.managerStep = s.afterDispatch (dispatch s.buf s.bufSize s.httpServicePool) := by
  simp only [managerStep, hpc]

/-- What the send to the service at `i` moves. -/
theorem Pendings.flow_forwarded (p : Pendings) (i : Nat) (x : MsgFifo.Message) :
    Flow p (p.setService i .output (p.service i .output ++ [x])) [.forwarded i x] := by
  constructor
  · intro j
    by_cases hj : i = j
    · subst hj
      have hmoved : (p.setService i .output (p.service i .output ++ [x])).service i .output =
          p.service i .output ++ [x] := by simp [Pendings.setService]
      rw [hmoved]
      simp [List.filterMap_cons, Event.forwardedTo?, Event.servedBy?]
    · have hsame : (p.setService i .output (p.service i .output ++ [x])).service j .output =
          p.service j .output := by simp [Pendings.setService, Function.update_of_ne (Ne.symm hj)]
      rw [hsame]
      simp [List.filterMap_cons, Event.forwardedTo?, Event.servedBy?, hj]
  · exact List.append_nil _

/-- The service at `i` was sent the message, with the result `ret`. -/
theorem Linked.sentTo (h : Linked n ns s p) (hpc : s.pc = .dispatch) {i : Nat} {slot : HttpSlot σ}
    (hslot : s.httpServicePool[i]? = some (some slot)) {r : MsgQueue.AppendResult}
    (hnext : Attached slot.svc.kMCHttp2Login (ns i) r.mem (Function.update (p.service i) .output
      (if r.ret then p.service i .output ++ [slice s.buf 0 s.bufSize] else p.service i .output))) :
    let sent := s.afterDispatch (s.httpServicePool.set i
      (some ⟨{ slot.svc with bFree := false }, r.mem⟩), some (i, r.ret))
    StepLaw n ns s sent.1 sent.2 p (r.ret = true) := by
  have hhand : s.inHand = [slice s.buf 0 s.bufSize] := by simp only [inHand, hpc]
  have hanswer : s.answerInHand = [] := by simp only [answerInHand, hpc]
  have hinput : ∀ ys, ∀ x ∈ Function.update (p.service i) .output ys Side.input, Encoded x := by
    intro ys x hx
    have hother : Side.input ≠ Side.output := by decide
    rw [Function.update_of_ne hother] at hx
    exact h.answers i slot hslot x hx
  obtain ⟨ret, mem, spans⟩ := r
  cases ret with
  | true =>
    refine ⟨p.setService i .output (p.service i .output ++ [slice s.buf 0 s.bufSize]), 0,
      h.setService hslot rfl rfl rfl h.bufSize rfl hnext (hinput _), p.flow_forwarded i _,
      Settled.ledger ⟨?_, ?_⟩, iff_of_true rfl rfl⟩
    · rw [hhand]
      rfl
    · rw [hanswer]
      rfl
  | false =>
    refine ⟨p.setService i .output (p.service i .output), 1,
      h.setService hslot rfl rfl rfl h.bufSize rfl hnext (hinput _), ?_,
      Ledger.dropped (by rw [hhand, hanswer]; rfl) rfl rfl,
      iff_of_false Nat.one_ne_zero Bool.false_ne_true⟩
    refine .of_same (fun j => ?_) rfl (fun _ => rfl) (fun _ => rfl) rfl rfl
    simp [Pendings.setService]

theorem not_hasRoom (hpc : s.pc = .dispatch) (hbusy : firstFree s.httpServicePool = none) :
    ¬HasRoom s := by
  simp only [HasRoom, hpc, hbusy]
  rintro ⟨slot, hslot, -⟩
  cases hslot

theorem Linked.dispatch (h : Linked n ns s p) (hpc : s.pc = .dispatch) :
    StepLaw n ns s s.managerStep.1 s.managerStep.2 p (HasRoom s) := by
  rw [managerStep_dispatch hpc]
  rcases dispatch_spec s.buf s.bufSize s.httpServicePool with ⟨hnone, heq⟩ |
    ⟨i, slot, hfree, hslot, heq⟩
  · -- no service is free
    have hhand : s.inHand = [slice s.buf 0 s.bufSize] := by simp only [inHand, hpc]
    have hanswer : s.answerInHand = [] := by simp only [answerInHand, hpc]
    rw [heq]
    exact ⟨p, 1, ⟨h.manager, h.service, h.answers, h.bufSize⟩, .refl p,
      Ledger.dropped (by rw [hhand, hanswer]; rfl) rfl rfl,
      iff_of_false Nat.one_ne_zero (not_hasRoom hpc hnone)⟩
  · have hsend := (h.service i slot hslot).send_cases .output s.buf h.bufSize
    have hroom : HasRoom s ↔
        s.bufSize + 8 ≤ (slot.svc.kMCHttp2Login.queue .output).getFreeSize slot.mem := by
      simp only [HasRoom, hpc, hfree]
      constructor
      · rintro ⟨slot', hslot', hfits⟩
        obtain rfl := Option.some.inj hslot'
        exact hfits
      · exact fun hfits => ⟨slot, rfl, hfits⟩
    rw [heq, HttpService.sendMessageOutput]
    rw [send_output] at hsend
    generalize slot.svc.kMCHttp2Login.sendMessageOutput slot.mem s.buf s.bufSize = r at hsend ⊢
    obtain ⟨hret, hnext⟩ := hsend
    have hlaw := h.sentTo hpc hslot hnext
    rw [hret.trans hroom.symm] at hlaw
    exact hlaw

/-! ### Taking an answer -/

theorem managerStep_recvInput {iter : Nat} (hpc : s.pc = .recvInput iter) {slot : HttpSlot σ}
    (hslot : s.httpServicePool[iter]? = some (some slot)) : s.managerStep =
      s.afterRecvInput iter (slot.svc.recvMessasgeInput slot.mem s.buf s.bufSize) := by
  simp only [managerStep, hpc, hslot]

/-- Where an encoded message was received, its head fits. -/
theorem headFits_of_encoded {buf : Memory} {bufSize : Nat} (h : Encoded (slice buf 0 bufSize)) :
    headFits buf bufSize = true := by
  have hlen : (slice buf 0 bufSize).length = bufSize := slice_length buf 0 bufSize
  obtain ⟨hhead, -⟩ := h.received (congrArg (slice buf 0) hlen)
  have hsize := h.nSize
  rw [hlen] at hhead hsize
  rw [headFits, hhead, hsize]
  exact decide_eq_true rfl

/-- The flow is not about the services' input queues. -/
theorem Pendings.flow_setService (p : Pendings) (i : Nat) (xs : List MsgFifo.Message)
    {events : List Event} (hforwarded : ∀ i, events.filterMap (Event.forwardedTo? i) = [])
    (hserved : ∀ i, events.filterMap (Event.servedBy? i) = [])
    (hreturned : events.filterMap Event.returned? = [])
    (hcollected : events.filterMap Event.collected? = []) :
    Flow p (p.setService i .input xs) events := by
  refine .of_same (fun j => ?_) rfl hforwarded hserved hreturned hcollected
  by_cases hj : j = i
  · subst hj
    simp [Pendings.setService]
  · simp [Pendings.setService, Function.update_of_ne hj]

/-- The service at `iter` was asked for an answer. -/
theorem Linked.afterRecvInput (h : Linked n ns s p) {iter : Nat} (hpc : s.pc = .recvInput iter)
    {slot : HttpSlot σ} (hslot : s.httpServicePool[iter]? = some (some slot))
    {r : MsgQueue.PopResult} (hlen : r.msgLength < 2 ^ 16)
    (hcases : (r.ret = false ∧ Attached slot.svc.kMCHttp2Login (ns iter) r.mem (p.service iter)) ∨
      (r.ret = true ∧ ∃ xs, p.service iter .input = slice r.buf 0 r.msgLength :: xs ∧
        Attached slot.svc.kMCHttp2Login (ns iter) r.mem
          (Function.update (p.service iter) .input xs))) :
    let asked := s.afterRecvInput iter ({ slot.svc with bFree := true }, r)
    StepLaw n ns s asked.1 asked.2 p True := by
  obtain ⟨hhand, hanswer⟩ := hands_empty hpc TickPc.noConfusion fun _ => TickPc.noConfusion
  have hencoded : ∀ x ∈ p.service iter .input, Encoded x := h.answers iter slot hslot
  rcases hcases with ⟨hret, hnext⟩ | ⟨hret, xs, hfront, hnext⟩
  · have hsame : Attached slot.svc.kMCHttp2Login (ns iter) r.mem
        (Function.update (p.service iter) .input (p.service iter .input)) := by
      rwa [Function.update_eq_self]
    rw [HttpManagerService.afterRecvInput, if_pos hret]
    refine ⟨p.setService iter .input (p.service iter .input), 0,
      h.setService hslot rfl rfl rfl hlen rfl hsame ?_,
      p.flow_setService iter _ (fun _ => rfl) (fun _ => rfl) rfl rfl, Settled.ledger ?_,
      iff_of_true rfl trivial⟩
    · rwa [Function.update_self]
    · exact Settled.of_same hhand.symm hanswer.symm rfl rfl rfl rfl
  · -- what a service sends was encoded, and its head fits
    rw [hfront] at hencoded
    have hfits : headFits r.buf r.msgLength = true :=
      headFits_of_encoded (hencoded _ List.mem_cons_self)
    rw [HttpManagerService.afterRecvInput, if_neg (by rw [hret]; decide),
      if_neg (by rw [hfits]; decide)]
    refine ⟨p.setService iter .input xs, 0, h.setService hslot rfl rfl rfl hlen rfl hnext ?_,
      p.flow_setService iter xs (fun _ => rfl) (fun _ => rfl) rfl rfl, Settled.ledger ⟨?_, ?_⟩,
      iff_of_true rfl trivial⟩
    · rw [Function.update_self]
      exact fun x hx => hencoded x (List.mem_cons_of_mem _ hx)
    · rw [hhand]
      rfl
    · rw [hanswer]
      rfl

theorem Linked.recvInput (h : Linked n ns s p) {iter : Nat} (hpc : s.pc = .recvInput iter) :
    StepLaw n ns s s.managerStep.1 s.managerStep.2 p True := by
  obtain ⟨hhand, hanswer⟩ := hands_empty hpc TickPc.noConfusion fun _ => TickPc.noConfusion
  match hslot : s.httpServicePool[iter]? with
  | none =>
    have hstep : s.managerStep = ({ s with pc := .idle }, none) := by
      simp only [managerStep, hpc, hslot]
    rw [hstep]
    exact .moved ⟨h.manager, h.service, h.answers, h.bufSize⟩ hhand.symm hanswer.symm
  | some none =>
    have hstep : s.managerStep = ({ s with pc := .recvInput (iter + 1) }, none) := by
      simp only [managerStep, hpc, hslot]
    rw [hstep]
    exact .moved ⟨h.manager, h.service, h.answers, h.bufSize⟩ hhand.symm hanswer.symm
  | some (some slot) =>
    obtain ⟨hlen, hcases⟩ := (h.service iter slot hslot).recv_cases .input s.buf h.bufSize
    rw [recv_input] at hlen hcases
    rw [managerStep_recvInput hpc hslot, HttpService.recvMessasgeInput]
    generalize slot.svc.kMCHttp2Login.recvMessasgeInput slot.mem s.buf s.bufSize = r at hlen hcases ⊢
    exact h.afterRecvInput hpc hslot hlen hcases

/-! ### Sending it back -/

theorem managerStep_sendInput {iter : Nat} (hpc : s.pc = .sendInput iter) : s.managerStep =
    s.afterSendInput iter (s.kMsgChannel.sendMessageInput s.mem s.buf s.bufSize) := by
  simp only [managerStep, hpc]

/-- The answer was sent back, with the result `r.ret`. -/
theorem Linked.afterSendInput (h : Linked n ns s p) {iter : Nat} (hpc : s.pc = .sendInput iter)
    {r : MsgQueue.AppendResult}
    (hnext : Attached s.kMsgChannel n r.mem (Function.update p.manager .input
      (if r.ret then p.manager .input ++ [slice s.buf 0 s.bufSize] else p.manager .input))) :
    StepLaw n ns s (s.afterSendInput iter r).1 (s.afterSendInput iter r).2 p (r.ret = true) := by
  have hhand : s.inHand = [] := by simp only [inHand, hpc]
  have hanswer : s.answerInHand = [slice s.buf 0 s.bufSize] := by simp only [answerInHand, hpc]
  obtain ⟨ret, mem, spans⟩ := r
  cases ret with
  | true =>
    refine ⟨p.setManager .input (p.manager .input ++ [slice s.buf 0 s.bufSize]), 0,
      ⟨hnext, h.service, h.answers, h.bufSize⟩, ⟨fun i => List.append_nil _, ?_⟩,
      Settled.ledger ⟨?_, ?_⟩, iff_of_true rfl rfl⟩
    · have hmoved : (p.setManager .input (p.manager .input ++ [slice s.buf 0 s.bufSize])).manager
          .input = p.manager .input ++ [slice s.buf 0 s.bufSize] := by simp [Pendings.setManager]
      rw [hmoved]
      rfl
    · rw [hhand]
      rfl
    · rw [hanswer]
      rfl
  | false =>
    refine ⟨p.setManager .input (p.manager .input), 1,
      ⟨hnext, h.service, h.answers, h.bufSize⟩, ?_,
      Ledger.dropped (by rw [hhand, hanswer]; rfl) rfl rfl,
      iff_of_false Nat.one_ne_zero Bool.false_ne_true⟩
    refine .of_same (fun _ => rfl) ?_ (fun _ => rfl) (fun _ => rfl) rfl rfl
    simp [Pendings.setManager]

theorem Linked.sendInput (h : Linked n ns s p) {iter : Nat} (hpc : s.pc = .sendInput iter) :
    StepLaw n ns s s.managerStep.1 s.managerStep.2 p (HasRoom s) := by
  have hsend := h.manager.send_cases .input s.buf h.bufSize
  have hroom : HasRoom s ↔ s.bufSize + 8 ≤ (s.kMsgChannel.queue .input).getFreeSize s.mem := by
    simp only [HasRoom, hpc]
    rfl
  rw [send_input] at hsend
  rw [managerStep_sendInput hpc]
  generalize s.kMsgChannel.sendMessageInput s.mem s.buf s.bufSize = r at hsend ⊢
  obtain ⟨hret, hnext⟩ := hsend
  have hlaw := h.afterSendInput hpc hnext
  rw [hret.trans hroom.symm] at hlaw
  exact hlaw

/-- A step of the manager drops what it has in hand exactly when there is no room for it. -/
theorem Linked.managerStep (h : Linked n ns s p) :
    StepLaw n ns s s.managerStep.1 s.managerStep.2 p (HasRoom s) := by
  cases hpc : s.pc with
  | idle =>
    have hroom : HasRoom s ↔ True := by simp only [HasRoom, hpc]
    rw [StepLaw, hroom]
    exact h.idle hpc
  | recvOutput =>
    have hroom : HasRoom s ↔ True := by simp only [HasRoom, hpc]
    rw [StepLaw, hroom]
    exact h.recvOutput hpc
  | dispatch => exact h.dispatch hpc
  | recvInput iter =>
    have hroom : HasRoom s ↔ True := by simp only [HasRoom, hpc]
    rw [StepLaw, hroom]
    exact h.recvInput hpc
  | sendInput iter => exact h.sendInput hpc

/-! ### The other parties -/

/-- A step of another party leaves the manager's hands alone. -/
theorem StepLaw.kept {s' : HttpManagerService σ} {event : Option Event} {p' : Pendings}
    (hlinked : Linked n ns s' p') (hflow : Flow p p' event.toList)
    (hsettled : Settled s s' event.toList) : StepLaw n ns s s' event p True :=
  ⟨p', 0, hlinked, hflow, hsettled.ledger, iff_of_true rfl trivial⟩

/-- The net service sent a message. -/
theorem Linked.netSends (h : Linked n ns s p) {mem : Memory} {xs : List MsgFifo.Message}
    (hnext : Attached s.kMsgChannel n mem (Function.update p.manager .output xs)) :
    StepLaw n ns s { s with mem := mem } none p True := by
  have hlinked : Linked n ns { s with mem := mem } (p.setManager .output xs) :=
    ⟨hnext, h.service, h.answers, h.bufSize⟩
  refine .kept hlinked ?_ (.of_same rfl rfl rfl rfl rfl rfl)
  exact p.flow_setManager xs (fun _ => rfl) (fun _ => rfl) rfl rfl

/-- The net service asked for an answer. -/
theorem Linked.netReceives (h : Linked n ns s p) {r : MsgQueue.PopResult}
    (hcases : (r.ret = false ∧ Attached s.kMsgChannel n r.mem p.manager) ∨
      (r.ret = true ∧ ∃ xs, p.manager .input = slice r.buf 0 r.msgLength :: xs ∧
        Attached s.kMsgChannel n r.mem (Function.update p.manager .input xs))) :
    StepLaw n ns s { s with mem := r.answer.1 } ((received r.answer.2).map .collected) p True := by
  rw [MsgQueue.PopResult.answer]
  rcases hcases with ⟨hret, hnext⟩ | ⟨hret, xs, hfront, hnext⟩
  · rw [hret]
    exact .moved ⟨hnext, h.service, h.answers, h.bufSize⟩ rfl rfl
  · have hlinked : Linked n ns { s with mem := r.mem } (p.setManager .input xs) :=
      ⟨hnext, h.service, h.answers, h.bufSize⟩
    rw [hret]
    refine .kept hlinked ⟨fun i => List.append_nil _, ?_⟩ (.of_same rfl rfl rfl rfl rfl rfl)
    have hrest : (p.setManager .input xs).manager .input = xs := by simp [Pendings.setManager]
    rw [hrest, hfront]
    exact List.append_nil _

theorem Linked.net (h : Linked n ns s p) {k : MessageChannel.Call} (hk : NetCall k) :
    StepLaw n ns s (step s (.net k)).1 (step s (.net k)).2 p True := by
  match k, hk with
  | (.output, .append pMsgBuff usMsgSize), hsize =>
    obtain ⟨-, hnext⟩ := h.manager.send_cases .output pMsgBuff hsize
    exact h.netSends hnext
  | (.input, .pop pMsgBuff usMsgSize), hsize =>
    obtain ⟨-, hcases⟩ := h.manager.recv_cases .input pMsgBuff hsize
    exact h.netReceives hcases

/-- What the service at `i` took is no longer pending there. -/
theorem Pendings.flow_served (p : Pendings) {i : Nat} {x : MsgFifo.Message}
    {xs : List MsgFifo.Message} (hfront : p.service i .output = x :: xs) :
    Flow p (p.setService i .output xs) [.served i x] := by
  constructor
  · intro j
    by_cases hj : i = j
    · subst hj
      have hrest : (p.setService i .output xs).service i .output = xs := by
        simp [Pendings.setService]
      rw [hrest, hfront]
      simp [List.filterMap_cons, Event.forwardedTo?, Event.servedBy?]
    · have hsame : (p.setService i .output xs).service j .output = p.service j .output := by
        simp [Pendings.setService, Function.update_of_ne (Ne.symm hj)]
      rw [hsame]
      simp [List.filterMap_cons, Event.forwardedTo?, Event.servedBy?, hj]
  · exact List.append_nil _

/-- The service at `iter` asked for a message. -/
theorem Linked.httpReceives (h : Linked n ns s p) {iter : Nat} {slot : HttpSlot σ}
    (hslot : s.httpServicePool[iter]? = some (some slot)) {r : MsgQueue.PopResult}
    (hcases : (r.ret = false ∧ Attached slot.svc.kMCHttp2Login (ns iter) r.mem (p.service iter)) ∨
      (r.ret = true ∧ ∃ xs, p.service iter .output = slice r.buf 0 r.msgLength :: xs ∧
        Attached slot.svc.kMCHttp2Login (ns iter) r.mem
          (Function.update (p.service iter) .output xs))) :
    StepLaw n ns s
      { s with httpServicePool := s.httpServicePool.set iter (some ⟨slot.svc, r.answer.1⟩) }
      ((received r.answer.2).map (.served iter)) p True := by
  have hanswers : ∀ ys, ∀ x ∈ Function.update (p.service iter) .output ys Side.input, Encoded x := by
    intro ys x hx
    have hother : Side.input ≠ Side.output := by decide
    rw [Function.update_of_ne hother] at hx
    exact h.answers iter slot hslot x hx
  rw [MsgQueue.PopResult.answer]
  rcases hcases with ⟨hret, hnext⟩ | ⟨hret, xs, hfront, hnext⟩
  · have hsame : Attached slot.svc.kMCHttp2Login (ns iter) r.mem
        (Function.update (p.service iter) .output (p.service iter .output)) := by
      rwa [Function.update_eq_self]
    rw [hret]
    refine .kept (h.setService hslot rfl rfl rfl h.bufSize rfl hsame (hanswers _)) ?_
      (.of_same rfl rfl rfl rfl rfl rfl)
    refine .of_same (fun j => ?_) rfl (fun _ => rfl) (fun _ => rfl) rfl rfl
    simp [Pendings.setService]
  · rw [hret]
    exact .kept (h.setService hslot rfl rfl rfl h.bufSize rfl hnext (hanswers _))
      (p.flow_served hfront) (.of_same rfl rfl rfl rfl rfl rfl)

/-- The service at `iter` sent an answer. -/
theorem Linked.httpSends (h : Linked n ns s p) {iter : Nat} {slot : HttpSlot σ}
    (hslot : s.httpServicePool[iter]? = some (some slot)) {mem : Memory} {xs : List MsgFifo.Message}
    (hxs : ∀ x ∈ xs, Encoded x)
    (hnext : Attached slot.svc.kMCHttp2Login (ns iter) mem
      (Function.update (p.service iter) .input xs)) :
    StepLaw n ns s { s with httpServicePool := s.httpServicePool.set iter (some ⟨slot.svc, mem⟩) }
      none p True := by
  have hanswers : ∀ x ∈ Function.update (p.service iter) .input xs Side.input, Encoded x := by
    rwa [Function.update_self]
  refine .kept (h.setService hslot rfl rfl rfl h.bufSize rfl hnext hanswers) ?_
    (.of_same rfl rfl rfl rfl rfl rfl)
  exact p.flow_setService iter xs (fun _ => rfl) (fun _ => rfl) rfl rfl

theorem step_http {iter : Nat} {slot : HttpSlot σ}
    (hslot : s.httpServicePool[iter]? = some (some slot)) (k : MessageChannel.Call) :
    step s (.http iter k) =
      ({ s with
          httpServicePool := s.httpServicePool.set iter
            (some ⟨slot.svc, (slot.svc.kMCHttp2Login.step slot.mem k).1⟩) },
        (received (slot.svc.kMCHttp2Login.step slot.mem k).2).map (.served iter)) := by
  simp only [step, hslot]

theorem Linked.http (h : Linked n ns s p) {iter : Nat} {k : MessageChannel.Call} (hk : HttpCall k) :
    StepLaw n ns s (step s (.http iter k)).1 (step s (.http iter k)).2 p True := by
  match hslot : s.httpServicePool[iter]? with
  | none =>
    have hstep : step s (.http iter k) = (s, none) := by simp only [step, hslot]
    rw [hstep]
    exact .moved h rfl rfl
  | some none =>
    have hstep : step s (.http iter k) = (s, none) := by simp only [step, hslot]
    rw [hstep]
    exact .moved h rfl rfl
  | some (some slot) =>
    have hattached := h.service iter slot hslot
    rw [step_http hslot]
    match k, hk with
    | (.output, .pop pMsgBuff usMsgSize), hsize =>
      obtain ⟨-, hcases⟩ := hattached.recv_cases .output pMsgBuff hsize
      exact h.httpReceives hslot hcases
    | (.input, .append pMsgBuff usMsgSize), hencoded =>
      have hsize : usMsgSize < 2 ^ 16 := by
        rw [← slice_length pMsgBuff 0 usMsgSize]
        exact (Encoded.length hencoded).2
      obtain ⟨-, hnext⟩ := hattached.send_cases .input pMsgBuff hsize
      refine h.httpSends hslot (fun x hx => ?_) hnext
      split at hx
      · rcases List.mem_append.mp hx with hold | hnew
        · exact h.answers iter slot hslot x hold
        · rw [List.mem_singleton.mp hnew]
          exact hencoded
      · exact h.answers iter slot hslot x hx

/-! ## Runs -/

/-- A step drops something exactly when the manager takes it where there is no room. -/
theorem Linked.step (h : Linked n ns s p) {a : Action} (ha : a.Allowed) :
    StepLaw n ns s (step s a).1 (step s a).2 p (a = .manager → HasRoom s) := by
  cases a with
  | manager =>
    have hroom : (Action.manager = .manager → HasRoom s) ↔ HasRoom s :=
      ⟨fun hroom => hroom rfl, fun hroom _ => hroom⟩
    rw [StepLaw, hroom]
    exact h.managerStep
  | net k =>
    have hroom : (Action.net k = .manager → HasRoom s) ↔ True :=
      iff_true_intro fun heq => Action.noConfusion heq
    rw [StepLaw, hroom]
    exact h.net ha
  | http iter k =>
    have hroom : (Action.http iter k = .manager → HasRoom s) ↔ True :=
      iff_true_intro fun heq => Action.noConfusion heq
    rw [StepLaw, hroom]
    exact h.http ha

/-- Where the manager takes a step, there is room for what it has in hand. -/
def Roomy (s : HttpManagerService σ) (a : Action) : Prop := a = .manager → HasRoom s

/-- The events of a run. -/
def events (s : HttpManagerService σ) (acts : List Action) : List Event :=
  (exec step s acts).2.reduceOption

theorem events_cons (s : HttpManagerService σ) (a : Action) (acts : List Action) :
    events s (a :: acts) = (step s a).2.toList ++ events (step s a).1 acts := by
  rw [events, exec_cons_replies]
  cases (step s a).2 with
  | none => rfl
  | some event => rfl

/-- The run law, from the law of one step: what a run drops is what its steps drop. -/
theorem Linked.run (h : Linked n ns s p) {acts : List Action} (hacts : ∀ a ∈ acts, a.Allowed) :
    ∃ p' lost, Linked n ns (exec HttpManagerService.step s acts).1 p' ∧ Flow p p' (events s acts) ∧
      Ledger s (exec HttpManagerService.step s acts).1 (events s acts) lost ∧
      (lost = 0 ↔ Along HttpManagerService.step Roomy s acts) := by
  induction acts generalizing s p with
  | nil =>
    exact ⟨p, 0, h, .refl p, (Settled.of_same rfl rfl rfl rfl rfl rfl).ledger,
      iff_of_true rfl trivial⟩
  | cons a acts ih =>
    obtain ⟨p', lost, hlinked, hflow, hledger, hroom⟩ := h.step (hacts a List.mem_cons_self)
    obtain ⟨p'', rest, hlast, hflow', hledger', hroom'⟩ :=
      ih hlinked fun a' ha' => hacts a' (List.mem_cons_of_mem a ha')
    rw [events_cons, exec_cons_state]
    refine ⟨p'', lost + rest, hlast, hflow.append hflow', hledger.append hledger', ?_⟩
    rw [Nat.add_eq_zero_iff, hroom, hroom', Along, Roomy]

/-! ## A tick that finds a message -/

/-- A message whose head fits is taken for dispatch, and the pool is left alone. -/
theorem afterRecvOutput_took (s : HttpManagerService σ) {r : MsgQueue.PopResult}
    (hret : r.ret = true) (hencoded : Encoded (slice r.buf 0 r.msgLength)) :
    (s.afterRecvOutput r).1.pc = .dispatch ∧
      (s.afterRecvOutput r).1.httpServicePool = s.httpServicePool := by
  have hhead : headFits r.buf r.msgLength = true := headFits_of_encoded hencoded
  rw [HttpManagerService.afterRecvOutput, if_neg (by rw [hret]; decide),
    if_neg (by rw [hhead]; decide)]
  exact ⟨rfl, rfl⟩

/-- An encoded message that fits the buffer is taken, whatever the services do. -/
theorem Linked.takes (h : Linked n ns s p) (hpc : s.pc = .recvOutput) {x : MsgFifo.Message}
    {xs : List MsgFifo.Message} (hfront : p.manager .output = x :: xs) (hx : Encoded x)
    (hfits : x.length ≤ s.bufSize) :
    s.managerStep.1.pc = .dispatch ∧ s.managerStep.1.httpServicePool = s.httpServicePool := by
  obtain ⟨hret, -, hslice⟩ := h.manager.recv_front hfront hx.ne_nil s.buf hfits h.bufSize
  rw [← hslice, recv_output] at hx
  rw [managerStep_recvOutput hpc]
  exact s.afterRecvOutput_took hret hx

/-- The first step of a tick clears the buffer. -/
theorem Linked.clears (h : Linked n ns s p) (hpc : s.pc = .idle) :
    Linked n ns s.managerStep.1 p ∧ s.managerStep.1.pc = .recvOutput ∧
      s.managerStep.1.bufSize = messageLoopBufSize ∧
      s.managerStep.1.httpServicePool = s.httpServicePool := by
  have hsize : messageLoopBufSize < 2 ^ 16 := by decide
  rw [managerStep_idle hpc]
  exact ⟨⟨h.manager, h.service, h.answers, hsize⟩, rfl, rfl, rfl⟩

/-- Where no service is free, a tick that finds a message has no room for it. -/
theorem Linked.busy (h : Linked n ns s p) (hpc : s.pc = .idle) {x : MsgFifo.Message}
    {xs : List MsgFifo.Message} (hfront : p.manager .output = x :: xs) (hx : Encoded x)
    (hfits : x.length ≤ messageLoopBufSize) (hbusy : firstFree s.httpServicePool = none) :
    ¬Along HttpManagerService.step Roomy s [.manager, .manager, .manager] := by
  rintro ⟨-, -, hroomy, -⟩
  obtain ⟨hlinked, hpc', hsize, hpool⟩ := h.clears hpc
  obtain ⟨hdispatch, hpool'⟩ := hlinked.takes hpc' hfront hx (hsize ▸ hfits)
  exact not_hasRoom hdispatch ((congrArg firstFree (hpool'.trans hpool)).trans hbusy) (hroomy rfl)

/-! ## One message, one service -/

/-- A message of 28 bytes. -/
def fourBytesMessage : MsgFifo.Message := encodedBy (MessageEncoder.new fun _ => 0) fourBytes

theorem fourBytesMessage_encoded : Encoded fourBytesMessage :=
  ⟨_, _, fourBytes, _, _, fourBytes_honest, rfl, rfl⟩

theorem fourBytesMessage_length : fourBytesMessage.length = 28 := by
  rw [fourBytesMessage, encodedBy, MessageEncoder.frame, slice_length]
  rfl

/-- Before a tick: a message for the manager, and a pool of one service. -/
def oneService (bFree : Bool) (r : MessageChannel.InitResult) : HttpManagerService Unit :=
  { kMsgChannel := r.channel
    httpServicePool := [some ⟨{ silentHttp r.channel with bFree := bFree }, r.mem⟩]
    mem := r.channel.memAfter r.mem (sendsOf .output [fourBytesMessage])
    pc := .idle
    buf := fun _ => 0
    bufSize := 0 }

/-- What is pending then. -/
def oneMessagePending : Pendings where
  manager := Function.update (fun _ => []) .output [fourBytesMessage]
  service := fun _ _ => []

theorem oneService_linked (bFree : Bool) :
    let r := (MessageChannel.new ⟨0, 0⟩ ⟨0, 0⟩).initMessageQueue firstAttach (fun _ => 0) 7 256 256
    Linked (fun _ => 256) (fun _ _ => 256) (oneService bFree r) oneMessagePending := by
  have hmap : (ShareMemory.new.attachShareMemory firstAttach 7
    (segmentSize fun _ => 256)).ret = true := by decide
  obtain ⟨-, -, -, -, -, hattached, -⟩ :=
    new_attach_init ⟨0, 0⟩ ⟨0, 0⟩ (fun _ => by decide) hmap (fun _ => 0)
  dsimp only at hattached ⊢
  generalize (MessageChannel.new ⟨0, 0⟩ ⟨0, 0⟩).initMessageQueue firstAttach (fun _ => 0) 7 256 256 = r
    at hattached ⊢
  refine ⟨?_, fun i slot hslot => ?_, fun i slot hslot x hx => ?_, ?_⟩
  · refine hattached.sends .output (fun x hx => ?_) ?_
    · rw [List.mem_singleton.mp hx, fourBytesMessage_length]
      decide
    · rw [MsgFifo.occupied_cons, fourBytesMessage_length]
      decide
  · obtain rfl : i = 0 := by
      cases i with
      | zero => rfl
      | succ i => exact absurd hslot (by simp [oneService])
    obtain rfl := Option.some.inj (Option.some.inj hslot)
    exact hattached
  · exact absurd hx List.not_mem_nil
  · have hzero : (oneService bFree r).bufSize = 0 := rfl
    rw [hzero]
    decide

end HttpManagerService

end MmDriver

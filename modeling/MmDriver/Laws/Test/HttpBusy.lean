import MmDriver.Laws.Test.HttpDispatch

/-!
# Which services are busy

A service is free until the manager sends it a message, and it is free again when the manager next
asks it for an answer, whether or not there is one. `Counted` counts, beside the system, the
requests that were sent to each service and are not answered. `exclusive_iff` says when a free
service has none.
-/

namespace MmDriver

open ByteMem MessageChannel CallMachine

namespace HttpManagerService

variable {σ : Type}

/-- The system, and how many requests of each service are not answered: those that were sent, less
the answers that were taken. -/
structure Counted (σ : Type) where
  sys : HttpManagerService σ
  outstanding : Nat → Int

/-- What a step changes of the count. -/
def tally (outstanding : Nat → Int) : Option Event → Nat → Int
  | some (.forwarded i _) => Function.update outstanding i (outstanding i + 1)
  | some (.tookResponse i _) => Function.update outstanding i (outstanding i - 1)
  | _ => outstanding

/-- One action, counted. -/
def countedStep (c : Counted σ) (a : Action) : Counted σ × Option Event :=
  (⟨(step c.sys a).1, tally c.outstanding (step c.sys a).2⟩, (step c.sys a).2)

/-- A free service has no request outstanding, and none has more than one. -/
def Exclusive (c : Counted σ) : Prop :=
  ∀ i slot, c.sys.httpServicePool[i]? = some (some slot) →
    (slot.svc.isFree = true → c.outstanding i = 0) ∧ c.outstanding i ≤ 1

/-- An answer waits in the service's input queue, and `bufSize` bytes are enough for it. -/
def AnswerWaits (slot : HttpSlot σ) (bufSize : Nat) : Prop :=
  ∃ n x xs, MsgQueue.Holds (slot.svc.kMCHttp2Login.queue .input) n slot.mem (x :: xs) ∧ x ≠ [] ∧
    x.length ≤ bufSize

/-- Where the manager asks a service for an answer, the answer to its one request waits, or it has
no request and no answer. -/
def Polled (c : Counted σ) (a : Action) : Prop :=
  a = .manager → ∀ i slot, c.sys.pc = .recvInput i →
    c.sys.httpServicePool[i]? = some (some slot) →
      (AnswerWaits slot c.sys.bufSize → c.outstanding i = 1) ∧
        (¬AnswerWaits slot c.sys.bufSize → c.outstanding i = 0)

/-! ## One step -/

variable {n : Side → Nat} {ns : Nat → Side → Nat} {p : Pendings}

/-- The receive succeeds where an answer waits. -/
theorem recv_ret_iff {slot : HttpSlot σ} {n : Side → Nat} {pending : Side → List MsgFifo.Message}
    (h : Attached slot.svc.kMCHttp2Login n slot.mem pending)
    (hanswers : ∀ x ∈ pending .input, Encoded x) (buf : Memory) {cap : Nat} (hcap : cap < 2 ^ 16) :
    (slot.svc.kMCHttp2Login.recv .input slot.mem buf cap).ret = true ↔ AnswerWaits slot cap := by
  have hle : (slot.svc.kMCHttp2Login.recv .input slot.mem buf cap).msgLength ≤ cap := by
    rw [recv_eq _ _ _ _ hcap]
    exact MsgQueue.pop_msgLength_le _ _ _ _
  obtain ⟨-, hcases⟩ := h.recv_cases .input buf hcap
  constructor
  · intro hret
    rcases hcases with ⟨hfalse, -⟩ | ⟨-, xs, hfront, -⟩
    · exact absurd (hfalse.symm.trans hret) Bool.false_ne_true
    · rw [hfront] at hanswers
      refine ⟨n .input, _, xs, hfront ▸ h.holds .input, (hanswers _ List.mem_cons_self).ne_nil, ?_⟩
      rw [slice_length]
      exact hle
  · rintro ⟨k, x, xs, hholds, hx, hfits⟩
    rw [recv_eq _ _ _ _ hcap]
    exact (hholds.pop_delivers buf (fun hempty => hx hempty.1) (Nat.not_lt_of_le hfits)).1

/-- A step that leaves the pool and the count. -/
theorem Exclusive.of_same {c c' : Counted σ} (h : Exclusive c)
    (hpool : c'.sys.httpServicePool = c.sys.httpServicePool)
    (hcount : c'.outstanding = c.outstanding) : Exclusive c' := by
  intro i slot hslot
  rw [hpool] at hslot
  rw [hcount]
  exact h i slot hslot

/-- A step that changes one service: only this one matters. -/
theorem Exclusive.set_iff {c c' : Counted σ} (h : Exclusive c) {i : Nat} {slot slot' : HttpSlot σ}
    (hslot : c.sys.httpServicePool[i]? = some (some slot))
    (hpool : c'.sys.httpServicePool = c.sys.httpServicePool.set i (some slot'))
    (hothers : ∀ j, j ≠ i → c'.outstanding j = c.outstanding j) :
    Exclusive c' ↔ (slot'.svc.isFree = true → c'.outstanding i = 0) ∧ c'.outstanding i ≤ 1 := by
  have hi : i < c.sys.httpServicePool.length := (List.getElem?_eq_some_iff.mp hslot).1
  constructor
  · intro h'
    refine h' i slot' ?_
    rw [hpool, List.getElem?_set_self hi]
  · intro hone j other hother
    rw [hpool] at hother
    by_cases hj : j = i
    · subst hj
      rw [List.getElem?_set_self hi] at hother
      obtain rfl := Option.some.inj (Option.some.inj hother)
      exact hone
    · rw [List.getElem?_set_ne (Ne.symm hj)] at hother
      rw [hothers j hj]
      exact h j other hother

/-- The first free service is free. -/
theorem isFree_of_firstFree {pool : List (Option (HttpSlot σ))} {slot : HttpSlot σ}
    (h : firstFree pool = some slot) : slot.svc.isFree = true := by
  obtain ⟨place, -, hplace⟩ := List.exists_of_findSome?_eq_some h
  exact (Option.filter_eq_some_iff.mp hplace).2

/-- The loop over the pool sends to a service that has no request, and then it is busy. -/
theorem Exclusive.dispatch {c : Counted σ} (h : Exclusive c) (hpc : c.sys.pc = .dispatch) :
    Exclusive (countedStep c .manager).1 := by
  have hstep : step c.sys .manager =
      c.sys.afterDispatch (HttpManagerService.dispatch c.sys.buf c.sys.bufSize c.sys.httpServicePool) :=
    managerStep_dispatch hpc
  rw [countedStep, hstep]
  rcases dispatch_spec c.sys.buf c.sys.bufSize c.sys.httpServicePool with ⟨-, heq⟩ |
    ⟨i, slot, hfree, hslot, heq⟩
  · rw [heq]
    exact h.of_same rfl rfl
  · obtain ⟨hnone, -⟩ := h i slot hslot
    have hzero : c.outstanding i = 0 := hnone (isFree_of_firstFree hfree)
    rw [heq, HttpService.sendMessageOutput]
    generalize slot.svc.kMCHttp2Login.sendMessageOutput slot.mem c.sys.buf c.sys.bufSize = r
    obtain ⟨ret, mem, spans⟩ := r
    cases ret with
    | true =>
      refine (h.set_iff hslot rfl fun j hj => ?_).mpr ⟨fun hbusy => ?_, ?_⟩
      · exact Function.update_of_ne hj ..
      · cases hbusy
      · have hcount : Function.update c.outstanding i (c.outstanding i + 1) i = 1 := by
          rw [Function.update_self, hzero, zero_add]
        exact hcount.le
    | false =>
      refine (h.set_iff hslot rfl ?_).mpr ⟨fun hbusy => ?_, hzero.le.trans zero_le_one⟩
      · exact fun _ _ => rfl
      · cases hbusy

/-- The poll of a service leaves it free, and its count less the answer that was taken. -/
theorem Exclusive.polled {c : Counted σ} (h : Exclusive c) {iter : Nat} {slot : HttpSlot σ}
    (hslot : c.sys.httpServicePool[iter]? = some (some slot)) {r : MsgQueue.PopResult}
    (hencoded : r.ret = true → Encoded (slice r.buf 0 r.msgLength)) :
    let asked := c.sys.afterRecvInput iter ({ slot.svc with bFree := true }, r)
    Exclusive ⟨asked.1, tally c.outstanding asked.2⟩ ↔
      c.outstanding iter = if r.ret then 1 else 0 := by
  cases hret : r.ret with
  | true =>
    have hhead : headFits r.buf r.msgLength = true := headFits_of_encoded (hencoded hret)
    rw [afterRecvInput, if_neg (by rw [hret]; decide), if_neg (by rw [hhead]; decide)]
    refine (h.set_iff hslot rfl fun j hj => Function.update_of_ne hj ..).trans ?_
    have hcount : Function.update c.outstanding iter (c.outstanding iter - 1) iter =
        c.outstanding iter - 1 := Function.update_self ..
    dsimp only [tally, HttpService.isFree]
    rw [hcount, if_pos rfl]
    constructor
    · rintro ⟨hzero, -⟩
      exact sub_eq_zero.mp (hzero rfl)
    · intro hone
      have hzero : c.outstanding iter - 1 = 0 := sub_eq_zero.mpr hone
      exact ⟨fun _ => hzero, hzero.le.trans zero_le_one⟩
  | false =>
    rw [afterRecvInput, if_pos hret]
    refine (h.set_iff hslot rfl ?_).trans ?_
    · exact fun _ _ => rfl
    · dsimp only [tally, HttpService.isFree]
      rw [if_neg Bool.false_ne_true]
      constructor
      · rintro ⟨hzero, -⟩
        exact hzero rfl
      · exact fun hzero => ⟨fun _ => hzero, hzero.le.trans zero_le_one⟩

theorem Exclusive.afterRecvOutput {c : Counted σ} (h : Exclusive c) (r : MsgQueue.PopResult) :
    Exclusive ⟨(c.sys.afterRecvOutput r).1, tally c.outstanding (c.sys.afterRecvOutput r).2⟩ := by
  rw [HttpManagerService.afterRecvOutput]
  split
  · exact h.of_same rfl rfl
  · split
    · exact h.of_same rfl rfl
    · exact h.of_same rfl rfl

theorem Exclusive.afterSendInput {c : Counted σ} (h : Exclusive c) (iter : Nat)
    (r : MsgQueue.AppendResult) :
    Exclusive ⟨(c.sys.afterSendInput iter r).1,
      tally c.outstanding (c.sys.afterSendInput iter r).2⟩ := by
  rw [HttpManagerService.afterSendInput]
  split
  · exact h.of_same rfl rfl
  · exact h.of_same rfl rfl

theorem countedStep_manager (c : Counted σ) : (countedStep c .manager).1 =
    ⟨c.sys.managerStep.1, tally c.outstanding c.sys.managerStep.2⟩ := rfl

/-- Where the manager asks no service, the services stay exclusive. -/
theorem Exclusive.elsewhere {c : Counted σ} (h : Exclusive c)
    (hpc : ∀ iter, c.sys.pc ≠ .recvInput iter) : Exclusive (countedStep c .manager).1 := by
  cases hat : c.sys.pc with
  | idle =>
    rw [countedStep_manager, managerStep_idle hat]
    exact h.of_same rfl rfl
  | recvOutput =>
    rw [countedStep_manager, managerStep_recvOutput hat]
    exact h.afterRecvOutput _
  | dispatch => exact h.dispatch hat
  | recvInput iter => exact absurd hat (hpc iter)
  | sendInput iter =>
    rw [countedStep_manager, managerStep_sendInput hat]
    exact h.afterSendInput iter _

/-- The condition on a step, at the service that is polled. -/
theorem polled_iff {c : Counted σ} {iter : Nat} {slot : HttpSlot σ} (hpc : c.sys.pc = .recvInput iter)
    (hslot : c.sys.httpServicePool[iter]? = some (some slot)) :
    Polled c .manager ↔ (AnswerWaits slot c.sys.bufSize → c.outstanding iter = 1) ∧
      (¬AnswerWaits slot c.sys.bufSize → c.outstanding iter = 0) := by
  constructor
  · exact fun h => h rfl iter slot hpc hslot
  · intro h _ i other hat hother
    obtain rfl := TickPc.recvInput.inj (hpc.symm.trans hat)
    obtain rfl := Option.some.inj (Option.some.inj (hslot.symm.trans hother))
    exact h

/-- Where there is no service to ask, nothing is asked of the step. -/
theorem polled_nowhere {c : Counted σ} {iter : Nat} (hpc : c.sys.pc = .recvInput iter)
    (hslot : ∀ slot, c.sys.httpServicePool[iter]? ≠ some (some slot)) : Polled c .manager := by
  intro _ i other hat hother
  obtain rfl := TickPc.recvInput.inj (hpc.symm.trans hat)
  exact absurd hother (hslot other)

/-- A poll keeps the services exclusive where its condition is met. -/
theorem Exclusive.recvInput {c : Counted σ} (hlinked : Linked n ns c.sys p) (h : Exclusive c)
    {iter : Nat} {slot : HttpSlot σ} (hpc : c.sys.pc = .recvInput iter)
    (hslot : c.sys.httpServicePool[iter]? = some (some slot)) :
    Exclusive (countedStep c .manager).1 ↔ Polled c .manager := by
  have hattached := hlinked.service iter slot hslot
  have hanswers := hlinked.answers iter slot hslot
  have hwaits := recv_ret_iff hattached hanswers c.sys.buf hlinked.bufSize
  obtain ⟨-, hcases⟩ := hattached.recv_cases .input c.sys.buf hlinked.bufSize
  rw [countedStep_manager, managerStep_recvInput hpc hslot, HttpService.recvMessasgeInput,
    polled_iff hpc hslot, ← hwaits]
  rw [recv_input] at hcases ⊢
  generalize slot.svc.kMCHttp2Login.recvMessasgeInput slot.mem c.sys.buf c.sys.bufSize = r
    at hcases ⊢
  have hencoded : r.ret = true → Encoded (slice r.buf 0 r.msgLength) := by
    intro hret
    rcases hcases with ⟨hfalse, -⟩ | ⟨-, xs, hfront, -⟩
    · exact absurd (hfalse.symm.trans hret) Bool.false_ne_true
    · rw [hfront] at hanswers
      exact hanswers _ List.mem_cons_self
  refine (h.polled hslot hencoded).trans ?_
  cases r.ret with
  | true => simp
  | false => simp

/-- A step of the manager keeps the services exclusive where its polls do. -/
theorem Exclusive.manager {c : Counted σ} (hlinked : Linked n ns c.sys p) (h : Exclusive c) :
    Exclusive (countedStep c .manager).1 ↔ Polled c .manager := by
  by_cases hpc : ∀ iter, c.sys.pc ≠ .recvInput iter
  · exact iff_of_true (h.elsewhere hpc) fun _ iter _ hat => absurd hat (hpc iter)
  · obtain ⟨iter, hat⟩ := not_forall.mp hpc
    rw [not_not] at hat
    -- the place `iter` of the pool is behind its end, empty, or a service that is polled
    rcases hslot : c.sys.httpServicePool[iter]? with - | (- | slot)
    · have hstep : c.sys.managerStep = ({ c.sys with pc := .idle }, none) := by
        simp only [managerStep, hat, hslot]
      rw [countedStep_manager, hstep]
      exact iff_of_true (h.of_same rfl rfl)
        (polled_nowhere hat fun slot => by simp [hslot])
    · have hstep : c.sys.managerStep = ({ c.sys with pc := .recvInput (iter + 1) }, none) := by
        simp only [managerStep, hat, hslot]
      rw [countedStep_manager, hstep]
      exact iff_of_true (h.of_same rfl rfl)
        (polled_nowhere hat fun slot => by simp [hslot])
    · exact h.recvInput hlinked hat hslot

/-- The messages the other parties take are not counted. -/
theorem tally_collected (outstanding : Nat → Int) (x : Option MsgFifo.Message) :
    tally outstanding (x.map .collected) = outstanding := by
  cases x with
  | none => rfl
  | some x => rfl

theorem tally_served (outstanding : Nat → Int) (iter : Nat) (x : Option MsgFifo.Message) :
    tally outstanding (x.map (.served iter)) = outstanding := by
  cases x with
  | none => rfl
  | some x => rfl

/-- The other parties change no flag and no count. -/
theorem Exclusive.others {c : Counted σ} (h : Exclusive c) {a : Action} (ha : a ≠ .manager) :
    Exclusive (countedStep c a).1 := by
  cases a with
  | manager => exact absurd rfl ha
  | net k => exact h.of_same rfl (tally_collected _ _)
  | http iter k =>
    match hslot : c.sys.httpServicePool[iter]? with
    | none =>
      have hstep : step c.sys (.http iter k) = (c.sys, none) := by simp only [step, hslot]
      rw [countedStep, hstep]
      exact h
    | some none =>
      have hstep : step c.sys (.http iter k) = (c.sys, none) := by simp only [step, hslot]
      rw [countedStep, hstep]
      exact h
    | some (some slot) =>
      rw [countedStep, step_http hslot]
      refine (h.set_iff hslot rfl fun j _ => congrFun (tally_served _ _ _) j).mpr ?_
      dsimp only
      rw [tally_served]
      exact h iter slot hslot

/-! ## Runs -/

theorem countedStep_linked {c : Counted σ} {a : Action} (ha : a.Allowed)
    (h : ∃ p, Linked n ns c.sys p) : ∃ p, Linked n ns (countedStep c a).1.sys p := by
  obtain ⟨p, hlinked⟩ := h
  obtain ⟨p', -, hnext, -⟩ := hlinked.step ha
  exact ⟨p', hnext⟩

/-- One step keeps the services exclusive where it meets its condition. -/
theorem exclusive_step {c : Counted σ} (a : Action) (hlinked : ∃ p, Linked n ns c.sys p)
    (h : Exclusive c) : Exclusive (countedStep c a).1 ↔ Polled c a := by
  obtain ⟨p, hlinked⟩ := hlinked
  by_cases ha : a = .manager
  · rw [ha]
    exact h.manager hlinked
  · exact iff_of_true (h.others ha) fun hmanager => absurd hmanager ha

/-- In every state of a run the free services have no request outstanding, and the others one at
most, exactly when every poll of the run meets its condition. -/
theorem exclusive_iff {c : Counted σ} (hlinked : Linked n ns c.sys p) (h : Exclusive c)
    {acts : List Action} (hacts : ∀ a ∈ acts, a.Allowed) :
    (∀ pre, pre <+: acts → Exclusive (exec countedStep c pre).1) ↔
      Along countedStep Polled c acts :=
  invariant_iff_along (fun c => ∃ p, Linked n ns c.sys p) Exclusive Action.Allowed
    (fun _ _ ha => countedStep_linked ha) (fun _ a _ => exclusive_step a) ⟨p, hlinked⟩ h hacts

/-! ## A poll that finds nothing -/

theorem exclusive_iff_oneService :
    let r := (MessageChannel.new ⟨0, 0⟩ ⟨0, 0⟩).initMessageQueue firstAttach (fun _ => 0) 7 256 256
    (∀ pre, pre <+: [Action.manager, .manager, .manager] →
        Exclusive (exec countedStep ⟨oneService true r, fun _ => 0⟩ pre).1) ↔
      Along countedStep Polled ⟨oneService true r, fun _ => 0⟩ [.manager, .manager, .manager] := by
  refine exclusive_iff (oneService_linked true) ?_ (by simp [Action.Allowed])
  exact fun i slot _ => ⟨fun _ => rfl, zero_le_one⟩

variable {s : HttpManagerService σ}

/-- Behind a receive that took the message `x`. -/
theorem Linked.took (h : Linked n ns s p) {x : MsgFifo.Message} {xs : List MsgFifo.Message}
    (hfront : p.manager .output = x :: xs) (hx : Encoded x) {r : MsgQueue.PopResult}
    (hret : r.ret = true) (hlen : r.msgLength = x.length) (hslice : slice r.buf 0 r.msgLength = x)
    (hsmall : r.msgLength < 2 ^ 16)
    (hcases : (r.ret = false ∧ Attached s.kMsgChannel n r.mem p.manager) ∨
      (r.ret = true ∧ ∃ xs, p.manager .output = slice r.buf 0 r.msgLength :: xs ∧
        Attached s.kMsgChannel n r.mem (Function.update p.manager .output xs))) :
    let t := s.afterRecvOutput r
    Linked n ns t.1 (p.setManager .output xs) ∧ t.2 = some (.took x) ∧ t.1.pc = .dispatch ∧
      t.1.bufSize = x.length ∧ t.1.httpServicePool = s.httpServicePool := by
  have hhead : headFits r.buf r.msgLength = true := headFits_of_encoded (hslice.symm ▸ hx)
  rw [HttpManagerService.afterRecvOutput, if_neg (by rw [hret]; decide),
    if_neg (by rw [hhead]; decide), hslice]
  rcases hcases with ⟨hfalse, -⟩ | ⟨-, xs', hfront', hnext⟩
  · exact absurd (hfalse.symm.trans hret) Bool.false_ne_true
  · obtain ⟨-, rfl⟩ := List.cons.inj (hfront'.symm.trans hfront)
    exact ⟨⟨hnext, h.service, h.answers, hsmall⟩, rfl, rfl, hlen, rfl⟩

/-- The message that is taken is no longer pending. -/
theorem Linked.takes_next (h : Linked n ns s p) (hpc : s.pc = .recvOutput) {x : MsgFifo.Message}
    {xs : List MsgFifo.Message} (hfront : p.manager .output = x :: xs) (hx : Encoded x)
    (hfits : x.length ≤ s.bufSize) :
    let t := s.managerStep
    Linked n ns t.1 (p.setManager .output xs) ∧ t.2 = some (.took x) ∧ t.1.pc = .dispatch ∧
      t.1.bufSize = x.length ∧ t.1.httpServicePool = s.httpServicePool := by
  obtain ⟨hret, hlen, hslice⟩ := h.manager.recv_front hfront hx.ne_nil s.buf hfits h.bufSize
  obtain ⟨hsmall, hcases⟩ := h.manager.recv_cases .output s.buf h.bufSize
  rw [managerStep_recvOutput hpc]
  exact h.took hfront hx hret hlen hslice hsmall hcases

/-- Behind a receive that found nothing. -/
theorem Linked.found_nothing (h : Linked n ns s p) (hnone : p.manager .output = [])
    {r : MsgQueue.PopResult} (hsmall : r.msgLength < 2 ^ 16)
    (hcases : (r.ret = false ∧ Attached s.kMsgChannel n r.mem p.manager) ∨
      (r.ret = true ∧ ∃ xs, p.manager .output = slice r.buf 0 r.msgLength :: xs ∧
        Attached s.kMsgChannel n r.mem (Function.update p.manager .output xs))) :
    let t := s.afterRecvOutput r
    Linked n ns t.1 p ∧ t.2 = none ∧ t.1.pc = .recvInput 0 ∧
      t.1.httpServicePool = s.httpServicePool := by
  rcases hcases with ⟨hret, hnext⟩ | ⟨-, xs, hfront, -⟩
  · rw [HttpManagerService.afterRecvOutput, if_pos hret]
    exact ⟨⟨hnext, h.service, h.answers, hsmall⟩, rfl, rfl, rfl⟩
  · exact absurd (hfront.symm.trans hnone) (List.cons_ne_nil _ _)

/-- Where nothing is pending, the services' turn comes. -/
theorem Linked.finds_nothing (h : Linked n ns s p) (hpc : s.pc = .recvOutput)
    (hnone : p.manager .output = []) :
    let t := s.managerStep
    Linked n ns t.1 p ∧ t.2 = none ∧ t.1.pc = .recvInput 0 ∧
      t.1.httpServicePool = s.httpServicePool := by
  obtain ⟨hsmall, hcases⟩ := h.manager.recv_cases .output s.buf h.bufSize
  rw [managerStep_recvOutput hpc]
  exact h.found_nothing hnone hsmall hcases

/-- Behind the loop over a pool of one service, which took the message. -/
theorem Linked.sent_one (h : Linked n ns s p) {slot : HttpSlot σ}
    (hslot : s.httpServicePool[0]? = some (some slot)) (hpool : s.httpServicePool = [some slot])
    {r : MsgQueue.AppendResult} (hret : r.ret = true)
    (hnext : Attached slot.svc.kMCHttp2Login (ns 0) r.mem (Function.update (p.service 0) .output
      (if r.ret then p.service 0 .output ++ [slice s.buf 0 s.bufSize] else p.service 0 .output))) :
    let t := s.afterDispatch ([some ⟨{ slot.svc with bFree := false }, r.mem⟩], some (0, r.ret))
    ∃ slot' ys, Linked n ns t.1 (p.setService 0 .output ys) ∧
      t.2 = some (.forwarded 0 (slice s.buf 0 s.bufSize)) ∧ t.1.pc = .recvOutput ∧
      t.1.httpServicePool = [some slot'] := by
  have hanswers : ∀ ys, ∀ x ∈ Function.update (p.service 0) .output ys Side.input, Encoded x := by
    intro ys x hx
    have hother : Side.input ≠ Side.output := by decide
    rw [Function.update_of_ne hother] at hx
    exact h.answers 0 slot hslot x hx
  have hset : [some (HttpSlot.mk { slot.svc with bFree := false } r.mem)] =
      s.httpServicePool.set 0 (some (HttpSlot.mk { slot.svc with bFree := false } r.mem)) := by
    rw [hpool]
    rfl
  rw [if_pos hret] at hnext
  rw [hret, afterDispatch]
  exact ⟨⟨{ slot.svc with bFree := false }, r.mem⟩,
    p.service 0 .output ++ [slice s.buf 0 s.bufSize],
    h.setService hslot rfl rfl hset h.bufSize rfl hnext (hanswers _), rfl, rfl, rfl⟩

/-- A free service with room is sent the message. -/
theorem Linked.forwards (h : Linked n ns s p) (hpc : s.pc = .dispatch) {slot : HttpSlot σ}
    (hpool : s.httpServicePool = [some slot]) (hfree : slot.svc.isFree = true)
    (hroom : s.bufSize + 8 ≤ (slot.svc.kMCHttp2Login.queue .output).getFreeSize slot.mem) :
    let t := s.managerStep
    ∃ slot' ys, Linked n ns t.1 (p.setService 0 .output ys) ∧
      t.2 = some (.forwarded 0 (slice s.buf 0 s.bufSize)) ∧ t.1.pc = .recvOutput ∧
      t.1.httpServicePool = [some slot'] := by
  have hslot : s.httpServicePool[0]? = some (some slot) := by
    rw [hpool]
    rfl
  obtain ⟨hret, hnext⟩ := (h.service 0 slot hslot).send_cases .output s.buf h.bufSize
  have hdispatch : HttpManagerService.dispatch s.buf s.bufSize s.httpServicePool =
      ([some ⟨(slot.svc.sendMessageOutput slot.mem s.buf s.bufSize).1,
        (slot.svc.sendMessageOutput slot.mem s.buf s.bufSize).2.mem⟩],
        some (0, (slot.svc.sendMessageOutput slot.mem s.buf s.bufSize).2.ret)) := by
    rw [hpool, HttpManagerService.dispatch, dispatchBy, if_pos hfree]
  rw [managerStep_dispatch hpc, hdispatch]
  exact h.sent_one hslot hpool (hret.mpr hroom) hnext

/-- A tick that sends the one message to the one service asks it for an answer at once. -/
theorem Linked.asks_at_once (h : Linked n ns s p) (hpc : s.pc = .idle) {x : MsgFifo.Message}
    (hfront : p.manager .output = [x]) (hx : Encoded x) (hfits : x.length ≤ messageLoopBufSize)
    {slot : HttpSlot σ} (hpool : s.httpServicePool = [some slot]) (hfree : slot.svc.isFree = true)
    (hroom : x.length + 8 ≤ (slot.svc.kMCHttp2Login.queue .output).getFreeSize slot.mem)
    (hnone : p.service 0 .input = []) :
    ¬Along countedStep Polled ⟨s, fun _ => 0⟩
      [.manager, .manager, .manager, .manager, .manager] := by
  -- the states are named by the step that leads to them
  obtain ⟨hlinked₁, hpc₁, hsize₁, hpool₁⟩ := h.clears hpc
  have hevent₁ : s.managerStep.2 = none := by rw [managerStep_idle hpc]
  obtain ⟨hlinked₂, hevent₂, hpc₂, hsize₂, hpool₂⟩ :=
    hlinked₁.takes_next hpc₁ hfront hx (hsize₁.symm ▸ hfits)
  have hslots := hpool₂.trans (hpool₁.trans hpool)
  obtain ⟨slot', ys, hlinked₃, hevent₃, hpc₃, hpool₃⟩ :=
    hlinked₂.forwards hpc₂ hslots hfree (hsize₂.symm ▸ hroom)
  have hempty : ((p.setManager .output []).setService 0 .output ys).manager .output = [] := by
    simp [Pendings.setManager, Pendings.setService]
  obtain ⟨hlinked₄, hevent₄, hpc₄, hpool₄⟩ := hlinked₃.finds_nothing hpc₃ hempty
  rintro ⟨-, -, -, -, hpolled, -⟩
  have hslot : s.managerStep.1.managerStep.1.managerStep.1.managerStep.1.httpServicePool[0]? =
      some (some slot') := by
    rw [hpool₄, hpool₃]
    rfl
  have hcount : tally (tally (tally (tally (fun _ => 0) s.managerStep.2)
      s.managerStep.1.managerStep.2) s.managerStep.1.managerStep.1.managerStep.2)
      s.managerStep.1.managerStep.1.managerStep.1.managerStep.2 0 = 1 := by
    rw [hevent₁, hevent₂, hevent₃, hevent₄]
    rfl
  have hinput : ((p.setManager .output []).setService 0 .output ys).service 0 .input = [] := by
    simp [Pendings.setManager, Pendings.setService, hnone]
  -- no answer waits, and one request is outstanding
  have hwaits : ¬AnswerWaits slot'
      s.managerStep.1.managerStep.1.managerStep.1.managerStep.1.bufSize := by
    rw [← recv_ret_iff (hlinked₄.service 0 slot' hslot) (hlinked₄.answers 0 slot' hslot) (fun _ => 0)
      hlinked₄.bufSize, Bool.not_eq_true]
    refine ((hlinked₄.service 0 slot' hslot).recv_refused (fun _ => 0) hlinked₄.bufSize ?_).1
    rw [hinput]
    exact fun y ys hy => absurd hy (List.cons_ne_nil y ys).symm
  have hzero := (hpolled rfl 0 slot' hpc₄ hslot).2 hwaits
  exact one_ne_zero (hcount.symm.trans hzero)

/-- The poll frees the service while its request is outstanding. -/
theorem free_while_outstanding :
    let r := (MessageChannel.new ⟨0, 0⟩ ⟨0, 0⟩).initMessageQueue firstAttach (fun _ => 0) 7 256 256
    Linked (fun _ => 256) (fun _ _ => 256) (oneService true r) oneMessagePending ∧
      Exclusive ⟨oneService true r, fun _ => 0⟩ ∧
      ¬∀ pre, pre <+: [Action.manager, .manager, .manager, .manager, .manager] →
        Exclusive (exec countedStep ⟨oneService true r, fun _ => 0⟩ pre).1 := by
  have hlinked := oneService_linked true
  dsimp only at hlinked ⊢
  generalize (MessageChannel.new ⟨0, 0⟩ ⟨0, 0⟩).initMessageQueue firstAttach (fun _ => 0) 7 256 256 = r
    at hlinked ⊢
  have hexclusive : Exclusive ⟨oneService true r, fun _ => 0⟩ := fun i slot _ =>
    ⟨fun _ => rfl, zero_le_one⟩
  have hallowed : ∀ a ∈ [Action.manager, .manager, .manager, .manager, .manager], a.Allowed := by
    simp [Action.Allowed]
  refine ⟨hlinked, hexclusive, fun hall => ?_⟩
  have halong := (invariant_iff_along (fun c => ∃ p, Linked (fun _ => 256) (fun _ _ => 256) c.sys p)
    Exclusive Action.Allowed (fun _ _ ha => countedStep_linked ha) (fun _ a _ => exclusive_step a)
    ⟨_, hlinked⟩ hexclusive hallowed).mp hall
  have hfits : fourBytesMessage.length ≤ messageLoopBufSize := by
    rw [fourBytesMessage_length]
    decide
  have hfront : oneMessagePending.manager .output = [fourBytesMessage] := by
    simp only [oneMessagePending, Function.update_self]
  have hroom : fourBytesMessage.length + 8 ≤ (r.channel.queue .output).getFreeSize r.mem := by
    have hservice := hlinked.service 0 _ rfl
    have hfree : (r.channel.queue .output).getFreeSize r.mem = 256 :=
      (hservice.holds .output).getFreeSize_eq
    rw [hfree, fourBytesMessage_length]
    decide
  exact hlinked.asks_at_once rfl hfront fourBytesMessage_encoded hfits rfl rfl hroom rfl halong

end HttpManagerService

end MmDriver

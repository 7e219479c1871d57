import MmDriver.Laws.Test.HttpDispatch
import MmDriver.Lib.CallRaces

/-!
# The dispatcher's calls race

The manager, the net service and the services make their calls on threads of their own. A call
compares the counters of its queue first (`comparison`), and does the rest in the arm that the
comparison chose (`stepIn`), while the others may have made calls of their own. As long as no
comparison changes between the two, a run is one of whole calls, and `lossless_iff` says when it
loses nothing: at every send there is room.
-/

namespace MmDriver

open ByteMem MessageChannel CallMachine CallRaces

/-- A call on a channel behind its comparison, in the arm that was chosen. -/
def MessageChannel.stepIn (c : MessageChannel) (arm : Bool) (m : Memory) :
    MessageChannel.Call → Memory × MsgQueue.Outcome
  | (side, .append pMsgBuff usMsgSize) =>
    ((c.queue side).appendIn arm m pMsgBuff usMsgSize).answer
  | (side, .pop pMsgBuff usMsgSize) =>
    (recvMessageIn (c.queue side) arm m pMsgBuff usMsgSize).answer

/-- Where the comparison still has its outcome, it is the whole call. -/
theorem MessageChannel.stepIn_readAhead (c : MessageChannel) (m : Memory) (k : MessageChannel.Call) :
    c.stepIn ((c.queue k.1).readAhead m) m k = c.step m k := by
  obtain ⟨side, call⟩ := k
  cases call with
  | append pMsgBuff usMsgSize =>
    rw [MessageChannel.stepIn, MsgQueue.appendIn_readAhead]
    cases side with
    | input => rfl
    | output => rfl
  | pop pMsgBuff usMsgSize =>
    rw [MessageChannel.stepIn, recvMessageIn_readAhead]
    cases side with
    | input => rfl
    | output => rfl

namespace HttpManagerService

variable {σ : Type}

/-! ## The system -/

/-- The parties that make calls. -/
inductive Party where
  | manager
  | net
  | http (iter : Nat)
deriving DecidableEq, Repr

/-- Who takes an action. -/
def Action.party : Action → Party
  | .manager => .manager
  | .net _ => .net
  | .http iter _ => .http iter

/-- The comparison of the call that the next step of `Tick` makes. -/
def managerComparison (s : HttpManagerService σ) : Bool :=
  match s.pc with
  | .idle => false
  | .recvOutput => s.kMsgChannel.msgOutput.readAhead s.mem
  | .dispatch =>
    match firstFree s.httpServicePool with
    | none => false
    | some slot => slot.svc.kMCHttp2Login.msgOutput.readAhead slot.mem
  | .recvInput iter =>
    match s.httpServicePool[iter]? with
    | none | some none => false
    | some (some slot) => slot.svc.kMCHttp2Login.msgInput.readAhead slot.mem
  | .sendInput _ => s.kMsgChannel.msgInput.readAhead s.mem

/-- The comparison of an action's call. -/
def comparison (s : HttpManagerService σ) : Action → Bool
  | .manager => s.managerComparison
  | .net k => (s.kMsgChannel.queue k.1).readAhead s.mem
  | .http iter k =>
    match s.httpServicePool[iter]? with
    | none | some none => false
    | some (some slot) => (slot.svc.kMCHttp2Login.queue k.1).readAhead slot.mem

/-- An action behind the comparison of its call, in the arm that was chosen. -/
def stepIn (s : HttpManagerService σ) (arm : Bool) :
    Action → HttpManagerService σ × Option Event
  | .manager => s.managerStepIn arm
  | .net k =>
    let r := s.kMsgChannel.stepIn arm s.mem k
    ({ s with mem := r.1 }, (received r.2).map .collected)
  | .http iter k =>
    match s.httpServicePool[iter]? with
    | some (some slot) =>
      let r := slot.svc.kMCHttp2Login.stepIn arm slot.mem k
      ({ s with httpServicePool := s.httpServicePool.set iter (some ⟨slot.svc, r.1⟩) },
        (received r.2).map (.served iter))
    | some none | none => (s, none)

/-- The manager and its services, with the call that every party is in. -/
abbrev Racing (σ : Type) : Type := CallRaces.Racing (HttpManagerService σ) Action Bool Party

/-- A party makes the comparison of a call, or does the rest of its call. -/
abbrev Moment : Type := CallRaces.Moment Action Party

/-- One moment. -/
def raceStep : Racing σ → Moment → Racing σ × Option (Option Event) :=
  CallRaces.step Action.party comparison stepIn

/-- The actions of a run, in the order in which they end. -/
def endedActions (r : Racing σ) (moments : List Moment) : List Action :=
  ended Action.party comparison stepIn r moments

/-- Where a call ends, no other has changed the outcome of its comparison. -/
def SameArm : Racing σ → Moment → Prop := CallRaces.Current comparison

/-- Where a step of the manager ends, there is room for what it has in hand. -/
def RoomyEnd : Racing σ → Moment → Prop := AtEnds fun s _ a => Roomy s a

/-- The events of a run. -/
def raceEvents (r : Racing σ) (moments : List Moment) : List Event :=
  (exec raceStep r moments).2.reduceOption.reduceOption

/-! ## Whole calls -/

/-- The loop over the pool only depends on the send to the first service that is free. -/
theorem dispatchBy_congr {send send' : HttpSlot σ → HttpSlot σ × Bool}
    {pool : List (Option (HttpSlot σ))}
    (hsame : ∀ slot, firstFree pool = some slot → send slot = send' slot) :
    dispatchBy send pool = dispatchBy send' pool := by
  induction pool with
  | nil => rfl
  | cons head pool ih =>
    cases head with
    | none => rw [dispatchBy, dispatchBy, ih hsame]
    | some slot =>
      cases hslot : slot.svc.isFree with
      | false =>
        have hskip : firstFree (some slot :: pool) = firstFree pool := by simp [firstFree, hslot]
        rw [hskip] at hsame
        simp only [dispatchBy, hslot, ih hsame, Bool.false_eq_true, if_false]
      | true =>
        have hfirst : firstFree (some slot :: pool) = some slot := by simp [firstFree, hslot]
        simp only [dispatchBy, hslot, hsame slot hfirst, if_true]

theorem sendOutputIn_readAhead (buf : Memory) (bufSize : Nat) (slot : HttpSlot σ) :
    sendOutputIn (slot.svc.kMCHttp2Login.msgOutput.readAhead slot.mem) buf bufSize slot =
      (let sent := slot.svc.sendMessageOutput slot.mem buf bufSize
      (⟨sent.1, sent.2.mem⟩, sent.2.ret)) := by
  rw [sendOutputIn, MsgQueue.appendIn_readAhead]
  rfl

theorem managerStepIn_comparison (s : HttpManagerService σ) :
    s.managerStepIn s.managerComparison = s.managerStep := by
  unfold managerComparison managerStepIn
  cases hpc : s.pc with
  | idle => rfl
  | recvOutput =>
    rw [managerStep_recvOutput hpc]
    dsimp only
    rw [recvMessageIn_readAhead]
    rfl
  | dispatch =>
    rw [managerStep_dispatch hpc, dispatch]
    dsimp only
    refine congrArg s.afterDispatch (dispatchBy_congr fun slot hslot => ?_)
    rw [hslot]
    exact sendOutputIn_readAhead s.buf s.bufSize slot
  | recvInput iter =>
    dsimp only
    match hslot : s.httpServicePool[iter]? with
    | none => rfl
    | some none => rfl
    | some (some slot) =>
      rw [managerStep_recvInput hpc hslot]
      dsimp only
      rw [recvMessageIn_readAhead]
      rfl
  | sendInput iter =>
    rw [managerStep_sendInput hpc]
    dsimp only
    rw [MsgQueue.appendIn_readAhead]
    rfl

/-- Where its comparison still has its outcome, an action is one of whole calls. -/
theorem stepIn_comparison (s : HttpManagerService σ) (a : Action) :
    stepIn s (comparison s a) a = step s a := by
  cases a with
  | manager => exact s.managerStepIn_comparison
  | net k =>
    unfold stepIn comparison step
    dsimp only
    rw [stepIn_readAhead]
  | http iter k =>
    unfold stepIn comparison step
    dsimp only
    match hslot : s.httpServicePool[iter]? with
    | none => rfl
    | some none => rfl
    | some (some slot) =>
      dsimp only
      rw [stepIn_readAhead]

/-! ## Losing nothing -/

/-- The run from `r`, with `p` pending, loses nothing: every message taken from the manager's
channel is sent to one service and is behind those pending there, every answer taken from a service
is sent back and is behind those pending for the net service, and what was sent stays until it is
taken. -/
structure Lossless (n : Side → Nat) (ns : Nat → Side → Nat) (r : Racing σ) (p : Pendings)
    (moments : List Moment) : Prop where
  queued : ∃ p', Linked n ns (exec raceStep r moments).1.state p' ∧
    Flow p p' (raceEvents r moments)
  settled : Settled r.state (exec raceStep r moments).1.state (raceEvents r moments)

/-- Every party only makes the calls it makes in the source. -/
structure Proper (r : Racing σ) (moments : List Moment) : Prop where
  calling : ∀ w a arm, r.calling w = some (a, arm) → a.Allowed
  moments : ∀ a, .looks a ∈ moments → a.Allowed

variable {n : Side → Nat} {ns : Nat → Side → Nat} {r : Racing σ} {p : Pendings}

/-- The run law: a run in which no comparison changes before its call ends keeps the channels, moves
what its events say, and drops something exactly when a send finds no room. -/
theorem Linked.race (h : Linked n ns r.state p) {moments : List Moment} (hproper : Proper r moments)
    (hsame : Along raceStep SameArm r moments) :
    ∃ p' lost, Linked n ns (exec raceStep r moments).1.state p' ∧ Flow p p' (raceEvents r moments) ∧
      Ledger r.state (exec raceStep r moments).1.state (raceEvents r moments) lost ∧
      (lost = 0 ↔ Along raceStep RoomyEnd r moments) := by
  obtain ⟨hrun, hreplies⟩ := exec_current stepIn_comparison hsame
  have hstate : (exec raceStep r moments).1.state =
      (exec HttpManagerService.step r.state (endedActions r moments)).1 := hrun
  have hevents : raceEvents r moments = events r.state (endedActions r moments) :=
    congrArg List.reduceOption hreplies
  have hroomy : Along raceStep RoomyEnd r moments ↔
      Along HttpManagerService.step Roomy r.state (endedActions r moments) :=
    along_ended stepIn_comparison hsame
  have hallowed : ∀ a ∈ endedActions r moments, a.Allowed :=
    ended_made hproper.calling hproper.moments
  rw [hstate, hevents, hroomy]
  exact h.run hallowed

/-- As long as no call ends behind a comparison that another has changed, the dispatcher loses
nothing exactly when, at every send, there is room: a free service with room for the message, and
room for the answer in the manager's input queue. -/
theorem lossless_iff (h : Linked n ns r.state p) {moments : List Moment} (hproper : Proper r moments)
    (hsame : Along raceStep SameArm r moments) :
    Lossless n ns r p moments ↔ Along raceStep RoomyEnd r moments := by
  obtain ⟨p', lost, hlinked, hflow, hledger, hroom⟩ := h.race hproper hsame
  rw [← hroom, ← hledger.settled_iff]
  exact ⟨Lossless.settled, fun hsettled => ⟨⟨p', hlinked, hflow⟩, hsettled⟩⟩

/-! ## One message, one service -/

/-- A tick that finds one message, with nobody else about. -/
def loneTick : List Moment := oneByOne Action.party [.manager, .manager, .manager]

/-- Nobody is in a call. -/
def quiet (s : HttpManagerService σ) : Racing σ := ⟨s, fun _ => none⟩

theorem loneTick_proper (s : HttpManagerService σ) : Proper (quiet s) loneTick := by
  refine ⟨fun w a arm hcall => ?_, fun a ha => ?_⟩
  · cases hcall
  · have hmanager : a = .manager := by simpa [loneTick, oneByOne] using ha
    rw [hmanager]
    exact trivial

theorem loneTick_sameArm (s : HttpManagerService σ) : Along raceStep SameArm (quiet s) loneTick ∧
    endedActions (quiet s) loneTick = [.manager, .manager, .manager] :=
  oneByOne_current rfl _

theorem lossless_iff_oneService :
    let r := (MessageChannel.new ⟨0, 0⟩ ⟨0, 0⟩).initMessageQueue firstAttach (fun _ => 0) 7 256 256
    Lossless (fun _ => 256) (fun _ _ => 256) (quiet (oneService true r)) oneMessagePending loneTick ↔
      Along raceStep RoomyEnd (quiet (oneService true r)) loneTick :=
  lossless_iff (oneService_linked true) (loneTick_proper _) (loneTick_sameArm _).1

/-- With its one service busy, a tick takes the message and drops it. -/
theorem busy_service_loses :
    let r := (MessageChannel.new ⟨0, 0⟩ ⟨0, 0⟩).initMessageQueue firstAttach (fun _ => 0) 7 256 256
    Linked (fun _ => 256) (fun _ _ => 256) (oneService false r) oneMessagePending ∧
      ¬Lossless (fun _ => 256) (fun _ _ => 256) (quiet (oneService false r)) oneMessagePending
        loneTick := by
  have hlinked := oneService_linked false
  dsimp only at hlinked ⊢
  generalize (MessageChannel.new ⟨0, 0⟩ ⟨0, 0⟩).initMessageQueue firstAttach (fun _ => 0) 7 256 256 = r
    at hlinked ⊢
  refine ⟨hlinked, fun hlossless => ?_⟩
  obtain ⟨hsame, hended⟩ := loneTick_sameArm (oneService false r)
  have hrace := Linked.race (r := quiet (oneService false r)) hlinked (loneTick_proper _) hsame
  obtain ⟨-, lost, -, -, hledger, hroom⟩ := hrace
  have hroomy : Along raceStep RoomyEnd (quiet (oneService false r)) loneTick ↔
      Along HttpManagerService.step Roomy (oneService false r)
        (endedActions (quiet (oneService false r)) loneTick) := along_ended stepIn_comparison hsame
  have hfits : fourBytesMessage.length ≤ messageLoopBufSize := by
    rw [fourBytesMessage_length]
    decide
  have hfront : oneMessagePending.manager .output = [fourBytesMessage] := by
    simp only [oneMessagePending, Function.update_self]
  rw [hended] at hroomy
  exact hlinked.busy rfl hfront fourBytesMessage_encoded hfits rfl
    (hroomy.mp (hroom.mp (hledger.settled_iff.mp hlossless.settled)))

end HttpManagerService

end MmDriver

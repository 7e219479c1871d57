import MmDriver.Lib.ActionSystem
import MmDriver.Service.Service

/-!
# `ServiceManager::Run` and the thread pool

`include/service/servicemanager.h` and `src/service/servicemanager.cpp`: the manager's thread runs
`RunLogic(SS_START)`, `RunLogic(SS_RUN)` and `RunLogic(SS_SHUTDOWN)`, and schedules `Service::Run`
on the pool in each `Tick`. The pool is a fifo: a free thread takes the first task that waits, and
runs it once. `System.step` takes one step of the manager, of a task, or of somebody who calls
`ShutDown`.
-/

namespace MmDriver

open Service

/-- The argument of `RunLogic`. -/
inductive Phase where
  | start
  | run
  | shutdown
deriving DecidableEq, Repr

namespace Phase

/-- The state that `SetAllServiceStatus` sets. -/
def serviceState : Phase → ServiceState
  | start => .start
  | run => .run
  | shutdown => .shutdown

/-- The state that `RunLogicBreakCondition` waits for; `SS_RUN` ends with `m_bShutdown`. -/
def breakState : Phase → Option ServiceState
  | start => some .startOk
  | run => none
  | shutdown => some .shutdownOk

/-- The next `RunLogic`. -/
def next : Phase → Option Phase
  | start => some run
  | run => some shutdown
  | shutdown => none

end Phase

/-- Where the manager's thread stands in `RunLogic`: in `SetAllServiceStatus` or `Tick` before
service `k`; behind its `NeedSchedule`, which was true; behind `SetRunningState(RS_SCHEDULE)`; in
`RunLogicBreakCondition` before service `k`; in `Wait`; or behind the last `RunLogic`. -/
inductive ManagerPc where
  | setAll (k : Nat)
  | tick (k : Nat)
  | asked (k : Nat)
  | marked (k : Nat)
  | check (k : Nat)
  | wait
  | finished
deriving DecidableEq, Repr

/-- A `Run` of a service, scheduled on the pool and not over. -/
structure Task where
  service : Nat
  pc : RunPc
deriving DecidableEq, Repr

/-- The manager, its services and its pool. `log` are the events at the services so far, and
`runs` counts the `Run`s a service has completed since the last `SetAllServiceStatus`. -/
structure System where
  phase : Phase
  pc : ManagerPc
  bShutdown : Bool
  services : Nat → Service
  tasks : List Task
  log : List (Nat × Event)
  runs : Nat → Nat

namespace System

/-- Before `Run`, with all services registered. -/
def init : System where
  phase := .start
  pc := .setAll 0
  bShutdown := false
  services := fun _ => Service.new
  tasks := []
  log := []
  runs := fun _ => 0

/-- A member of service `k` is written. -/
def setService (s : System) (k : Nat) (v : Service) : System :=
  { s with services := Function.update s.services k v }

@[simp] theorem setService_self (s : System) (k : Nat) (v : Service) :
    (s.setService k v).services k = v :=
  Function.update_self _ _ _

theorem setService_other (s : System) {k i : Nat} (hi : i ≠ k) (v : Service) :
    (s.setService k v).services i = s.services i :=
  Function.update_of_ne hi _ _

/-- `IsAllServiceStatusEqual`. -/
def isAllServiceStatusEqual (s : System) (count : Nat) (enmStatus : ServiceState) : Bool :=
  (List.range count).all fun k => (s.services k).serviceState = enmStatus

/-- `RunLogicBreakCondition`, read in one moment. -/
def runLogicBreakCondition (s : System) (count : Nat) (enmRunStatus : Phase) : Bool :=
  match enmRunStatus.breakState with
  | some st => s.isAllServiceStatusEqual count st
  | none => s.bShutdown

/-- One step of the manager's thread. `b` is the answer of `NeedSchedule`, or whether `Wait` runs
into its timeout. -/
def managerStep (hooks : Hooks) (count : Nat) (s : System) (b : Bool) : Option System :=
  match s.pc with
  | .setAll k =>
    if k < count then
      let v := (s.services k).setServiceState s.phase.serviceState
      some { s.setService k v with pc := .setAll (k + 1) }
    else some { s with pc := .tick 0, runs := fun _ => 0 }
  | .tick k =>
    if k < count then
      if (s.services k).runState = .ready then
        if hooks k .needSchedule (s.services k).serviceState b then
          some { s with pc := if b then .asked k else .tick (k + 1) }
        else none
      else some { s with pc := .tick (k + 1) }
    else some { s with pc := .check 0 }
  | .asked k =>
    some { s.setService k ((s.services k).setRunningState .schedule) with pc := .marked k }
  | .marked k => some { s with pc := .tick (k + 1), tasks := s.tasks ++ [⟨k, .queued⟩] }
  | .check k =>
    match s.phase.breakState with
    | some st =>
      if k < count then
        if (s.services k).serviceState = st then some { s with pc := .check (k + 1) }
        else some { s with pc := .tick 0 }
      else some { s with pc := .wait }
    | none => some { s with pc := if s.bShutdown then .wait else .tick 0 }
  | .wait =>
    if b = true ∨ s.tasks = [] then
      match s.phase.next with
      | some phase => some { s with phase := phase, pc := .setAll 0 }
      | none => some { s with pc := .finished }
    else none
  | .finished => none

/-- The pool can give the task at position `n` to a thread: none waits before it, and one of the
`threads` threads is free. -/
def canTake (threads : Nat) (s : System) (n : Nat) : Bool :=
  (s.tasks.take n).all (·.pc ≠ .queued) && (s.tasks.countP (·.pc ≠ .queued) < threads)

/-- The tasks after a step of the one at position `n` that leaves its `Run` at `pc`, or ends it. -/
def stepped (tasks : List Task) (n : Nat) (t : Task) : Option RunPc → List Task
  | some pc => tasks.set n { t with pc := pc }
  | none => tasks.eraseIdx n

/-- The system after a step of the task at position `n`. -/
def afterTask (s : System) (n : Nat) (t : Task) (r : RunStep) : System :=
  { s.setService t.service r.service with
    tasks := stepped s.tasks n t r.pc
    log := s.log ++ r.event.toList.map (t.service, ·)
    runs := if t.pc = .leaving then Function.update s.runs t.service (s.runs t.service + 1)
      else s.runs }

/-- One step of the task at position `n`; `b` is the answer of the hook that returns in it. -/
def taskStep (hooks : Hooks) (threads : Nat) (s : System) (n : Nat) (b : Bool) : Option System :=
  match s.tasks[n]? with
  | none => none
  | some t =>
    let v := s.services t.service
    if t.pc = .queued ∧ canTake threads s n = false then none
    else if (t.pc.query.all fun q => hooks t.service q v.serviceState b) = true then
      some (s.afterTask n t (runStep v t.pc b))
    else none

/-- Who takes the next step. -/
inductive Action where
  | manager (b : Bool)
  | task (n : Nat) (b : Bool)
  | shutDown
deriving DecidableEq, Repr

/-- The system's next step. -/
def step (hooks : Hooks) (count threads : Nat) (s : System) : Action → Option System
  | .manager b => managerStep hooks count s b
  | .task n b => taskStep hooks threads s n b
  | .shutDown => some { s with bShutdown := true }

end System

end MmDriver

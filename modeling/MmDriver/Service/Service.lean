import Mathlib.Logic.Function.Basic

/-!
# `Service` and its `Run`

`include/service/service.h` and `src/service/service.cpp`. `Run` executes on a thread of the pool
while the manager reads and writes the same object, so it is given as single steps: each reads or
writes one member that is shared, or calls one hook, and a hook that was called returns in a step
of its own. What is only logged (the update times) is left out.
-/

namespace MmDriver

/-- `enum ServiceState`. -/
inductive ServiceState where
  | none
  | start
  | startProcess
  | startFail
  | startOk
  | run
  | shutdown
  | shutdownProcess
  | shutdownOk
deriving DecidableEq, Repr

/-- `enum RunningState`. -/
inductive RunningState where
  | ready
  | schedule
  | running
deriving DecidableEq, Repr

/-- The two members of `Service` that the manager and a `Run` share. -/
structure Service where
  runState : RunningState
  serviceState : ServiceState
deriving DecidableEq, Repr

namespace Service

/-- The constructor. -/
def new : Service := ⟨.ready, .none⟩

/-- `SetRunningState`. -/
def setRunningState (s : Service) (enmRunningState : RunningState) : Service :=
  { s with runState := enmRunningState }

/-- `SetServiceState`. -/
def setServiceState (s : Service) (enmServiceState : ServiceState) : Service :=
  { s with serviceState := enmServiceState }

/-- The hooks whose answer is used. -/
inductive Query where
  | needSchedule
  | isStartOk
  | isShutdownOk
  | init
deriving DecidableEq, Repr

/-- `NeedSchedule`, `IsStartOK`, `IsShutdownOK` and `Init` of the base class. -/
def answer : Query → ServiceState → Bool
  | .needSchedule, st => st ≠ .none && st ≠ .shutdownOk
  | .isStartOk, st => st = .startOk || st ≠ .run
  | .isShutdownOk, st => st = .shutdownOk
  | .init, _ => true

/-- What the hooks of each service may answer in which of its states. Hooks are virtual and keep
their own data, so more than one answer may be possible. -/
def Hooks : Type := Nat → Query → ServiceState → Bool → Bool

/-- The hooks of the base class, in every service. -/
def baseHooks : Hooks := fun _ q st b => b == answer q st

/-- Where a `Run` that was scheduled stands. -/
inductive RunPc where
  /-- In the pool's queue. -/
  | queued
  /-- Taken by a thread. -/
  | taken
  /-- `RS_RUNNING` is set. -/
  | entered
  /-- Before `m_enmServiceState = SS_START_PROCESS`, before `Init`, in it, and after it failed. -/
  | starting
  | initCall
  | inInit
  | initFailed
  /-- Before `IsStartOK`, and after it was true. -/
  | startCheck
  | startDone
  /-- Before `Tick`, and in it. -/
  | tickCall
  | inTick
  /-- Before `m_enmServiceState = SS_SHUTDOWN_PROCESS`, before `Shutdown`, and in it. -/
  | stopping
  | shutdownCall
  | inShutdown
  /-- Before `IsShutdownOK`, and after it was true. -/
  | stopCheck
  | stopDone
  /-- Before `SetRunningState(RS_READY)`. -/
  | leaving
deriving DecidableEq, Repr

/-- The hook that answers in the next step. -/
def RunPc.query : RunPc → Option Query
  | .inInit => some .init
  | .startCheck => some .isStartOk
  | .stopCheck => some .isShutdownOk
  | _ => none

/-- What happens at a service: its hooks are called, and `Init` returns. -/
inductive Event where
  | init
  | initReturned (ok : Bool)
  | tick
  | shutdown
deriving DecidableEq, Repr

/-- What a step of `Run` leaves: where it goes on (`none` when it is over), the service, and the
event it was. -/
structure RunStep where
  pc : Option RunPc
  service : Service
  event : Option Event
deriving DecidableEq, Repr

/-- The `switch` of `Run`. With `SS_START_FAIL` the assertion throws, and the last line of `Run` is
not reached. -/
def dispatch : ServiceState → Option RunPc
  | .start => some .starting
  | .startProcess => some .startCheck
  | .startFail => none
  | .run => some .tickCall
  | .shutdown => some .stopping
  | .shutdownProcess => some .stopCheck
  | .none | .startOk | .shutdownOk => some .leaving

/-- One step of `Run`, with the answer of the hook that returns in it. -/
def runStep (s : Service) (pc : RunPc) (b : Bool) : RunStep :=
  match pc with
  | .queued => ⟨some .taken, s, none⟩
  | .taken => ⟨some .entered, s.setRunningState .running, none⟩
  | .entered => ⟨dispatch s.serviceState, s, none⟩
  | .starting => ⟨some .initCall, s.setServiceState .startProcess, none⟩
  | .initCall => ⟨some .inInit, s, some .init⟩
  | .inInit => ⟨some (if b then .leaving else .initFailed), s, some (.initReturned b)⟩
  | .initFailed => ⟨some .leaving, s.setServiceState .startFail, none⟩
  | .startCheck => ⟨some (if b then .startDone else .leaving), s, none⟩
  | .startDone => ⟨some .leaving, s.setServiceState .startOk, none⟩
  | .tickCall => ⟨some .inTick, s, some .tick⟩
  | .inTick => ⟨some .leaving, s, none⟩
  | .stopping => ⟨some .shutdownCall, s.setServiceState .shutdownProcess, none⟩
  | .shutdownCall => ⟨some .inShutdown, s, some .shutdown⟩
  | .inShutdown => ⟨some .leaving, s, none⟩
  | .stopCheck => ⟨some (if b then .stopDone else .leaving), s, none⟩
  | .stopDone => ⟨some .leaving, s.setServiceState .shutdownOk, none⟩
  | .leaving => ⟨none, s.setRunningState .ready, none⟩

end Service

end MmDriver

import MmDriver.Service.ServiceManager

/-!
# `HttpManagerService` and the states of its pool

`test/HttpManagerService.cpp`: `IsStartOK` and `IsShutdownOK` go through the services of the pool
and ask each the hook of the same name, which is the base class's. The services are registered
beside the manager of the pool and move on other threads, so a loop takes a step for each service
it asks (`PoolSystem.step`); everything else is the system's step.
-/

namespace MmDriver

open Service

/-- `HttpManagerService` and `m_kHttpServicePool`, by the order they were registered in. -/
structure HttpPool where
  manager : Nat
  services : List Nat

namespace HttpPool

/-- Whether the loop of a hook returns `false` at a service in this state. -/
def returnsFalse : Query → ServiceState → Bool
  | .isStartOk, st => !answer .isStartOk st
  | .isShutdownOk, st => answer .isShutdownOk st
  | .needSchedule, _ | .init, _ => false

/-- `HttpManagerService::IsStartOK`, on services in these states. -/
def isStartOk (states : List ServiceState) : Bool :=
  states.all fun st => !returnsFalse .isStartOk st

/-- `HttpManagerService::IsShutdownOK`. -/
def isShutdownOk (states : List ServiceState) : Bool :=
  states.all fun st => !returnsFalse .isShutdownOk st

/-- The states of the pool's services. -/
def states (p : HttpPool) (s : System) : List ServiceState :=
  p.services.map fun k => (s.services k).serviceState

/-- The two hooks of the manager answer what their loops come to. -/
def hooks (p : HttpPool) (others : Hooks) : Hooks := fun k q st b =>
  (k = p.manager && (q = .isStartOk || q = .isShutdownOk)) || others k q st b

end HttpPool

/-- The system, and where the loop of the manager's hook stands in the pool. -/
structure PoolSystem where
  system : System
  iter : Nat

namespace PoolSystem

def init : PoolSystem := ⟨System.init, 0⟩

/-- The hook whose loop the task at position `n` is in. -/
def loopAt (p : HttpPool) (s : System) (n : Nat) : Option Query :=
  match s.tasks[n]? with
  | some t => if t.service = p.manager then t.pc.query.filter (· ≠ .init) else none
  | none => none

/-- The next step: in a loop one service is asked, or the hook returns. -/
def step (others : Hooks) (count threads : Nat) (p : HttpPool) (s : PoolSystem) :
    System.Action → Option PoolSystem
  | .task n b =>
    let returns := fun b => (System.step (p.hooks others) count threads s.system (.task n b)).map
      fun t => (⟨t, 0⟩ : PoolSystem)
    match loopAt p s.system n with
    | none => (System.step (p.hooks others) count threads s.system (.task n b)).map
        fun t => { s with system := t }
    | some q =>
      match p.services[s.iter]? with
      | none => returns true
      | some k =>
        if HttpPool.returnsFalse q (s.system.services k).serviceState then returns false
        else some { s with iter := s.iter + 1 }
  | .manager b => (System.step (p.hooks others) count threads s.system (.manager b)).map
      fun t => { s with system := t }
  | .shutDown => (System.step (p.hooks others) count threads s.system .shutDown).map
      fun t => { s with system := t }

end PoolSystem

end MmDriver

import MmDriver.Service.ServiceManager

/-!
# The life of one service

What the manager has done to a service is its `Stage`; it follows from where the manager stands.
`allowed` is the table of a service's states: for each stage and each `ServiceState`, where its
`Run` may stand and what has happened before. Every step of `Run` stays inside the table
(`allowed_runStep`), and so does every step of the manager.
-/

namespace MmDriver

open Service

/-! ## The table -/

/-- What the manager has done to a service: nothing yet; `SetAllServiceStatus(SS_START)`; it has
then seen `SS_START_OK`; `SetAllServiceStatus(SS_RUN)`; `SetAllServiceStatus(SS_SHUTDOWN)`. -/
inductive Stage where
  | idle
  | starting
  | started
  | running
  | stopping
deriving DecidableEq, Repr

/-- The stage of service `i`. -/
def stageOf : Phase → ManagerPc → Nat → Stage
  | .start, .setAll k, i => if i < k then .starting else .idle
  | .start, .check k, i => if i < k then .started else .starting
  | .start, .wait, _ => .started
  | .start, _, _ => .starting
  | .run, .setAll k, i => if i < k then .running else .started
  | .run, _, _ => .running
  | .shutdown, .setAll k, i => if i < k then .stopping else .running
  | .shutdown, _, _ => .stopping

/-- What has happened at a service: `Init` was called, it has returned true, `Shutdown` was
called. -/
structure Facts where
  init : Bool
  initOk : Bool
  shutdown : Bool

/-- The facts after one more event. -/
def Facts.after (f : Facts) : Event → Facts
  | .init => { f with init := true }
  | .initReturned ok => { f with initOk := f.initOk || ok }
  | .tick => f
  | .shutdown => { f with shutdown := true }

/-- No `Run`, or one that has not looked at the state yet. -/
def untouched : Option RunPc → Bool
  | none | some .queued | some .taken | some .entered => true
  | _ => false

/-- No `Run`, or one that will not touch the state or call a hook any more unless it looks at the
state first. -/
def calm (pc : Option RunPc) : Bool := untouched pc || pc = some .leaving

/-- Where a `Run` of a service may stand. -/
def allowed (f : Facts) : Stage → ServiceState → Option RunPc → Bool
  | .idle, .none, pc => !f.init && !f.shutdown && pc = none
  | .starting, .start, pc => !f.init && !f.shutdown && (untouched pc || pc = some .starting)
  | .starting, .startProcess, pc => !f.shutdown &&
      (!f.init && pc = some .initCall || pc = some .inInit || pc = some .initFailed ||
        f.initOk && (calm pc || pc = some .startCheck || pc = some .startDone))
  | .starting, .startFail, pc => !f.shutdown && calm pc
  | .starting, .startOk, pc => !f.shutdown && f.initOk && calm pc
  | .started, .startOk, pc => !f.shutdown && f.initOk && calm pc
  | .running, .run, pc => !f.shutdown && f.initOk &&
      (calm pc || pc = some .tickCall || pc = some .inTick)
  | .stopping, .shutdown, pc => !f.shutdown && f.initOk &&
      (calm pc || pc = some .tickCall || pc = some .inTick || pc = some .stopping)
  | .stopping, .shutdownProcess, pc => f.initOk &&
      (!f.shutdown && pc = some .shutdownCall || calm pc || pc = some .inShutdown ||
        pc = some .stopCheck || pc = some .stopDone)
  | .stopping, .shutdownOk, pc => f.initOk && calm pc
  | _, _, _ => false

/-! ## Steps inside the table -/

/-- A step of `Run` stays inside the table. -/
theorem allowed_runStep {f : Facts} {g : Stage} {v : Service} {pc : RunPc} (b : Bool)
    (h : allowed f g v.serviceState (some pc) = true) :
    let r := runStep v pc b
    allowed (r.event.elim f f.after) g r.service.serviceState r.pc = true := by
  obtain ⟨run, st⟩ := v
  cases g <;> cases st <;> simp only [allowed, Bool.false_eq_true] at h <;>
    cases pc <;> simp_all [runStep, dispatch, allowed, calm, untouched, setServiceState,
      setRunningState, Facts.after] <;> cases b <;> simp_all

/-- A service that was set to start may be scheduled. -/
theorem allowed_queued {f : Facts} {g : Stage} {st : ServiceState} (hg : g ≠ .idle)
    (h : allowed f g st none = true) : allowed f g st (some .queued) = true := by
  cases g with
  | idle => exact absurd rfl hg
  | _ => cases st <;> simp_all [allowed, calm, untouched]

/-- `SetAllServiceStatus` takes a service to its next stage. -/
theorem allowed_setServiceState {f : Facts} {st : ServiceState} {pc : Option RunPc} (phase : Phase)
    {k : Nat} (h : allowed f (stageOf phase (.setAll k) k) st pc = true) :
    allowed f (stageOf phase (.setAll (k + 1)) k) phase.serviceState pc = true := by
  cases phase <;> cases st <;>
    simp_all [stageOf, Phase.serviceState, allowed, calm, untouched]

theorem state_of_started {f : Facts} {st : ServiceState} {pc : Option RunPc}
    (h : allowed f .started st pc = true) : st = .startOk := by
  cases st with
  | startOk => rfl
  | _ => exact absurd h Bool.false_ne_true

/-- From then on `Init` has returned true. -/
theorem initOk_of_allowed {f : Facts} {g : Stage} {st : ServiceState} {pc : Option RunPc}
    (hg : g = .started ∨ g = .running ∨ g = .stopping) (h : allowed f g st pc = true) :
    f.initOk = true := by
  rcases hg with rfl | rfl | rfl <;> cases st <;> simp_all [allowed]

/-- `Init` is about to be called: it was not called before, nor was `Shutdown`. -/
theorem facts_of_initCall {f : Facts} {g : Stage} {st : ServiceState}
    (h : allowed f g st (some .initCall) = true) : f.init = false ∧ f.shutdown = false := by
  cases g <;> cases st <;> simp_all [allowed, calm, untouched]

/-- `Tick` is about to be called: the manager has set `SS_RUN`, and `Shutdown` was not called. -/
theorem facts_of_tickCall {f : Facts} {g : Stage} {st : ServiceState}
    (h : allowed f g st (some .tickCall) = true) :
    f.shutdown = false ∧ (g = .running ∨ g = .stopping) := by
  cases g <;> cases st <;> simp_all [allowed, calm, untouched]

/-- When one service is set to run, all have been seen in `SS_START_OK`. -/
theorem stageOf_started {phase : Phase} {pc : ManagerPc} {i : Nat}
    (h : stageOf phase pc i = .running ∨ stageOf phase pc i = .stopping) (j : Nat) :
    stageOf phase pc j = .started ∨ stageOf phase pc j = .running ∨
      stageOf phase pc j = .stopping := by
  cases phase <;> cases pc <;> grind [stageOf]

end MmDriver

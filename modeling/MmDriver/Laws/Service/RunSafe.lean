import MmDriver.Service.ServiceRun

/-!
# A `Run` that throws

The last line of `Run` makes the service ready again, and it stands behind `__LEAVE_FUNCTION`. A
hook that throws, and the assertion of `SS_START_FAIL`, therefore leave a service that the manager
never schedules again, and a throw that the pool does not expect (`exec_run`).

`runSteps_eq` connects this `Run` with the one in steps: for hooks that only answer they are one.
-/

namespace MmDriver

open Throwing

namespace Service

variable (hooks : RunHooks) (rkTimeData : TimeData)

/-- `Run` is its `switch`; what is thrown there skips the last line. -/
theorem exec_run (s : Service) :
    exec (run hooks rkTimeData) s =
      match exec (runSwitch hooks rkTimeData) (s.setRunningState .running) with
      | (.ok _, u) => (.ok (), u.setRunningState .ready)
      | (.error _, u) => (.error (.int 1), u) := by
  simp only [run, exec_bind, exec_modify, exec_enterLeaveFunction]
  rcases exec (runSwitch hooks rkTimeData) (s.setRunningState .running) with ⟨r, u⟩
  cases r with
  | ok a => rfl
  | error e => rfl

/-- `Run` returned to the pool, and the manager can schedule the service again. -/
structure RunSafe (s : Service) : Prop where
  returned : (exec (run hooks rkTimeData) s).1 = .ok ()
  ready : (exec (run hooks rkTimeData) s).2.runState = .ready

theorem runSafe_iff_returns (s : Service) :
    RunSafe hooks rkTimeData s ↔
      Returns (runSwitch hooks rkTimeData) (s.setRunningState .running) := by
  have hrun := exec_run hooks rkTimeData s
  unfold Returns
  rcases hswitch : exec (runSwitch hooks rkTimeData) (s.setRunningState .running) with ⟨r, u⟩
  rw [hswitch] at hrun
  cases r with
  | ok a =>
    refine iff_of_true ⟨?_, ?_⟩ ⟨a, rfl⟩
    · rw [hrun]
    · rw [hrun]
      rfl
  | error e =>
    refine iff_of_false (fun hsafe => ?_) ?_
    · have hreturned := hsafe.returned
      rw [hrun] at hreturned
      cases hreturned
    · rintro ⟨a, ha⟩
      cases ha

/-- The hook that `Run` calls in the service's state returns, if it calls one. -/
def HookReturns (s : Service) : Prop :=
  let s := s.setRunningState .running
  match s.serviceState with
  | .start => Returns hooks.init (s.setServiceState .startProcess)
  | .startProcess => Returns hooks.isStartOk s
  | .run => Returns (hooks.tick rkTimeData) s
  | .shutdown => Returns hooks.shutdown (s.setServiceState .shutdownProcess)
  | .shutdownProcess => Returns hooks.isShutdownOk s
  | .startFail | .startOk | .shutdownOk | .none => True

/-- A hook's answer is looked at in a way that does not throw. -/
theorem returns_answered (c : Throwing Thrown Service Bool) (b : Bool) (f : Service → Service)
    (s : Service) : Returns (do if (← c) = b then modify f) s ↔ Returns c s := by
  refine returns_bind_total c _ s fun a t => ?_
  split
  · exact ⟨_, rfl⟩
  · exact returns_pure _ t

theorem returns_runSwitch_iff (s : Service) :
    Returns (runSwitch hooks rkTimeData) (s.setRunningState .running) ↔
      s.serviceState ≠ .startFail ∧ HookReturns hooks rkTimeData s := by
  obtain ⟨runState, state⟩ := s
  rw [runSwitch, returns_get_bind_iff, HookReturns]
  cases state with
  | start =>
    simpa [setRunningState, returns_modify_bind_iff] using returns_answered hooks.init false _ _
  | startProcess => simpa [setRunningState] using returns_answered hooks.isStartOk true _ _
  | startFail => simp [setRunningState, returns_assertEx_iff]
  | run => simp [setRunningState]
  | shutdown =>
    have hshutdown := returns_bind_total hooks.shutdown (fun _ => pure PUnit.unit)
      ⟨.running, .shutdownProcess⟩ fun _ t => returns_pure _ t
    simpa [setRunningState, setServiceState, returns_modify_bind_iff] using hshutdown
  | shutdownProcess => simpa [setRunningState] using returns_answered hooks.isShutdownOk true _ _
  | startOk => simpa [setRunningState] using returns_pure PUnit.unit _
  | shutdownOk => simpa [setRunningState] using returns_pure PUnit.unit _
  | none => simpa [setRunningState] using returns_pure PUnit.unit _

/-- **`Run` is safe** exactly when the service has not failed to start, and the hook of its state
returns. -/
theorem run_safe_iff (s : Service) :
    RunSafe hooks rkTimeData s ↔ s.serviceState ≠ .startFail ∧ HookReturns hooks rkTimeData s :=
  (runSafe_iff_returns hooks rkTimeData s).trans (returns_runSwitch_iff hooks rkTimeData s)

/-- Hooks that return `true`, but for `Tick`, which throws. -/
def throwingTick : RunHooks where
  init := pure true
  isStartOk := pure true
  tick _ := throw (.stdString "tick")
  shutdown := pure true
  isShutdownOk := pure true

/-- A running service whose `Tick` throws stays `RS_RUNNING`, and the pool gets the throw. -/
theorem throwing_tick_unsafe :
    let noon : TimeData := ⟨2020, 5, 31, 12, 0, 0, 0, 0, 0⟩
    exec (run throwingTick noon) ⟨.schedule, .run⟩ = (.error (.int 1), ⟨.running, .run⟩) ∧
      ¬RunSafe throwingTick noon ⟨.schedule, .run⟩ := by
  intro noon
  have hrun : exec (run throwingTick noon) ⟨.schedule, .run⟩ =
      (.error (.int 1), ⟨.running, .run⟩) := rfl
  refine ⟨hrun, fun hsafe => ?_⟩
  have hready := hsafe.ready
  rw [hrun] at hready
  cases hready

/-! ## The `Run` in steps -/

/-- Hooks that answer as `answers` says and change nothing. -/
structure Quiet (answers : Query → Bool) : Prop where
  init : ∀ s, exec hooks.init s = (.ok (answers .init), s)
  isStartOk : ∀ s, exec hooks.isStartOk s = (.ok (answers .isStartOk), s)
  tick : ∀ s, exec (hooks.tick rkTimeData) s = (.ok (), s)
  shutdown : ∀ s, ∃ b, exec hooks.shutdown s = (.ok b, s)
  isShutdownOk : ∀ s, exec hooks.isShutdownOk s = (.ok (answers .isShutdownOk), s)

/-- The service when a `Run` in steps is over. -/
def runSteps (answers : Query → Bool) : Nat → Service → RunPc → Option Service
  | 0, _, _ => none
  | fuel + 1, s, pc =>
    let r := runStep s pc (pc.query.elim false answers)
    match r.pc with
    | none => some r.service
    | some pc => runSteps answers fuel r.service pc

/-- From a thread's taking the task on, the `Run` in steps ends where `Run` does. -/
theorem runSteps_eq {answers : Query → Bool} (h : Quiet hooks rkTimeData answers) (s : Service) :
    runSteps answers 7 s .taken = some (exec (run hooks rkTimeData) s).2 := by
  obtain ⟨runState, state⟩ := s
  obtain ⟨b, hshutdown⟩ := h.shutdown ⟨.running, .shutdownProcess⟩
  rw [exec_run]
  cases state with
  | start =>
    cases hinit : answers .init <;>
      simp [runSteps, runStep, dispatch, RunPc.query, runSwitch, setRunningState, setServiceState,
        h.init, hinit]
  | startProcess =>
    cases hstart : answers .isStartOk <;>
      simp [runSteps, runStep, dispatch, RunPc.query, runSwitch, setRunningState, setServiceState,
        h.isStartOk, hstart]
  | shutdownProcess =>
    cases hstop : answers .isShutdownOk <;>
      simp [runSteps, runStep, dispatch, RunPc.query, runSwitch, setRunningState, setServiceState,
        h.isShutdownOk, hstop]
  | run =>
    simp [runSteps, runStep, dispatch, runSwitch, setRunningState, h.tick]
  | shutdown =>
    simp [runSteps, runStep, dispatch, runSwitch, setRunningState, setServiceState, hshutdown,
      Except.map]
  | startFail => rfl
  | startOk => rfl
  | shutdownOk => rfl
  | none => rfl

end Service

end MmDriver

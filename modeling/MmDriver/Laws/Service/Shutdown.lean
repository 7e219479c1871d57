import MmDriver.Laws.Service.RunOnce

/-!
# Shutdown with the hooks of the base class

`Run` leaves `SS_SHUTDOWN_PROCESS` when `IsShutdownOK` is true, and the base class's
`IsShutdownOK` is true when the state is `SS_SHUTDOWN_OK` already. So no service gets there, and
`RunLogic(SS_SHUTDOWN)` never leaves its loop.
-/

namespace MmDriver

open Service ActionSystem

namespace System

variable {hooks : Hooks} {count threads : Nat} {P : Nat → Prop} {s s' : System}

/-- `NeedSchedule` and `IsShutdownOK` are those of the base class; its `Shutdown` only returns. -/
structure BaseShutdown (hooks : Hooks) : Prop where
  needSchedule : ∀ i st b, hooks i .needSchedule st b = (b == answer .needSchedule st)
  isShutdownOk : ∀ i st b, hooks i .isShutdownOk st b = (b == answer .isShutdownOk st)

/-- None of the services in `P` is in `SS_SHUTDOWN_OK`, and no `Run` is about to put one there. -/
structure NeverOk (P : Nat → Prop) (s : System) : Prop where
  state : ∀ i, P i → (s.services i).serviceState ≠ .shutdownOk
  task : ∀ t ∈ s.tasks, P t.service → t.pc ≠ .stopDone

theorem NeverOk.write (h : NeverOk P s) (k : Nat) {v : Service}
    (hv : P k → v.serviceState ≠ .shutdownOk) :
    ∀ i, P i → ((s.setService k v).services i).serviceState ≠ .shutdownOk := by
  intro i hP
  by_cases hi : i = k
  · subst hi
    rw [setService_self]
    exact hv hP
  · rw [s.setService_other hi]
    exact h.state i hP

/-- A step of `Run` that has not seen `IsShutdownOK` true does not set `SS_SHUTDOWN_OK`. -/
theorem runStep_neverOk {v : Service} {pc : RunPc} {b : Bool} (hv : v.serviceState ≠ .shutdownOk)
    (hpc : pc ≠ .stopDone) (hb : pc = .stopCheck → b = false) :
    (runStep v pc b).service.serviceState ≠ .shutdownOk ∧
      (runStep v pc b).pc ≠ some .stopDone := by
  cases pc with
  | stopDone => exact absurd rfl hpc
  | stopCheck =>
    rw [hb rfl]
    exact ⟨hv, by simp [runStep]⟩
  | entered =>
    refine ⟨hv, ?_⟩
    simp only [runStep, dispatch]
    cases v.serviceState <;> simp
  | _ => simp_all [runStep, setServiceState, setRunningState] <;> split <;> simp

theorem NeverOk.task_step (h : NeverOk P s)
    (hbase : ∀ i, P i → ∀ st b, hooks i .isShutdownOk st b = (b == answer .isShutdownOk st)) {n : Nat}
    {b : Bool} (hstep : taskStep hooks threads s n b = some s') : NeverOk P s' := by
  obtain ⟨t, ht, hquery, rfl⟩ := taskStep_cases hstep
  have hmem : t ∈ s.tasks := List.mem_of_getElem? ht
  have hanswer : P t.service → t.pc = .stopCheck → b = false := by
    intro hP hpc
    have hask := hquery .isShutdownOk (by rw [hpc]; rfl)
    rw [hbase _ hP, beq_iff_eq] at hask
    rw [hask]
    exact decide_eq_false (h.state t.service hP)
  have hrun := fun hP => runStep_neverOk (h.state t.service hP) (h.task t hmem hP) (hanswer hP)
  refine ⟨h.write t.service fun hP => (hrun hP).1, fun t' ht' hP' => ?_⟩
  generalize runStep (s.services t.service) t.pc b = r at hrun ht'
  change t' ∈ stepped s.tasks n t r.pc at ht'
  cases hnext : r.pc with
  | none =>
    rw [hnext] at ht'
    exact h.task t' (List.mem_of_mem_eraseIdx ht') hP'
  | some pc =>
    rw [hnext] at ht'
    rcases List.mem_or_eq_of_mem_set ht' with hold | rfl
    · exact h.task t' hold hP'
    · have hpc := (hrun hP').2
      rw [hnext] at hpc
      exact fun hdone => hpc (congrArg some hdone)

theorem NeverOk.manager_step (h : NeverOk P s) {b : Bool}
    (hstep : managerStep hooks count s b = some s') : NeverOk P s' := by
  have hset : s.phase.serviceState ≠ .shutdownOk := by
    cases s.phase <;> exact ServiceState.noConfusion
  unfold managerStep at hstep
  split at hstep
  · next k _ =>
    split at hstep
    · cases hstep
      exact ⟨h.write k fun _ => hset, h.task⟩
    · cases hstep
      exact ⟨h.state, h.task⟩
  · repeat' split at hstep
    all_goals first
      | exact absurd hstep (Option.some_ne_none s').symm
      | (cases hstep; exact ⟨h.state, h.task⟩)
  · next k _ =>
    cases hstep
    exact ⟨h.write k (h.state k), h.task⟩
  · cases hstep
    refine ⟨h.state, fun t ht => ?_⟩
    rcases List.mem_append.mp ht with hold | hnew
    · exact h.task t hold
    · rw [List.mem_singleton.mp hnew]
      exact fun _ => RunPc.noConfusion
  · repeat' split at hstep
    all_goals first
      | exact absurd hstep (Option.some_ne_none s').symm
      | (cases hstep; exact ⟨h.state, h.task⟩)
  · repeat' split at hstep
    all_goals first
      | exact absurd hstep (Option.some_ne_none s').symm
      | (cases hstep; exact ⟨h.state, h.task⟩)
  · exact absurd hstep (Option.some_ne_none s').symm

/-- A service with the base class's `IsShutdownOK` never gets there, whatever the others' hooks
are. -/
theorem reachable_neverOk
    (hbase : ∀ i, P i → ∀ st b, hooks i .isShutdownOk st b = (b == answer .isShutdownOk st))
    (h : Reachable (step hooks count threads) init s) : NeverOk P s := by
  refine h.invariant ⟨fun _ _ => ServiceState.noConfusion, fun _ ht => absurd ht List.not_mem_nil⟩ ?_
  intro s a s' hs hstep
  cases a with
  | manager b => exact hs.manager_step hstep
  | task n b => exact hs.task_step hbase hstep
  | shutDown =>
    cases hstep
    exact ⟨hs.state, hs.task⟩

theorem BaseShutdown.neverOk (hbase : BaseShutdown hooks)
    (h : Reachable (step hooks count threads) init s) : NeverOk (fun _ => True) s :=
  reachable_neverOk (fun i _ st b => hbase.isShutdownOk i st b) h

/-- `RunLogic(SS_SHUTDOWN)` is not left, and has seen no service in `SS_SHUTDOWN_OK`. -/
def InLoop (phase : Phase) (pc : ManagerPc) : Prop :=
  phase = .shutdown → pc ≠ .wait ∧ pc ≠ .finished ∧ ∀ k, pc = .check k → k = 0

/-- With a service, `RunLogic(SS_SHUTDOWN)` does not leave its loop. -/
theorem NeverOk.inLoop_step (hnever : NeverOk (fun _ => True) s) (hcount : 0 < count)
    (h : InLoop s.phase s.pc) {b : Bool} (hstep : managerStep hooks count s b = some s') :
    InLoop s'.phase s'.pc := by
  have hinside : ∀ {pc : ManagerPc}, pc ≠ .wait → pc ≠ .finished → (∀ k, pc ≠ .check k) →
      InLoop s.phase pc := fun hwait hfinished hcheck _ =>
    ⟨hwait, hfinished, fun k hk => absurd hk (hcheck k)⟩
  unfold managerStep at hstep
  split at hstep
  · split at hstep <;> cases hstep <;>
      exact hinside ManagerPc.noConfusion ManagerPc.noConfusion fun _ => ManagerPc.noConfusion
  · repeat' split at hstep
    · cases hstep
      exact hinside ManagerPc.noConfusion ManagerPc.noConfusion fun _ => ManagerPc.noConfusion
    · cases hstep
      exact hinside ManagerPc.noConfusion ManagerPc.noConfusion fun _ => ManagerPc.noConfusion
    · exact absurd hstep (Option.some_ne_none s').symm
    · cases hstep
      exact hinside ManagerPc.noConfusion ManagerPc.noConfusion fun _ => ManagerPc.noConfusion
    · cases hstep
      exact fun _ => ⟨ManagerPc.noConfusion, ManagerPc.noConfusion,
        fun k hk => (ManagerPc.check.inj hk).symm⟩
  · cases hstep
    exact hinside ManagerPc.noConfusion ManagerPc.noConfusion fun _ => ManagerPc.noConfusion
  · cases hstep
    exact hinside ManagerPc.noConfusion ManagerPc.noConfusion fun _ => ManagerPc.noConfusion
  · next k hpc =>
    intro hphase
    have hsame : s.phase = .shutdown := by
      repeat' split at hstep
      all_goals (cases hstep; exact hphase)
    obtain rfl := (h hsame).2.2 k hpc
    rw [hsame] at hstep
    dsimp only [Phase.breakState] at hstep
    rw [if_pos hcount, if_neg (hnever.state 0 trivial)] at hstep
    cases hstep
    exact ⟨ManagerPc.noConfusion, ManagerPc.noConfusion, fun _ => ManagerPc.noConfusion⟩
  · next hpc =>
    split at hstep
    · split at hstep
      · cases hstep
        exact fun _ => ⟨ManagerPc.noConfusion, ManagerPc.noConfusion, fun _ => ManagerPc.noConfusion⟩
      · next hlast =>
        have hsame : s.phase = .shutdown := by
          cases hphase : s.phase <;> simp_all [Phase.next]
        exact absurd hpc (h hsame).1
    · exact absurd hstep (Option.some_ne_none s').symm
  · exact absurd hstep (Option.some_ne_none s').symm

theorem reachable_inLoop (hbase : BaseShutdown hooks) (hcount : 0 < count)
    (h : Reachable (step hooks count threads) init s) : InLoop s.phase s.pc := by
  refine h.invariant_of (I := fun s => InLoop s.phase s.pc) (fun _ => hbase.neverOk)
    (fun h => Phase.noConfusion h) ?_
  intro s a s' hnever _ hloop hstep
  cases a with
  | manager b => exact hnever.inLoop_step hcount hloop hstep
  | task n b =>
    obtain ⟨t, -, -, rfl⟩ := taskStep_cases hstep
    exact hloop
  | shutDown =>
    cases hstep
    exact hloop

/-- What is said of `RunLogic(SS_SHUTDOWN)`: a service that has completed two `Run`s is in
`SS_SHUTDOWN_OK`, and when all have, the break condition holds. -/
structure ShutdownCompletes (count : Nat) (s : System) : Prop where
  ok : ∀ i < count, 2 ≤ s.runs i → (s.services i).serviceState = .shutdownOk
  breaks : (∀ i < count, 2 ≤ s.runs i) → s.runLogicBreakCondition count .shutdown = true

theorem runLogicBreakCondition_shutdown :
    s.runLogicBreakCondition count .shutdown = true ↔
      ∀ i < count, (s.services i).serviceState = .shutdownOk := by
  simp [runLogicBreakCondition, Phase.breakState, isAllServiceStatusEqual]

/-- **Shutdown does not complete.** In every interleaving after `SetAllServiceStatus(SS_SHUTDOWN)`
the property holds exactly as long as no service has completed two `Run`s, and the manager has not
left its loop. -/
theorem shutdown_completes_iff (hbase : BaseShutdown hooks) (hcount : 0 < count)
    (h : Reachable (step hooks count threads) init s) (hphase : s.phase = .shutdown) :
    (ShutdownCompletes count s ↔ ∀ i < count, s.runs i < 2) ∧
      s.pc ≠ .wait ∧ s.pc ≠ .finished := by
  have hnever := hbase.neverOk h
  obtain ⟨hwait, hfinished, -⟩ := reachable_inLoop hbase hcount h hphase
  refine ⟨⟨fun hcompletes i hi => ?_, fun hfew => ⟨fun i hi htwo => ?_, fun hall => ?_⟩⟩, hwait,
    hfinished⟩
  · by_contra htwo
    exact hnever.state i trivial (hcompletes.ok i hi (Nat.not_lt.mp htwo))
  · exact absurd (hfew i hi) (Nat.not_lt.mpr htwo)
  · exact absurd (hfew 0 hcount) (Nat.not_lt.mpr (hall 0 hcount))

/-! ## Two Runs -/

/-- The `Run` after `startsUp` ends, the manager starts to shut down, and the service is run once
more. -/
def shutsDown : List Action := startsUp ++ works 6 true ++ manages 8 ++ works 7 true

theorem baseHooks_shutdown : BaseShutdown baseHooks := ⟨fun _ _ _ => rfl, fun _ _ _ => rfl⟩

theorem shutdown_completes_iff_run :
    (ShutdownCompletes 1 (after shutsDown) ↔ ∀ i < 1, (after shutsDown).runs i < 2) ∧
      (after shutsDown).pc ≠ .wait ∧ (after shutsDown).pc ≠ .finished :=
  shutdown_completes_iff baseHooks_shutdown Nat.one_pos (reachable_after (by decide +kernel))
    (by decide +kernel)

/-- After a second `Run` the service is still in `SS_SHUTDOWN_PROCESS`. -/
theorem two_runs_not_shut_down :
    ∃ s, Reachable (step baseHooks 1 1) init s ∧ s.phase = .shutdown ∧
      ¬ShutdownCompletes 1 s := by
  refine ⟨after (shutsDown ++ manages 5 ++ works 5 false), reachable_after (by decide +kernel),
    by decide +kernel, fun h => ?_⟩
  exact absurd (h.ok 0 Nat.one_pos (by decide +kernel)) (by decide +kernel)

end System

end MmDriver

import MmDriver.Laws.Service.Shutdown
import MmDriver.Test.HttpManagerPool

/-!
# What the manager of the pool knows of its services

The base class's `IsStartOK` is false in `SS_RUN` only, so the manager's is true of any pool that
is being started. The base class's `IsShutdownOK` is true in `SS_SHUTDOWN_OK`, and the manager's
loop returns `false` there; and since no service of the pool gets there by itself, the manager's is
always true. `aggregates_iff` says in which states that is right nevertheless.
-/

namespace MmDriver

open Service ActionSystem

namespace PoolSystem

variable {others : Hooks} {count threads : Nat} {p : HttpPool} {s s' : PoolSystem}

/-! ## The system underneath -/

/-- A step of a loop that goes on leaves the system; any other step is the system's. -/
theorem step_system {a : System.Action} (h : step others count threads p s a = some s') :
    s'.system = s.system ∨
      ∃ a', System.step (p.hooks others) count threads s.system a' = some s'.system := by
  have hmapped : ∀ {a' : System.Action} {f : System → PoolSystem}, (∀ t, (f t).system = t) →
      (System.step (p.hooks others) count threads s.system a').map f = some s' →
      ∃ a', System.step (p.hooks others) count threads s.system a' = some s'.system := by
    intro a' f hf hmap
    obtain ⟨t, ht, rfl⟩ := Option.map_eq_some_iff.mp hmap
    exact ⟨a', ht.trans (congrArg some (hf t).symm)⟩
  cases a with
  | manager b =>
    rw [step] at h
    exact .inr (hmapped (fun _ => rfl) h)
  | shutDown =>
    rw [step] at h
    exact .inr (hmapped (fun _ => rfl) h)
  | task n b =>
    rw [step] at h
    split at h
    · exact .inr (hmapped (fun _ => rfl) h)
    · split at h
      · exact .inr (hmapped (fun _ => rfl) h)
      · split at h
        · exact .inr (hmapped (fun _ => rfl) h)
        · cases h
          exact .inl rfl

/-- What the system reaches beside the loops it reaches without them. -/
theorem reachable_system (h : Reachable (step others count threads p) init s) :
    Reachable (System.step (p.hooks others) count threads) System.init s.system := by
  refine h.invariant (I := fun s =>
    Reachable (System.step (p.hooks others) count threads) System.init s.system) (Reachable.refl _ _)
    fun s a s' hreach hstep => ?_
  rcases step_system hstep with hsame | ⟨a', ha'⟩
  · rwa [hsame]
  · exact hreach.step ha'

/-! ## What the loops answer -/

theorem isStartOk_iff : HttpPool.isStartOk (p.states s.system) = true ↔
    ∀ k ∈ p.services, (s.system.services k).serviceState ≠ .run := by
  have hask : ∀ st, HttpPool.returnsFalse .isStartOk st = false ↔ st ≠ .run := by
    intro st
    cases st <;> decide
  simp only [HttpPool.isStartOk, HttpPool.states, List.all_map, List.all_eq_true,
    Function.comp_apply, Bool.not_eq_true', hask]

theorem isShutdownOk_iff : HttpPool.isShutdownOk (p.states s.system) = true ↔
    ∀ k ∈ p.services, (s.system.services k).serviceState ≠ .shutdownOk := by
  have hask : ∀ st, HttpPool.returnsFalse .isShutdownOk st = false ↔ st ≠ .shutdownOk := by
    intro st
    cases st <;> decide
  simp only [HttpPool.isShutdownOk, HttpPool.states, List.all_map, List.all_eq_true,
    Function.comp_apply, Bool.not_eq_true', hask]

/-- When some service is in `SS_RUN`, every service's `Init` has returned true. -/
theorem initialised_of_run {t : System} (hinv : System.Inv count t) {k : Nat} (hk : k < count)
    (hrun : (t.services k).serviceState = .run) : ∀ j < count, (j, .initReturned true) ∈ t.log := by
  have hstage : stageOf t.phase t.pc k = .running := by
    have hinside := hinv.inside k hk
    rw [hrun] at hinside
    revert hinside
    cases stageOf t.phase t.pc k with
    | running => exact fun _ => rfl
    | _ => exact fun h => absurd h Bool.false_ne_true
  intro j hj
  have hok := initOk_of_allowed (stageOf_started (.inl hstage) j) (hinv.inside j hj)
  simpa [System.factsOf] using hok

/-- The start of the pool: `IsStartOK` is true, and the manager is in `SS_START_OK`, only if every
service has completed an `Init` that returned true. -/
structure StartAggregates (p : HttpPool) (s : System) : Prop where
  isStartOk : HttpPool.isStartOk (p.states s) = true →
    ∀ k ∈ p.services, (k, .initReturned true) ∈ s.log
  reached : (s.services p.manager).serviceState = .startOk →
    ∀ k ∈ p.services, (k, .initReturned true) ∈ s.log

/-- Its shutdown: `IsShutdownOK` is true exactly when every service is in `SS_SHUTDOWN_OK`, and the
manager is there only if they are. -/
structure ShutdownAggregates (p : HttpPool) (s : System) : Prop where
  isShutdownOk : HttpPool.isShutdownOk (p.states s) = true ↔
    ∀ k ∈ p.services, (s.services k).serviceState = .shutdownOk
  reached : (s.services p.manager).serviceState = .shutdownOk →
    ∀ k ∈ p.services, (s.services k).serviceState = .shutdownOk

/-- **The manager aggregates its pool** only where there is nothing to know: the start in the
states in which every service has been initialised anyway, and the shutdown of an empty pool. -/
theorem aggregates_iff (hpool : ∀ k ∈ p.services, k < count ∧ k ≠ p.manager)
    (hbase : ∀ k ∈ p.services, ∀ st b, others k .isShutdownOk st b = (b == answer .isShutdownOk st))
    (h : Reachable (step others count threads p) init s) :
    (StartAggregates p s.system ↔ ∀ k ∈ p.services, (k, .initReturned true) ∈ s.system.log) ∧
      (ShutdownAggregates p s.system ↔ p.services = []) := by
  have hreach := reachable_system h
  have hinv := System.reachable_inv hreach
  have hnever : System.NeverOk (· ∈ p.services) s.system := by
    refine System.reachable_neverOk (fun k hk st b => ?_) hreach
    rw [HttpPool.hooks, ← hbase k hk st b]
    simp [(hpool k hk).2]
  constructor
  · refine ⟨fun hstart => ?_, fun hall => ⟨fun _ => hall, fun _ => hall⟩⟩
    by_cases hok : HttpPool.isStartOk (p.states s.system) = true
    · exact hstart.isStartOk hok
    · rw [isStartOk_iff] at hok
      simp only [not_forall, not_not] at hok
      obtain ⟨k, hk, hrun⟩ := hok
      exact fun j hj => initialised_of_run hinv (hpool k hk).1 hrun j (hpool j hj).1
  · constructor
    · intro hshutdown
      have hall := hshutdown.isShutdownOk.mp (isShutdownOk_iff.mpr hnever.state)
      exact List.eq_nil_iff_forall_not_mem.mpr fun k hk => hnever.state k hk (hall k hk)
    · intro hempty
      have hnone : ∀ k ∈ p.services, (s.system.services k).serviceState = .shutdownOk := by
        rw [hempty]
        exact fun k hk => absurd hk List.not_mem_nil
      exact ⟨iff_of_true (isShutdownOk_iff.mpr hnever.state) hnone, fun _ => hnone⟩

/-! ## A service that fails to start -/

/-- The manager is registered first, and one service after it. -/
def oneService : HttpPool := ⟨0, [1]⟩

/-- The hooks of the base class, but the `Init` of the service may fail. -/
def initMayFail : Hooks := fun k q st b => (k = 1 && q = .init) || baseHooks k q st b

/-- The state after a run on one thread. -/
def after (as : List System.Action) : PoolSystem :=
  (run (step initMayFail 2 1 oneService) init as).getD init

theorem reachable_after {as : List System.Action}
    (h : (run (step initMayFail 2 1 oneService) init as).isSome = true) :
    Reachable (step initMayFail 2 1 oneService) init (after as) := by
  obtain ⟨s, hs⟩ := Option.isSome_iff_exists.mp h
  rw [after, hs]
  exact (Reachable.refl _ _).run hs

/-- Both are started and run once, where the `Init` of the service returns `false`; then the
manager is run again. -/
def failsToStart : List System.Action :=
  System.manages 10 ++ System.works 7 true ++ System.works 8 false ++ System.manages 8 ++
    System.works 7 true

theorem aggregates_iff_run :
    (StartAggregates oneService (after failsToStart).system ↔
        ∀ k ∈ oneService.services, (k, .initReturned true) ∈ (after failsToStart).system.log) ∧
      (ShutdownAggregates oneService (after failsToStart).system ↔ oneService.services = []) :=
  aggregates_iff (by simp [oneService]) (by simp [oneService, initMayFail, baseHooks])
    (reachable_after (by decide +kernel))

/-- The manager is in `SS_START_OK` and its service in `SS_START_FAIL`; and were the manager to ask
now, `IsShutdownOK` would be true. -/
theorem started_over_failure :
    Reachable (step initMayFail 2 1 oneService) init (after failsToStart) ∧
      ((after failsToStart).system.services 0).serviceState = .startOk ∧
      ((after failsToStart).system.services 1).serviceState = .startFail ∧
      ¬StartAggregates oneService (after failsToStart).system ∧
      ¬ShutdownAggregates oneService (after failsToStart).system := by
  have hmanager : ((after failsToStart).system.services 0).serviceState = .startOk := by
    decide +kernel
  have hservice : ((after failsToStart).system.services 1).serviceState = .startFail := by
    decide +kernel
  refine ⟨reachable_after (by decide +kernel), hmanager, hservice, fun hstart => ?_,
    fun hshutdown => ?_⟩
  · have hinit := hstart.reached hmanager 1 (List.mem_singleton.mpr rfl)
    revert hinit
    decide +kernel
  · have hok := hshutdown.isShutdownOk.mp (by decide +kernel) 1 (List.mem_singleton.mpr rfl)
    rw [hservice] at hok
    exact ServiceState.noConfusion hok

end PoolSystem

end MmDriver

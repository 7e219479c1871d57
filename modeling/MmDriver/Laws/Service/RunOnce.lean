import MmDriver.Laws.Service.Lifecycle

/-!
# One run at a time

`m_enmRunState` is passed between the manager and the pool: only the manager takes a service out of
`RS_READY`, and only the last line of a `Run` puts it back. So a service in `RS_READY` has no `Run`
(`Inv.ready`), and a `Run` is scheduled only where none is. The table of `Lifecycle` then follows
each service through every interleaving, and with it the order in which the hooks are called
(`ordered_lifecycle`).
-/

namespace MmDriver

open Service ActionSystem

namespace System

/-! ## The tasks of the pool -/

/-- Where the `Run` of service `i` stands, if there is one. -/
def taskOf (tasks : List Task) (i : Nat) : Option RunPc :=
  (tasks.find? (·.service = i)).map (·.pc)

section Tasks

variable {tasks : List Task} {n i : Nat} {t : Task}

theorem taskOf_eq_none : taskOf tasks i = none ↔ i ∉ tasks.map Task.service := by
  rw [taskOf, Option.map_eq_none_iff, List.find?_eq_none]
  simp

theorem taskOf_append (tasks tasks' : List Task) (i : Nat) :
    taskOf (tasks ++ tasks') i = (taskOf tasks i).or (taskOf tasks' i) := by
  rw [taskOf, List.find?_append]
  cases hfind : tasks.find? (·.service = i) <;> simp [taskOf, hfind]

theorem taskOf_cons (t : Task) (tasks : List Task) (i : Nat) :
    taskOf (t :: tasks) i = if t.service = i then some t.pc else taskOf tasks i := by
  rw [taskOf, List.find?_cons]
  split <;> simp_all [taskOf]

/-- The task at a position splits the list, and no other task is of its service. -/
theorem split_task (hnodup : (tasks.map Task.service).Nodup) (h : tasks[n]? = some t) :
    ∃ pre post, tasks = pre ++ t :: post ∧ pre.length = n ∧
      t.service ∉ pre.map Task.service ∧ t.service ∉ post.map Task.service := by
  obtain ⟨hlt, hget⟩ := List.getElem?_eq_some_iff.mp h
  refine ⟨tasks.take n, tasks.drop (n + 1), ?_, List.length_take_of_le (Nat.le_of_lt hlt), ?_⟩
  · rw [← hget, List.getElem_cons_drop, List.take_append_drop]
  · have hsplit : tasks = tasks.take n ++ t :: tasks.drop (n + 1) := by
      rw [← hget, List.getElem_cons_drop, List.take_append_drop]
    rw [hsplit, List.map_append, List.map_cons, List.nodup_append, List.nodup_cons] at hnodup
    exact ⟨fun hmem => hnodup.2.2 _ hmem _ List.mem_cons_self rfl, hnodup.2.1.1⟩

theorem stepped_split {pre post : List Task} (hlen : pre.length = n) (pc : Option RunPc) :
    stepped (pre ++ t :: post) n t pc =
      pre ++ (pc.toList.map fun pc => { t with pc := pc }) ++ post := by
  subst hlen
  cases pc <;> simp [stepped, List.eraseIdx_append_of_length_le]

/-- Only the task's own service is affected. -/
theorem taskOf_stepped (hnodup : (tasks.map Task.service).Nodup) (h : tasks[n]? = some t)
    (pc : Option RunPc) (i : Nat) :
    taskOf (stepped tasks n t pc) i = if i = t.service then pc else taskOf tasks i := by
  obtain ⟨pre, post, rfl, hlen, hpre, hpost⟩ := split_task hnodup h
  rw [stepped_split hlen, taskOf_append, taskOf_append, taskOf_append, taskOf_cons]
  split
  · next hi =>
    subst hi
    rw [taskOf_eq_none.mpr hpre, taskOf_eq_none.mpr hpost]
    cases pc <;> simp [taskOf]
  · next hi =>
    rw [if_neg (Ne.symm hi)]
    have hnone : taskOf (pc.toList.map fun pc => { t with pc := pc }) i = none := by
      rw [taskOf_eq_none]
      cases pc <;> simp [hi]
    rw [hnone, Option.or_none]

theorem taskOf_at (hnodup : (tasks.map Task.service).Nodup) (h : tasks[n]? = some t) :
    taskOf tasks t.service = some t.pc := by
  obtain ⟨pre, post, rfl, -, hpre, -⟩ := split_task hnodup h
  rw [taskOf_append, taskOf_eq_none.mpr hpre, taskOf_cons, if_pos rfl, Option.none_or]

theorem stepped_nodup (hnodup : (tasks.map Task.service).Nodup) (h : tasks[n]? = some t)
    (pc : Option RunPc) : ((stepped tasks n t pc).map Task.service).Nodup := by
  cases pc with
  | none => exact (List.Sublist.map _ (List.eraseIdx_sublist tasks n)).nodup hnodup
  | some pc =>
    have hsame : (stepped tasks n t (some pc)).map Task.service = tasks.map Task.service := by
      obtain ⟨pre, post, rfl, hlen, -, -⟩ := split_task hnodup h
      rw [stepped_split hlen]
      simp
    rwa [hsame]

end Tasks

/-! ## The invariant -/

/-- What has happened at service `i`. -/
def factsOf (log : List (Nat × Event)) (i : Nat) : Facts where
  init := log.contains (i, .init)
  initOk := log.contains (i, .initReturned true)
  shutdown := log.contains (i, .shutdown)

/-- An event is a fact about its own service. -/
theorem factsOf_append (log : List (Nat × Event)) (e : Option Event) (k i : Nat) :
    factsOf (log ++ e.toList.map (k, ·)) i =
      if i = k then e.elim (factsOf log i) (factsOf log i).after else factsOf log i := by
  cases e with
  | none => simp
  | some e =>
    by_cases hi : i = k
    · subst hi
      cases e <;> simp [factsOf, Facts.after]
    · simp [factsOf, hi]

/-- What holds between any two steps. -/
structure Inv (count : Nat) (s : System) : Prop where
  once : (s.tasks.map Task.service).Nodup
  bound : ∀ i, count ≤ i → taskOf s.tasks i = none
  ready : ∀ i, (s.services i).runState = .ready → taskOf s.tasks i = none
  asked : ∀ k, s.pc = .asked k → k < count ∧ (s.services k).runState = .ready
  marked : ∀ k, s.pc = .marked k → k < count ∧ taskOf s.tasks k = none ∧
    (s.services k).runState ≠ .ready
  inside : ∀ i < count, allowed (factsOf s.log i) (stageOf s.phase s.pc i)
    (s.services i).serviceState (taskOf s.tasks i) = true

theorem init_inv (count : Nat) : Inv count init := by
  refine ⟨List.nodup_nil, fun _ _ => rfl, fun _ _ => rfl, ?_, ?_, fun _ _ => rfl⟩
  · exact fun k h => ManagerPc.noConfusion h
  · exact fun k h => ManagerPc.noConfusion h

/-! ## Steps of a task -/

variable {hooks : Hooks} {count threads : Nat} {s s' : System} {b : Bool}

/-- What a step of a task is. -/
theorem taskStep_cases {n : Nat} (h : taskStep hooks threads s n b = some s') :
    ∃ t, s.tasks[n]? = some t ∧
      (∀ q, t.pc.query = some q → hooks t.service q (s.services t.service).serviceState b = true) ∧
      s' = s.afterTask n t (runStep (s.services t.service) t.pc b) := by
  unfold taskStep at h
  split at h
  · exact absurd h (Option.some_ne_none s').symm
  · next t ht =>
    refine ⟨t, ht, ?_⟩
    dsimp only at h
    split at h
    · exact absurd h (Option.some_ne_none s').symm
    · split at h
      · next hquery =>
        refine ⟨fun q hq => ?_, (Option.some.inj h).symm⟩
        rwa [hq] at hquery
      · exact absurd h (Option.some_ne_none s').symm

/-- A step of `Run` leaves the service out of `RS_READY`, except the last. -/
theorem runStep_ready {v : Service} {pc : RunPc} {b : Bool} (hv : v.runState ≠ .ready)
    (h : (runStep v pc b).service.runState = .ready) : (runStep v pc b).pc = none := by
  cases pc <;> simp_all [runStep, setRunningState, setServiceState]

theorem Inv.task_step (hinv : Inv count s) {n : Nat}
    (h : taskStep hooks threads s n b = some s') : Inv count s' := by
  obtain ⟨t, ht, -, rfl⟩ := taskStep_cases h
  have hat := taskOf_at hinv.once ht
  have hbusy : (s.services t.service).runState ≠ .ready := fun hready =>
    Option.some_ne_none _ (hat.symm.trans (hinv.ready _ hready))
  have hother : ∀ i, i ≠ t.service → (s.afterTask n t (runStep (s.services t.service) t.pc b)
      ).services i = s.services i := fun i hi => s.setService_other hi _
  have hself : (s.afterTask n t (runStep (s.services t.service) t.pc b)).services t.service =
      (runStep (s.services t.service) t.pc b).service := s.setService_self _ _
  have htasks := taskOf_stepped hinv.once ht (runStep (s.services t.service) t.pc b).pc
  refine ⟨stepped_nodup hinv.once ht _, ?_, ?_, ?_, ?_, ?_⟩
  · intro i hi
    rw [show (s.afterTask n t _).tasks = stepped s.tasks n t _ from rfl, htasks, if_neg]
    · exact hinv.bound i hi
    · rintro rfl
      exact Option.some_ne_none _ (hat.symm.trans (hinv.bound _ hi))
  · intro i hready
    rw [show (s.afterTask n t _).tasks = stepped s.tasks n t _ from rfl, htasks]
    by_cases hi : i = t.service
    · rw [if_pos hi]
      rw [hi, hself] at hready
      exact runStep_ready hbusy hready
    · rw [if_neg hi]
      rw [hother i hi] at hready
      exact hinv.ready i hready
  · intro k hpc
    obtain ⟨hk, hready⟩ := hinv.asked k hpc
    have hne : k ≠ t.service := by
      rintro rfl
      exact hbusy hready
    exact ⟨hk, by rwa [hother k hne]⟩
  · intro k hpc
    obtain ⟨hk, hnone, hmarked⟩ := hinv.marked k hpc
    have hne : k ≠ t.service := by
      rintro rfl
      exact Option.some_ne_none _ (hat.symm.trans hnone)
    refine ⟨hk, ?_, by rwa [hother k hne]⟩
    rw [show (s.afterTask n t _).tasks = stepped s.tasks n t _ from rfl, htasks, if_neg hne]
    exact hnone
  · intro i hi
    have hinside := hinv.inside i hi
    rw [show (s.afterTask n t _).tasks = stepped s.tasks n t _ from rfl, htasks,
      show (s.afterTask n t _).log = s.log ++ _ from rfl, factsOf_append]
    by_cases hsame : i = t.service
    · subst hsame
      rw [if_pos rfl, if_pos rfl, hself]
      rw [hat] at hinside
      exact allowed_runStep b hinside
    · rw [if_neg hsame, if_neg hsame, hother i hsame]
      exact hinside

/-! ## Steps of the manager -/

/-- The manager moves on, and touches no service. -/
theorem Inv.move (hinv : Inv count s) (phase : Phase) (pc : ManagerPc) (runs : Nat → Nat)
    (hasked : ∀ k, pc = .asked k → k < count ∧ (s.services k).runState = .ready)
    (hmarked : ∀ k, pc ≠ .marked k)
    (hstage : ∀ i < count, ∀ f st p, st = (s.services i).serviceState →
      allowed f (stageOf s.phase s.pc i) st p = true → allowed f (stageOf phase pc i) st p = true) :
    Inv count { s with phase := phase, pc := pc, runs := runs } :=
  ⟨hinv.once, hinv.bound, hinv.ready, hasked, fun k hpc => absurd hpc (hmarked k),
    fun i hi => hstage i hi _ _ _ rfl (hinv.inside i hi)⟩

/-- The manager writes a member of service `k`, which leaves `m_enmRunState` as it is or takes it
out of `RS_READY`. -/
theorem Inv.write (hinv : Inv count s) (k : Nat) (v : Service) (pc : ManagerPc)
    (hready : v.runState = .ready → (s.services k).runState = .ready)
    (hasked : ∀ j, pc ≠ .asked j)
    (hmarked : ∀ j, pc = .marked j → j = k ∧ k < count ∧ taskOf s.tasks k = none ∧
      v.runState ≠ .ready)
    (hself : ∀ f p, allowed f (stageOf s.phase s.pc k) (s.services k).serviceState p = true →
      allowed f (stageOf s.phase pc k) v.serviceState p = true)
    (hother : ∀ i, i ≠ k → stageOf s.phase pc i = stageOf s.phase s.pc i) :
    Inv count { s.setService k v with pc := pc } := by
  have hsame : ∀ i, i ≠ k → (s.setService k v).services i = s.services i := fun i hi =>
    s.setService_other hi v
  have hnew : (s.setService k v).services k = v := s.setService_self k v
  refine ⟨hinv.once, hinv.bound, fun i hi => hinv.ready i ?_,
    fun j hpc => absurd hpc (hasked j), ?_, ?_⟩
  · dsimp only at hi
    by_cases hik : i = k
    · subst hik
      rw [hnew] at hi
      exact hready hi
    · rwa [hsame i hik] at hi
  · intro j hpc
    obtain ⟨rfl, hk, hnone, hv⟩ := hmarked j hpc
    refine ⟨hk, hnone, ?_⟩
    dsimp only
    rwa [hnew]
  · intro i hi
    have hinside := hinv.inside i hi
    dsimp only
    by_cases hik : i = k
    · subst hik
      rw [hnew]
      exact hself _ _ hinside
    · rw [hsame i hik]
      exact (hother i hik).symm ▸ hinside

/-- The manager schedules a `Run`. -/
theorem Inv.schedule (hinv : Inv count s) {k : Nat} (hpc : s.pc = .marked k) :
    Inv count { s with pc := .tick (k + 1), tasks := s.tasks ++ [⟨k, .queued⟩] } := by
  obtain ⟨hk, hnone, hmarked⟩ := hinv.marked k hpc
  have hqueued : ∀ i, taskOf (s.tasks ++ [⟨k, .queued⟩]) i =
      if i = k then some .queued else taskOf s.tasks i := by
    intro i
    rw [taskOf_append, taskOf_cons]
    by_cases hi : i = k
    · subst hi
      rw [hnone, if_pos rfl, if_pos rfl, Option.none_or]
    · rw [if_neg (Ne.symm hi), if_neg hi]
      exact Option.or_none
  refine ⟨?_, fun i hi => ?_, fun i hi => ?_, fun j h => ManagerPc.noConfusion h,
    fun j h => ManagerPc.noConfusion h, fun i hi => ?_⟩
  · rw [List.map_append, List.nodup_append]
    refine ⟨hinv.once, List.nodup_cons.mpr ⟨List.not_mem_nil, List.nodup_nil⟩, ?_⟩
    rintro i hi j hj rfl
    rw [List.map_singleton, List.mem_singleton] at hj
    rw [hj] at hi
    exact taskOf_eq_none.mp hnone hi
  · dsimp only
    rw [hqueued, if_neg (Nat.ne_of_gt (Nat.lt_of_lt_of_le hk hi))]
    exact hinv.bound i hi
  · dsimp only at hi ⊢
    rw [hqueued, if_neg]
    · exact hinv.ready i hi
    · rintro rfl
      exact hmarked hi
  · have hinside := hinv.inside i hi
    have hstage : stageOf s.phase (.tick (k + 1)) i = stageOf s.phase s.pc i := by
      rw [hpc]
      cases s.phase <;> rfl
    dsimp only
    rw [hqueued, hstage]
    split
    · next hik =>
      subst hik
      rw [hnone] at hinside
      refine allowed_queued ?_ hinside
      rw [hpc]
      cases s.phase <;> exact Stage.noConfusion
    · exact hinside

/-- Where the manager only moves on, most stages stay. -/
theorem Inv.move_same (hinv : Inv count s) (pc : ManagerPc)
    (hasked : ∀ k, pc = .asked k → k < count ∧ (s.services k).runState = .ready)
    (hmarked : ∀ k, pc ≠ .marked k)
    (hstage : ∀ i < count, stageOf s.phase pc i = stageOf s.phase s.pc i) :
    Inv count { s with pc := pc } :=
  hinv.move s.phase pc s.runs hasked hmarked fun i hi _ _ _ _ h => (hstage i hi).symm ▸ h

theorem Inv.setAll_step (hinv : Inv count s) {k : Nat} (hpc : s.pc = .setAll k) :
    Inv count { s.setService k ((s.services k).setServiceState s.phase.serviceState) with
      pc := .setAll (k + 1) } := by
  refine hinv.write k _ _ (fun h => h) (fun j h => ManagerPc.noConfusion h)
    (fun j h => ManagerPc.noConfusion h) ?_ ?_
  · intro f p h
    rw [hpc] at h
    exact allowed_setServiceState s.phase h
  · intro i hi
    rw [hpc]
    have hlt : i < k + 1 ↔ i < k := by omega
    cases s.phase <;> simp only [stageOf, hlt]

theorem Inv.asked_step (hinv : Inv count s) {k : Nat} (hpc : s.pc = .asked k) :
    Inv count { s.setService k ((s.services k).setRunningState .schedule) with
      pc := .marked k } := by
  obtain ⟨hk, hready⟩ := hinv.asked k hpc
  have hstage : ∀ i, stageOf s.phase (.marked k) i = stageOf s.phase s.pc i := by
    intro i
    rw [hpc]
    cases s.phase <;> rfl
  refine hinv.write k _ _ (fun h => RunningState.noConfusion h) (fun j h => ManagerPc.noConfusion h)
    ?_ (fun f p h => (hstage k).symm ▸ h) (fun i _ => hstage i)
  intro j hj
  exact ⟨(ManagerPc.marked.inj hj).symm, hk, hinv.ready k hready, RunningState.noConfusion⟩

/-- `RunLogicBreakCondition` has read the state of service `k`. -/
theorem Inv.check_step (hinv : Inv count s) {k : Nat} (hpc : s.pc = .check k) {st : ServiceState}
    (hbreak : s.phase.breakState = some st) (hst : (s.services k).serviceState = st) :
    Inv count { s with pc := .check (k + 1) } := by
  refine hinv.move s.phase _ s.runs (fun j h => ManagerPc.noConfusion h)
    (fun j h => ManagerPc.noConfusion h) ?_
  rintro i - f st' p rfl h
  rw [hpc] at h
  cases hphase : s.phase with
  | start =>
    rw [hphase] at h hbreak
    by_cases hi : i = k
    · -- `SS_START_OK` has been seen
      subst hi
      have hok : (s.services i).serviceState = .startOk := hst.trans (Option.some.inj hbreak).symm
      rw [hok] at h ⊢
      simp only [stageOf, Nat.lt_irrefl, if_false, Nat.lt_succ_self, if_true] at h ⊢
      exact h
    · have hlt : i < k + 1 ↔ i < k := by omega
      simp only [stageOf, hlt] at h ⊢
      exact h
  | run => rwa [hphase] at h
  | shutdown => rwa [hphase] at h

/-- The manager starts the next round. -/
theorem Inv.again_step (hinv : Inv count s) {k : Nat} (hpc : s.pc = .check k) :
    Inv count { s with pc := .tick 0 } := by
  refine hinv.move s.phase _ s.runs (fun j h => ManagerPc.noConfusion h)
    (fun j h => ManagerPc.noConfusion h) ?_
  rintro i - f st p - h
  rw [hpc] at h
  cases hphase : s.phase with
  | start =>
    rw [hphase] at h
    simp only [stageOf] at h ⊢
    split at h
    · obtain rfl := state_of_started h
      exact h
    · exact h
  | run => rwa [hphase] at h
  | shutdown => rwa [hphase] at h

theorem Inv.manager_step (hinv : Inv count s) (h : managerStep hooks count s b = some s') :
    Inv count s' := by
  unfold managerStep at h
  split at h
  · next k hpc =>
    split at h
    · obtain rfl := Option.some.inj h
      exact hinv.setAll_step hpc
    · next hk =>
      obtain rfl := Option.some.inj h
      refine hinv.move s.phase _ _ (fun j h => ManagerPc.noConfusion h)
        (fun j h => ManagerPc.noConfusion h) ?_
      rintro i hi f st p - hallowed
      rw [hpc] at hallowed
      have hlt : i < k := by omega
      cases hphase : s.phase <;> simp only [hphase, stageOf, if_pos hlt] at hallowed ⊢ <;>
        exact hallowed
  · next k hpc =>
    have hstage : ∀ i, stageOf s.phase (.asked k) i = stageOf s.phase s.pc i ∧
        stageOf s.phase (.tick (k + 1)) i = stageOf s.phase s.pc i ∧
        stageOf s.phase (.check 0) i = stageOf s.phase s.pc i := by
      intro i
      rw [hpc]
      cases s.phase <;> simp [stageOf]
    split at h
    · next hk =>
      split at h
      · next hready =>
        split at h
        · obtain rfl := Option.some.inj h
          cases b with
          | true =>
            refine hinv.move_same _ ?_ (fun j h => ManagerPc.noConfusion h)
              fun i _ => (hstage i).1
            rintro j hj
            obtain rfl := ManagerPc.asked.inj hj
            exact ⟨hk, hready⟩
          | false =>
            exact hinv.move_same _ (fun j h => ManagerPc.noConfusion h)
              (fun j h => ManagerPc.noConfusion h) fun i _ => (hstage i).2.1
        · exact absurd h (Option.some_ne_none s').symm
      · obtain rfl := Option.some.inj h
        exact hinv.move_same _ (fun j h => ManagerPc.noConfusion h)
          (fun j h => ManagerPc.noConfusion h) fun i _ => (hstage i).2.1
    · obtain rfl := Option.some.inj h
      exact hinv.move_same _ (fun j h => ManagerPc.noConfusion h)
        (fun j h => ManagerPc.noConfusion h) fun i _ => (hstage i).2.2
  · next k hpc =>
    obtain rfl := Option.some.inj h
    exact hinv.asked_step hpc
  · next k hpc =>
    obtain rfl := Option.some.inj h
    exact hinv.schedule hpc
  · next k hpc =>
    split at h
    · next st hbreak =>
      split at h
      · split at h
        · next hst =>
          obtain rfl := Option.some.inj h
          exact hinv.check_step hpc hbreak hst
        · obtain rfl := Option.some.inj h
          exact hinv.again_step hpc
      · next hk =>
        obtain rfl := Option.some.inj h
        refine hinv.move s.phase _ _ (fun j h => ManagerPc.noConfusion h)
          (fun j h => ManagerPc.noConfusion h) ?_
        rintro i hi f st' p - hallowed
        rw [hpc] at hallowed
        have hlt : i < k := by omega
        cases hphase : s.phase <;> simp only [hphase, stageOf, if_pos hlt] at hallowed ⊢ <;>
          exact hallowed
    · next hbreak =>
      have hrun : s.phase = .run := by
        cases hphase : s.phase <;> simp_all [Phase.breakState]
      cases hbShutdown : s.bShutdown with
      | true =>
        rw [hbShutdown, if_pos rfl] at h
        obtain rfl := Option.some.inj h
        refine hbShutdown ▸ hinv.move_same .wait (fun j h => ManagerPc.noConfusion h)
          (fun j h => ManagerPc.noConfusion h) fun i _ => ?_
        rw [hpc, hrun]
        rfl
      | false =>
        rw [hbShutdown, if_neg Bool.false_ne_true] at h
        obtain rfl := Option.some.inj h
        exact hbShutdown ▸ hinv.again_step hpc
  · next hpc =>
    split at h
    · split at h
      · next phase hnext =>
        obtain rfl := Option.some.inj h
        refine hinv.move phase _ _ (fun j h => ManagerPc.noConfusion h)
          (fun j h => ManagerPc.noConfusion h) ?_
        rintro i - f st p - hallowed
        rw [hpc] at hallowed
        cases hphase : s.phase with
        | start =>
          rw [hphase] at hallowed hnext
          obtain rfl := Option.some.inj hnext
          exact hallowed
        | run =>
          rw [hphase] at hallowed hnext
          obtain rfl := Option.some.inj hnext
          exact hallowed
        | shutdown =>
          rw [hphase] at hnext
          exact absurd hnext (Option.some_ne_none phase).symm
      · next hnext =>
        obtain rfl := Option.some.inj h
        refine hinv.move_same _ (fun j h => ManagerPc.noConfusion h)
          (fun j h => ManagerPc.noConfusion h) fun i _ => ?_
        have hlast : s.phase = .shutdown := by
          cases hphase : s.phase <;> simp_all [Phase.next]
        rw [hpc, hlast]
        rfl
    · exact absurd h (Option.some_ne_none s').symm
  · exact absurd h (Option.some_ne_none s').symm

/-! ## The order of the hooks -/

theorem Inv.step (hinv : Inv count s) {a : Action} (h : step hooks count threads s a = some s') :
    Inv count s' := by
  cases a with
  | manager b => exact hinv.manager_step h
  | task n b => exact hinv.task_step h
  | shutDown =>
    obtain rfl := Option.some.inj h
    exact ⟨hinv.once, hinv.bound, hinv.ready, hinv.asked, hinv.marked, hinv.inside⟩

theorem reachable_inv (h : Reachable (step hooks count threads) init s) : Inv count s :=
  h.invariant (init_inv count) fun _ _ _ hinv hstep => hinv.step hstep

/-- The events are in order: each `Init` is called at most once, a `Tick` is only called when every
service's `Init` has returned true, and behind a `Shutdown` there is no `Init` or `Tick` of its
service. -/
structure Ordered (count : Nat) (log : List (Nat × Event)) : Prop where
  initOnce : ∀ i, log.count (i, .init) ≤ 1
  tickAfterInit : ∀ pre i post, log = pre ++ (i, .tick) :: post →
    ∀ j < count, (j, .initReturned true) ∈ pre
  quietAfterShutdown : ∀ pre i post, log = pre ++ (i, .shutdown) :: post →
    (i, .init) ∉ post ∧ (i, .tick) ∉ post

theorem ordered_nil (count : Nat) : Ordered count [] := by
  refine ⟨fun i => Nat.zero_le 1, ?_, ?_⟩
  · intro pre i post h
    exact absurd h.symm (List.append_ne_nil_of_right_ne_nil pre (List.cons_ne_nil _ post))
  · intro pre i post h
    exact absurd h.symm (List.append_ne_nil_of_right_ne_nil pre (List.cons_ne_nil _ post))

/-- What an event needs. -/
def Follows (count : Nat) (log : List (Nat × Event)) (k : Nat) : Event → Prop
  | .init => (factsOf log k).init = false ∧ (factsOf log k).shutdown = false
  | .tick => (factsOf log k).shutdown = false ∧ ∀ j < count, (factsOf log j).initOk = true
  | _ => True

/-- A split of a list with a last element splits there or before. -/
theorem split_concat {α : Type} {l pre post : List α} {x y : α} (h : l ++ [x] = pre ++ y :: post) :
    (pre = l ∧ y = x ∧ post = []) ∨ ∃ post', post = post' ++ [x] ∧ l = pre ++ y :: post' := by
  rcases List.eq_nil_or_concat post with rfl | ⟨post', z, rfl⟩
  · obtain ⟨hpre, hxy⟩ := List.append_inj' h rfl
    exact .inl ⟨hpre.symm, (List.cons.inj hxy).1.symm, rfl⟩
  · rw [List.concat_eq_append, ← List.cons_append, ← List.append_assoc] at h
    obtain ⟨hl, hxz⟩ := List.append_inj' h rfl
    refine .inr ⟨post', ?_, hl⟩
    rw [List.concat_eq_append, (List.cons.inj hxz).1]

theorem Ordered.append {log : List (Nat × Event)} (h : Ordered count log) {k : Nat} {e : Event}
    (he : Follows count log k e) : Ordered count (log ++ [(k, e)]) := by
  refine ⟨fun i => ?_, ?_, ?_⟩
  · rw [List.count_append, List.count_singleton]
    split
    · next heq =>
      obtain ⟨rfl, rfl⟩ := Prod.mk.inj (beq_iff_eq.mp heq)
      have hnew : (k, Event.init) ∉ log := by simpa [factsOf] using he.1
      have hzero := List.count_eq_zero_of_not_mem hnew
      omega
    · exact h.initOnce i
  · intro pre i post hsplit j hj
    rcases split_concat hsplit with ⟨rfl, heq, -⟩ | ⟨post', -, hlog⟩
    · obtain ⟨rfl, rfl⟩ := Prod.mk.inj heq
      simpa [factsOf] using he.2 j hj
    · exact h.tickAfterInit pre i post' hlog j hj
  · intro pre i post hsplit
    rcases split_concat hsplit with ⟨-, -, rfl⟩ | ⟨post', rfl, hlog⟩
    · exact ⟨List.not_mem_nil, List.not_mem_nil⟩
    · obtain ⟨hinit, htick⟩ := h.quietAfterShutdown pre i post' hlog
      have hshutdown : (factsOf log i).shutdown = true := by simp [factsOf, hlog]
      constructor
      · intro hmem
        rcases List.mem_append.mp hmem with hold | hnew
        · exact hinit hold
        · obtain ⟨rfl, rfl⟩ := Prod.mk.inj (List.mem_singleton.mp hnew)
          exact Bool.false_ne_true (he.2.symm.trans hshutdown)
      · intro hmem
        rcases List.mem_append.mp hmem with hold | hnew
        · exact htick hold
        · obtain ⟨rfl, rfl⟩ := Prod.mk.inj (List.mem_singleton.mp hnew)
          exact Bool.false_ne_true (he.1.symm.trans hshutdown)

/-- The events of `Run`. -/
theorem runStep_event {v : Service} {pc : RunPc} {e : Event} (h : (runStep v pc b).event = some e) :
    (e = .init → pc = .initCall) ∧ (e = .tick → pc = .tickCall) := by
  cases pc <;> simp_all [runStep] <;> subst h <;> simp

/-- A hook is called where its event may follow. -/
theorem Inv.follows (hinv : Inv count s) {n : Nat} {t : Task} (ht : s.tasks[n]? = some t)
    {v : Service} {e : Event} (he : (runStep v t.pc b).event = some e) :
    Follows count s.log t.service e := by
  have hat := taskOf_at hinv.once ht
  have hlt : t.service < count := by
    by_contra hle
    exact Option.some_ne_none _ (hat.symm.trans (hinv.bound _ (Nat.not_lt.mp hle)))
  have hinside := hinv.inside _ hlt
  obtain ⟨hinit, htick⟩ := runStep_event he
  cases e with
  | init =>
    rw [hat, hinit rfl] at hinside
    exact facts_of_initCall hinside
  | tick =>
    rw [hat, htick rfl] at hinside
    obtain ⟨hshutdown, hstage⟩ := facts_of_tickCall hinside
    refine ⟨hshutdown, fun j hj => ?_⟩
    exact initOk_of_allowed (stageOf_started hstage j) (hinv.inside j hj)
  | initReturned ok => trivial
  | shutdown => trivial

/-- The manager calls no hook that is an event. -/
theorem managerStep_log (h : managerStep hooks count s b = some s') : s'.log = s.log := by
  unfold managerStep at h
  repeat' split at h
  all_goals first
    | exact absurd h (Option.some_ne_none s').symm
    | (cases h; rfl)

theorem Ordered.step {a : Action} (hinv : Inv count s) (h : Ordered count s.log)
    (hstep : System.step hooks count threads s a = some s') : Ordered count s'.log := by
  cases a with
  | manager b =>
    rw [managerStep_log hstep]
    exact h
  | task n b =>
    obtain ⟨t, ht, -, rfl⟩ := taskStep_cases hstep
    rw [show (s.afterTask n t _).log = s.log ++ _ from rfl]
    cases he : (runStep (s.services t.service) t.pc b).event with
    | none =>
      rw [Option.toList_none, List.map_nil, List.append_nil]
      exact h
    | some e => exact h.append (hinv.follows ht he)
  | shutDown =>
    obtain rfl := Option.some.inj hstep
    exact h

/-- **One run at a time, and the hooks in order.** In every interleaving of the manager, the pool
and calls of `ShutDown`, whatever the hooks answer: no service has two `Run`s that are queued or
executing, and the hooks were called in order. -/
theorem ordered_lifecycle (hooks : Hooks) (count threads : Nat) {s : System}
    (h : Reachable (step hooks count threads) init s) :
    (s.tasks.map Task.service).Nodup ∧ Ordered count s.log :=
  ⟨(reachable_inv h).once,
    h.invariant_of (I := fun s => Ordered count s.log) (fun _ => reachable_inv)
      (ordered_nil count) fun _ _ _ hinv _ hordered hstep => hordered.step hinv hstep⟩

/-! ## A run -/

/-- `n` steps of the manager, where the answers are yes. -/
def manages (n : Nat) : List Action := List.replicate n (.manager true)

/-- `n` steps of the first task of the pool. -/
def works (n : Nat) (b : Bool) : List Action := List.replicate n (.task 0 b)

/-- One service is started in two `Run`s, set to run, and scheduled again; meanwhile `ShutDown` was
called. -/
def startsUp : List Action :=
  manages 5 ++ works 7 true ++ manages 5 ++ works 6 true ++ manages 6 ++ [.shutDown] ++ manages 3

/-- The state after a run of one service with the hooks of the base class, on one thread. -/
def after (as : List Action) : System := (run (step baseHooks 1 1) init as).getD init

theorem reachable_after {as : List Action}
    (h : (run (step baseHooks 1 1) init as).isSome = true) :
    Reachable (step baseHooks 1 1) init (after as) := by
  obtain ⟨s, hs⟩ := Option.isSome_iff_exists.mp h
  rw [after, hs]
  exact (Reachable.refl _ _).run hs

theorem ordered_lifecycle_run :
    ((after (startsUp ++ works 5 true)).tasks.map Task.service).Nodup ∧
      Ordered 1 (after (startsUp ++ works 5 true)).log :=
  ordered_lifecycle baseHooks 1 1 (reachable_after (by decide +kernel))

example : (after (startsUp ++ works 5 true)).log =
    [(0, .init), (0, .initReturned true), (0, .tick)] := by decide +kernel

end System

end MmDriver

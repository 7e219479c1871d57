import MmDriver.Common.Pool
import MmDriver.Lib.ActionSystem

/-!
# Memory is one object's at a time

The cached pointers and those that are handed out are apart from each other and without
repetition, in every state. The counters count them, as far as a `tint32` does.
-/

namespace MmDriver

open Throwing

namespace PoolUse

variable {objSize : Nat} {w w' : PoolUse}

/-- The cached pointers and those handed out are all different, and are counted. -/
structure Accounted (w : PoolUse) : Prop where
  distinct : (w.pool.memCache ++ w.inUse).Nodup
  used : w.pool.poolUsed = TInt32.ofNat w.inUse.length
  size : w.pool.poolSize = TInt32.ofNat (w.inUse.length + w.pool.memCache.length)

/-- Memory of another size is not given, and nothing changes. -/
theorem exec_alloc_rejected {size : Nat} (h : SizeT.ofInt (Pool.poolObjSize objSize) ≠ size)
    (operatorNew : Option Nat) (s : Pool) :
    exec (Pool.alloc objSize size operatorNew) s = (.error (.int 1), s) := by
  simp only [Pool.alloc, beq_false_of_ne h, exec_bind, exec_assertEx, Bool.false_eq_true, if_false]

/-- With something cached, the last of it is given. -/
theorem exec_alloc_cached (rest : List Nat) (p : Nat) (operatorNew : Option Nat) (s : Pool)
    (hcache : s.memCache = rest ++ [p]) :
    exec (Pool.alloc objSize (SizeT.ofInt (Pool.poolObjSize objSize)) operatorNew) s =
      (.ok p, { s with
        memCache := rest
        allocCount := TInt32.ofInt (s.allocCount + 1)
        poolUsed := TInt32.ofInt (s.poolUsed + 1) }) := by
  simp only [Pool.alloc, beq_self_eq_true, exec_bind, exec_assertEx, if_true, exec_modify, exec_get,
    hcache, List.getLast?_concat, List.dropLast_concat, exec_pure]

/-- With nothing cached, `operator new` is asked. -/
theorem exec_alloc_new (operatorNew : Option Nat) (s : Pool) (hcache : s.memCache = []) :
    exec (Pool.alloc objSize (SizeT.ofInt (Pool.poolObjSize objSize)) operatorNew) s =
      match operatorNew with
      | none => (.error (.stdException "std::bad_alloc"),
          { s with allocCount := TInt32.ofInt (s.allocCount + 1) })
      | some p => (.ok p, { s with
          allocCount := TInt32.ofInt (s.allocCount + 1)
          poolSize := TInt32.ofInt (s.poolSize + 1)
          poolUsed := TInt32.ofInt (s.poolUsed + 1) }) := by
  cases operatorNew with
  | none =>
    simp only [Pool.alloc, beq_self_eq_true, exec_bind, exec_assertEx, if_true, exec_modify, exec_get,
      hcache, List.getLast?_nil, exec_throw]
  | some p =>
    simp only [Pool.alloc, beq_self_eq_true, exec_bind, exec_assertEx, if_true, exec_modify, exec_get,
      hcache, List.getLast?_nil, exec_pure]

theorem accounted_start : Accounted start :=
  ⟨List.nodup_nil, (TInt32.ofNat_eq (by decide)).symm, (TInt32.ofNat_eq (by decide)).symm⟩

/-- What an allocation hands out is nobody's, and stays accounted for. -/
theorem Accounted.alloc (h : Accounted w) {size : Nat} {operatorNew : Option Nat}
    (hfresh : w.Fresh operatorNew) :
    (∀ p, (exec (Pool.alloc objSize size operatorNew) w.pool).1 = .ok p → p ∉ w.inUse) ∧
      Accounted ⟨(exec (Pool.alloc objSize size operatorNew) w.pool).2,
        handOut (exec (Pool.alloc objSize size operatorNew) w.pool).1 w.inUse⟩ := by
  by_cases hsize : SizeT.ofInt (Pool.poolObjSize objSize) = size
  · subst hsize
    rcases List.eq_nil_or_concat w.pool.memCache with hnone | ⟨rest, p, hcache⟩
    · rw [exec_alloc_new operatorNew w.pool hnone]
      cases operatorNew with
      | none =>
        exact ⟨fun p hp => (by cases hp), h.distinct, h.used, h.size⟩
      | some p =>
        have hp := hfresh p rfl
        refine ⟨fun q hq => by cases hq; exact hp.2, ?_, ?_, ?_⟩
        · have hdistinct := h.distinct
          rw [hnone] at hdistinct ⊢
          exact List.nodup_cons.mpr ⟨hp.2, hdistinct⟩
        · exact (congrArg (fun n => TInt32.ofInt (n + 1)) h.used).trans
            (TInt32.ofInt_ofNat_add_one _)
        · refine (congrArg (fun n => TInt32.ofInt (n + 1)) h.size).trans
            ((TInt32.ofInt_ofNat_add_one _).trans ?_)
          rw [handOut, List.length_cons, Nat.add_right_comm]
    · rw [List.concat_eq_append] at hcache
      rw [exec_alloc_cached rest p operatorNew w.pool hcache]
      have hdistinct := h.distinct
      rw [hcache, List.append_assoc, List.singleton_append] at hdistinct
      have hmiddle := List.perm_middle.nodup_iff.mp hdistinct
      have hp : p ∉ w.inUse := fun hmem =>
        (List.nodup_cons.mp hmiddle).1 (List.mem_append_right rest hmem)
      refine ⟨fun q hq => by cases hq; exact hp, hdistinct, ?_, ?_⟩
      · exact (congrArg (fun n => TInt32.ofInt (n + 1)) h.used).trans
          (TInt32.ofInt_ofNat_add_one _)
      · refine h.size.trans (congrArg TInt32.ofNat ?_)
        rw [hcache, List.length_append, List.length_singleton, handOut, List.length_cons,
          Nat.add_right_comm, Nat.add_assoc]
  · rw [exec_alloc_rejected hsize]
    exact ⟨fun p hp => (by cases hp), h⟩

/-- A pointer that is given back is cached. -/
theorem Accounted.free (h : Accounted w) {p : Nat} (hp : p ∈ w.inUse) :
    Accounted ⟨w.pool.free p, w.inUse.erase p⟩ := by
  obtain ⟨n, hn⟩ : ∃ n, w.inUse.length = n + 1 :=
    Nat.exists_eq_succ_of_ne_zero (Nat.ne_of_gt (List.length_pos_of_mem hp))
  have herase : (w.inUse.erase p).length = n := by
    rw [List.length_erase_of_mem hp, hn, Nat.add_sub_cancel]
  refine ⟨?_, ?_, ?_⟩
  · have hperm : (w.pool.memCache ++ [p] ++ w.inUse.erase p).Perm
        (w.pool.memCache ++ w.inUse) := by
      rw [List.append_assoc, List.singleton_append]
      exact (List.perm_cons_erase hp).symm.append_left _
    exact hperm.nodup_iff.mpr h.distinct
  · rw [herase]
    refine (congrArg (fun m => TInt32.ofInt (m - 1)) h.used).trans ?_
    rw [hn]
    exact TInt32.ofInt_ofNat_sub_one n
  · refine h.size.trans (congrArg TInt32.ofNat ?_)
    simp only [Pool.free, List.length_append, List.length_singleton, herase, hn]
    rw [Nat.add_assoc, Nat.add_comm 1]

theorem Accounted.act (h : Accounted w) {a : Action} (hact : act objSize w a = some w') :
    Accounted w' := by
  cases a with
  | alloc size operatorNew =>
    rw [PoolUse.act] at hact
    split at hact
    · next hfresh =>
      rw [← Option.some.inj hact]
      exact (h.alloc hfresh).2
    · cases hact
  | free p =>
    rw [PoolUse.act] at hact
    split at hact
    · next hp =>
      rw [← Option.some.inj hact]
      exact h.free hp
    · cases hact

theorem accounted_of_reachable (h : ActionSystem.Reachable (act objSize) start w) : Accounted w :=
  h.invariant accounted_start fun _ _ _ hw hact => hw.act hact

/-! ## Allocations with nothing given back -/

/-- The state after that many allocations of eight bytes. -/
def allocated (n : Nat) : PoolUse :=
  ⟨⟨[], TInt32.ofNat n, TInt32.ofNat n, TInt32.ofNat n⟩, (List.range n).reverse⟩

theorem act_allocated (n : Nat) :
    act 8 (allocated n) (.alloc 8 (some n)) = some (allocated (n + 1)) := by
  have hfresh : (allocated n).Fresh (some n) := by
    intro p hp
    cases hp
    exact ⟨List.not_mem_nil, fun h => absurd (List.mem_range.mp (List.mem_reverse.mp h))
      (Nat.lt_irrefl _)⟩
  have hsize : SizeT.ofInt (Pool.poolObjSize 8) = 8 := by
    rw [Pool.poolObjSize, TInt32.ofNat_eq (by decide), SizeT.ofInt_natCast (by decide)]
  have hexec := @exec_alloc_new 8 (some n) (allocated n).pool rfl
  rw [hsize] at hexec
  rw [act, if_pos hfresh, hexec]
  simp only [allocated, handOut, TInt32.ofInt_ofNat_add_one, List.range_succ, List.reverse_append,
    List.reverse_singleton, List.singleton_append]

theorem reachable_allocated (n : Nat) : ActionSystem.Reachable (act 8) start (allocated n) := by
  induction n with
  | zero =>
    have hstart : allocated 0 = start := by
      rw [allocated, TInt32.ofNat_eq (by decide)]
      rfl
    rw [hstart]
    exact ActionSystem.Reachable.refl _ _
  | succ n ih => exact ih.step (act_allocated n)

theorem used_allocated (n : Nat) : (allocated n).pool.poolUsed = TInt32.ofNat n ∧
    (allocated n).inUse.length = n := by
  refine ⟨rfl, ?_⟩
  rw [allocated, List.length_reverse, List.length_range]

/-! ## Every state -/

/-- **Exclusive memory.** In every state the cached pointers and those handed out are all different
and are counted, at `tint32`; an allocation hands out a pointer that is not in use, and one of
another size changes nothing. -/
theorem exclusive_and_counted (h : ActionSystem.Reachable (act objSize) start w) :
    Accounted w ∧
      (∀ size operatorNew p, w.Fresh operatorNew →
        (exec (Pool.alloc objSize size operatorNew) w.pool).1 = .ok p → p ∉ w.inUse) ∧
      ∀ size operatorNew, SizeT.ofInt (Pool.poolObjSize objSize) ≠ size →
        exec (Pool.alloc objSize size operatorNew) w.pool = (.error (.int 1), w.pool) := by
  have hw := accounted_of_reachable h
  refine ⟨hw, ?_, ?_⟩
  · intro size operatorNew p hfresh
    exact (hw.alloc hfresh).1 p
  · intro size operatorNew hsize
    exact exec_alloc_rejected hsize operatorNew w.pool

/-- Two objects. -/
theorem exclusive_and_counted_two :
    Accounted ⟨⟨[], 2, 2, 2⟩, [1, 0]⟩ ∧
      (∀ size operatorNew p, Fresh ⟨⟨[], 2, 2, 2⟩, [1, 0]⟩ operatorNew →
        (exec (Pool.alloc 8 size operatorNew) ⟨[], 2, 2, 2⟩).1 = .ok p → p ∉ [1, 0]) ∧
      ∀ size operatorNew, SizeT.ofInt (Pool.poolObjSize 8) ≠ size →
        exec (Pool.alloc 8 size operatorNew) ⟨[], 2, 2, 2⟩ = (.error (.int 1), ⟨[], 2, 2, 2⟩) := by
  have htwo : allocated 2 = ⟨⟨[], 2, 2, 2⟩, [1, 0]⟩ := by
    rw [allocated, TInt32.ofNat_eq (by decide)]
    rfl
  exact @exclusive_and_counted 8 _ (htwo ▸ reachable_allocated 2)

/-- With `2 ^ 31` objects in use, there is a negative number of them. -/
theorem used_overflows :
    ActionSystem.Reachable (act 8) start (allocated (2 ^ 31)) ∧
      (allocated (2 ^ 31)).pool.poolUsed ≠ ((allocated (2 ^ 31)).inUse.length : Int) := by
  obtain ⟨hused, hlength⟩ := used_allocated (2 ^ 31)
  refine ⟨reachable_allocated (2 ^ 31), ?_⟩
  rw [hused, hlength, TInt32.ofNat]
  decide

end PoolUse

end MmDriver

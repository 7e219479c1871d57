import Mathlib.Data.List.Basic

/-!
# Machines that answer calls

A call machine takes a call in a state and answers with a reply and a next state. `exec` is
its run over a finite list of calls, with the replies in order.

A simulation relates the states of two machines so that related states answer corresponding
calls with corresponding replies. `Simulates.exec` packages the induction: a property of one
step becomes a property of every run.
-/

namespace CallMachine

variable {σ τ κ κ' ο ο' : Type}

/-- Answer a list of calls in order. -/
def exec (step : σ → κ → σ × ο) (s : σ) : List κ → σ × List ο
  | [] => (s, [])
  | k :: ks =>
    let r := step s k
    let t := exec step r.1 ks
    (t.1, r.2 :: t.2)

variable {step : σ → κ → σ × ο}

@[simp] theorem exec_nil (step : σ → κ → σ × ο) (s : σ) : exec step s [] = (s, []) := rfl

@[simp] theorem exec_cons_state (step : σ → κ → σ × ο) (s : σ) (k : κ) (ks : List κ) :
    (exec step s (k :: ks)).1 = (exec step (step s k).1 ks).1 := rfl

@[simp] theorem exec_cons_replies (step : σ → κ → σ × ο) (s : σ) (k : κ) (ks : List κ) :
    (exec step s (k :: ks)).2 = (step s k).2 :: (exec step (step s k).1 ks).2 := rfl

/-- An invariant of one step, over the calls a caller may make, is an invariant of a run. -/
theorem exec_invariant {I : σ → Prop} {ok : κ → Prop}
    (keeps : ∀ s k, ok k → I s → I (step s k).1) {s : σ} (hs : I s) {ks : List κ}
    (hks : ∀ k ∈ ks, ok k) : I (exec step s ks).1 := by
  induction ks generalizing s with
  | nil => exact hs
  | cons k ks ih =>
    exact ih (keeps s k (hks k List.mem_cons_self) hs)
      fun k' h => hks k' (List.mem_cons_of_mem _ h)

/-- Every call of the run, taken with the state it meets, satisfies `P`. -/
def Along (step : σ → κ → σ × ο) (P : σ → κ → Prop) (s : σ) : List κ → Prop
  | [] => True
  | k :: ks => P s k ∧ Along step P (step s k).1 ks

/-- A property of calls may be replaced along a run by one that is equivalent under an invariant,
if the calls with the new property keep the invariant. -/
theorem Along.congr_invariant (I : σ → Prop) (ok : κ → Prop) {P P' : σ → κ → Prop}
    (keeps : ∀ s k, ok k → I s → P' s k → I (step s k).1)
    (same : ∀ s k, ok k → I s → (P s k ↔ P' s k)) {s : σ} (hs : I s) {ks : List κ}
    (hks : ∀ k ∈ ks, ok k) : Along step P s ks ↔ Along step P' s ks := by
  induction ks generalizing s with
  | nil => exact Iff.rfl
  | cons k ks ih =>
    have hk := hks k List.mem_cons_self
    have hrest : P' s k → (Along step P (step s k).1 ks ↔ Along step P' (step s k).1 ks) :=
      fun hP => ih (keeps s k hk hs hP) fun k' h => hks k' (List.mem_cons_of_mem _ h)
    rw [Along, Along, same s k hk hs, and_congr_right_iff]
    exact hrest

/-- What holds of every call made under an invariant holds along a run. -/
theorem Along.of_invariant (I : σ → Prop) {P : σ → κ → Prop} (keeps : ∀ s k, I s → I (step s k).1)
    (holds : ∀ s k, I s → P s k) {s : σ} (hs : I s) (ks : List κ) : Along step P s ks := by
  induction ks generalizing s with
  | nil => exact trivial
  | cons k ks ih => exact ⟨holds s k hs, ih (keeps s k hs)⟩

/-- A property holds in every state of a run exactly when every call meets the condition under
which one step keeps it. A second property that every call keeps may be used. -/
theorem invariant_iff_along (J I : σ → Prop) (ok : κ → Prop) {P : σ → κ → Prop}
    (keeps : ∀ s k, ok k → J s → J (step s k).1)
    (one : ∀ s k, ok k → J s → I s → (I (step s k).1 ↔ P s k)) {s : σ} (hJ : J s) (hI : I s)
    {ks : List κ} (hks : ∀ k ∈ ks, ok k) :
    (∀ pre, pre <+: ks → I (exec step s pre).1) ↔ Along step P s ks := by
  induction ks generalizing s with
  | nil =>
    refine iff_of_true (fun pre hpre => ?_) trivial
    rw [List.prefix_nil.mp hpre]
    exact hI
  | cons k ks ih =>
    have hk := hks k List.mem_cons_self
    have hrest := fun hI' : I (step s k).1 =>
      ih (keeps s k hk hJ) hI' fun k' h => hks k' (List.mem_cons_of_mem _ h)
    rw [Along, ← one s k hk hJ hI]
    constructor
    · intro h
      have hfirst : I (step s k).1 := h [k] (List.prefix_append [k] ks)
      exact ⟨hfirst, (hrest hfirst).mp fun pre hpre =>
        h (k :: pre) ((List.prefix_cons_inj k).mpr hpre)⟩
    · rintro ⟨hfirst, hrun⟩ pre hpre
      cases pre with
      | nil => exact hI
      | cons k' pre =>
        obtain ⟨rfl, hpre'⟩ := List.cons_prefix_cons.mp hpre
        exact (hrest hfirst).mpr hrun pre hpre'

/-- A forward simulation: related states answer a call `k` and its counterpart `onCall k` with
related replies, and stay related. -/
def Simulates (step : σ → κ → σ × ο) (step' : τ → κ' → τ × ο') (onCall : κ → κ')
    (ok : κ → Prop) (R : σ → τ → Prop) (sees : ο → ο' → Prop) : Prop :=
  ∀ s t k, ok k → R s t →
    R (step s k).1 (step' t (onCall k)).1 ∧ sees (step s k).2 (step' t (onCall k)).2

/-- A simulation of steps is a simulation of runs. -/
theorem Simulates.exec {step' : τ → κ' → τ × ο'} {onCall : κ → κ'} {ok : κ → Prop}
    {R : σ → τ → Prop} {sees : ο → ο' → Prop}
    (h : Simulates step step' onCall ok R sees) {s : σ} {t : τ} (hR : R s t) {ks : List κ}
    (hks : ∀ k ∈ ks, ok k) :
    R (CallMachine.exec step s ks).1 (CallMachine.exec step' t (ks.map onCall)).1 ∧
      List.Forall₂ sees (CallMachine.exec step s ks).2
        (CallMachine.exec step' t (ks.map onCall)).2 := by
  induction ks generalizing s t with
  | nil => exact ⟨hR, .nil⟩
  | cons k ks ih =>
    obtain ⟨hnext, hreply⟩ := h s t k (hks k List.mem_cons_self) hR
    obtain ⟨hlast, hreplies⟩ := ih hnext fun k' h' => hks k' (List.mem_cons_of_mem _ h')
    exact ⟨hlast, .cons hreply hreplies⟩

end CallMachine

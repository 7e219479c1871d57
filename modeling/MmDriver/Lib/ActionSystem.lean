import Mathlib.Logic.Relation

/-!
# Systems of actions

A system takes an action in a state, or is not able to. Its runs are lists of actions, each one
taken in the state the last one left, and a state is reachable when some run ends in it.

`Reachable.invariant` packages the induction: what holds at the start and is kept by every action
holds in every reachable state. A second invariant may use the first at both ends of a step
(`Reachable.invariant_of`).

A property may also be kept by some actions only: it holds in every state of a run (`States`) exactly
when every action of the run is one of these where it is taken (`Steps`).
-/

namespace ActionSystem

variable {σ α : Type} {act : σ → α → Option σ} {init s s' : σ}

/-- Some action leads from the first state to the second. -/
def Next (act : σ → α → Option σ) (s s' : σ) : Prop := ∃ a, act s a = some s'

/-- Some run from the first state ends in the second. -/
def Reachable (act : σ → α → Option σ) (init s : σ) : Prop :=
  Relation.ReflTransGen (Next act) init s

/-- The state after a run, if every action of it can be taken. -/
def run (act : σ → α → Option σ) (s : σ) : List α → Option σ
  | [] => some s
  | a :: as => (act s a).bind fun s' => run act s' as

theorem run_append (s : σ) (as bs : List α) :
    run act s (as ++ bs) = (run act s as).bind fun s' => run act s' bs := by
  induction as generalizing s with
  | nil => rfl
  | cons a as ih => cases h : act s a <;> simp [run, h, ih]

theorem Reachable.refl (act : σ → α → Option σ) (init : σ) : Reachable act init init :=
  Relation.ReflTransGen.refl

theorem Reachable.step (h : Reachable act init s) {a : α} (ha : act s a = some s') :
    Reachable act init s' :=
  Relation.ReflTransGen.tail h ⟨a, ha⟩

/-- A run from a reachable state. -/
theorem Reachable.run (h : Reachable act init s) {as : List α} (hrun : run act s as = some s') :
    Reachable act init s' := by
  induction as generalizing s with
  | nil =>
    cases hrun
    exact h
  | cons a as ih =>
    obtain ⟨t, ht, hrest⟩ := Option.bind_eq_some_iff.mp hrun
    exact ih (h.step ht) hrest

/-- What holds at the start and is kept by every action holds in every reachable state. -/
theorem Reachable.invariant {I : σ → Prop} (h : Reachable act init s) (hinit : I init)
    (keeps : ∀ s a s', I s → act s a = some s' → I s') : I s := by
  induction h with
  | refl => exact hinit
  | tail _ hnext ih =>
    obtain ⟨a, ha⟩ := hnext
    exact keeps _ a _ ih ha

/-- The same, where an invariant that is already there may be used. -/
theorem Reachable.invariant_of {J I : σ → Prop} (h : Reachable act init s)
    (hJ : ∀ s, Reachable act init s → J s) (hinit : I init)
    (keeps : ∀ s a s', J s → J s' → I s → act s a = some s' → I s') : I s := by
  induction h with
  | refl => exact hinit
  | tail hreach hnext ih =>
    obtain ⟨a, ha⟩ := hnext
    exact keeps _ a _ (hJ _ hreach) (hJ _ (Reachable.step hreach ha)) ih ha

/-- Every state of a run satisfies `P`. -/
def States (act : σ → α → Option σ) (P : σ → Prop) (s : σ) : List α → Prop
  | [] => P s
  | a :: as => P s ∧ ∀ s', act s a = some s' → States act P s' as

/-- Every action of a run, with the state it is taken in, satisfies `C`. -/
def Steps (act : σ → α → Option σ) (C : σ → α → Prop) (s : σ) : List α → Prop
  | [] => True
  | a :: as => C s a ∧ ∀ s', act s a = some s' → Steps act C s' as

theorem States.last {P : σ → Prop} {as : List α} (h : States act P s as)
    (hrun : run act s as = some s') : P s' := by
  induction as generalizing s with
  | nil =>
    cases hrun
    exact h
  | cons a as ih =>
    obtain ⟨t, ht, hrest⟩ := Option.bind_eq_some_iff.mp hrun
    exact ih (h.2 t ht) hrest

/-- What an action finds where it leads to something is found where the run ends there. -/
theorem run_back {Q : σ → Prop} (hback : ∀ s a s', act s a = some s' → Q s' → Q s) {as : List α}
    (hrun : run act s as = some s') (h : Q s') : Q s := by
  induction as generalizing s with
  | nil =>
    cases hrun
    exact h
  | cons a as ih =>
    obtain ⟨t, ht, hrest⟩ := Option.bind_eq_some_iff.mp hrun
    exact hback s a t ht (ih hrest)

/-- A property that an action keeps exactly when it is one of `C`, over a whole run. The invariant `J`
may need that the run ends in `Q`. -/
theorem states_iff_steps {J P Q : σ → Prop} {C : σ → α → Prop}
    (hback : ∀ s a s', act s a = some s' → Q s' → Q s)
    (keeps : ∀ s a s', J s → Q s' → act s a = some s' → J s' ∧ (P s → (P s' ↔ C s a))) {as : List α}
    (hrun : run act s as = some s') (hQ : Q s') (hJ : J s) (hP : P s) :
    States act P s as ↔ Steps act C s as := by
  induction as generalizing s with
  | nil => exact iff_of_true hP trivial
  | cons a as ih =>
    obtain ⟨t, ht, hrest⟩ := Option.bind_eq_some_iff.mp hrun
    obtain ⟨hJt, hiff⟩ := keeps s a t hJ (run_back hback hrest hQ) ht
    have hnext : ∀ {R : σ → Prop}, (∀ u, act s a = some u → R u) ↔ R t := by
      intro R
      refine ⟨fun h => h t ht, fun h u hu => ?_⟩
      obtain rfl := Option.some.inj (ht.symm.trans hu)
      exact h
    rw [States, Steps, hnext, hnext]
    constructor
    · rintro ⟨-, hstates⟩
      have hPt : P t := by
        cases as with
        | nil => exact hstates
        | cons b bs => exact hstates.1
      exact ⟨(hiff hP).mp hPt, (ih hrest hJt hPt).mp hstates⟩
    · rintro ⟨hC, hsteps⟩
      exact ⟨hP, (ih hrest hJt ((hiff hP).mpr hC)).mpr hsteps⟩

end ActionSystem

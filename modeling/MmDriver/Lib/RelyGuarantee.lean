import Mathlib.Logic.Relation
import Mathlib.Tactic.Choose

/-!
# Two programs on one shared state

A program is a tree of actions: an action reads and changes the shared state in one indivisible
step, and its response selects the rest. Two programs interleave action by action, in any
order, so a run is a path of `Step`.

The proof method is rely and guarantee. A party states what the other one's actions may do to
the state (`rely`), what its own actions do (`guar`), and under which condition on the state
its actions are taken (`cond`). `Safe` is an outline of the program: before each action there
is an assertion the other party cannot break, and under it the action keeps the guarantee.
When each guarantee implies the other's rely, outlines survive every step (`step_outlined`),
and a property that both guarantees preserve holds in every state of every run (`run_inv`).
-/

namespace RelyGuarantee

variable {A : Type} {Resp : A → Type} {σ α β : Type}

/-- A program: a result, or an action and a program for each response. -/
inductive Prog (Resp : A → Type) (α : Type) : Type where
  | ret (a : α)
  | act (a : A) (k : Resp a → Prog Resp α)

namespace Prog

/-- Sequencing. -/
def bind : Prog Resp α → (α → Prog Resp β) → Prog Resp β
  | .ret a, f => f a
  | .act a k, f => .act a fun r => (k r).bind f

instance : Monad (Prog Resp) where
  pure := .ret
  bind := Prog.bind

/-- The program of one action. -/
def step (a : A) : Prog Resp (Resp a) := .act a .ret

end Prog

/-- One party's part of the contract. -/
structure Party (σ A : Type) where
  rely : σ → σ → Prop
  guar : σ → A → σ → Prop
  cond : σ → A → Prop

variable (sem : (a : A) → σ → σ × Resp a)

/-- From a state that satisfies `P`, and while the other party keeps to `rely`, the program's
actions taken under `cond` keep `guar`, and its result satisfies `Q`. -/
def Safe (T : Party σ A) (Q : α → σ → Prop) : Prog Resp α → (σ → Prop) → Prop
  | .ret a, P => ∀ s, P s → Q a s
  | .act a k, P => ∃ (P' : σ → Prop) (M : Resp a → σ → Prop),
      (∀ s, P s → P' s) ∧ (∀ s s', T.rely s s' → P' s → P' s') ∧
      (∀ s, P' s → T.cond s a → T.guar s a (sem a s).1 ∧ M (sem a s).2 (sem a s).1) ∧
      ∀ r, Safe T Q (k r) (M r)

variable {sem} {T : Party σ A} {P P' : σ → Prop} {Q Q' : α → σ → Prop}

/-! ## The rules -/

theorem Safe.ret {a : α} (h : ∀ s, P s → Q a s) : Safe sem T Q (pure a) P := h

/-- A stronger precondition. -/
theorem Safe.pre {p : Prog Resp α} (h : Safe sem T Q p P') (hpre : ∀ s, P s → P' s) :
    Safe sem T Q p P := by
  cases p with
  | ret a => exact fun s hs => h s (hpre s hs)
  | act a k =>
    obtain ⟨R, M, hR, hstable, hact, hrest⟩ := h
    exact ⟨R, M, fun s hs => hR s (hpre s hs), hstable, hact, hrest⟩

/-- A weaker postcondition. -/
theorem Safe.post {p : Prog Resp α} (h : Safe sem T Q p P) (hpost : ∀ a s, Q a s → Q' a s) :
    Safe sem T Q' p P := by
  induction p generalizing P with
  | ret a => exact fun s hs => hpost a s (h s hs)
  | act a k ih =>
    obtain ⟨R, M, hR, hstable, hact, hrest⟩ := h
    exact ⟨R, M, hR, hstable, hact, fun r => ih r (hrest r)⟩

/-- Sequencing: what the first program leaves is what the second starts from. -/
theorem Safe.bind {p : Prog Resp α} {f : α → Prog Resp β} {Q' : β → σ → Prop}
    (hp : Safe sem T Q p P) (hf : ∀ a, Safe sem T Q' (f a) (Q a)) :
    Safe sem T Q' (p >>= f) P := by
  induction p generalizing P with
  | ret a => exact (hf a).pre hp
  | act a k ih =>
    obtain ⟨R, M, hR, hstable, hact, hrest⟩ := hp
    exact ⟨R, M, hR, hstable, hact, fun r => ih r (hrest r)⟩

/-- One action under an assertion that is stable. -/
theorem Safe.step {a : A} {M : Resp a → σ → Prop} (hstable : ∀ s s', T.rely s s' → P s → P s')
    (hact : ∀ s, P s → T.cond s a → T.guar s a (sem a s).1 ∧ M (sem a s).2 (sem a s).1) :
    Safe sem T M (Prog.step a) P :=
  ⟨P, M, fun _ hs => hs, hstable, hact, fun _ _ hs => hs⟩

/-- A family of preconditions: what the assertion leaves open may be fixed for the rest of the
program. -/
theorem Safe.exists {ι : Sort*} {P : ι → σ → Prop} {p : Prog Resp α}
    (h : ∀ i, Safe sem T Q p (P i)) : Safe sem T Q p fun s => ∃ i, P i s := by
  induction p generalizing ι P with
  | ret a =>
    rintro s ⟨i, hs⟩
    exact h i s hs
  | act a k ih =>
    choose R M hR hstable hact hrest using h
    refine ⟨fun s => ∃ i, R i s, fun r s => ∃ i, M i r s, ?_, ?_, ?_, fun r => ih r fun i => hrest i r⟩
    · rintro s ⟨i, hs⟩
      exact ⟨i, hR i s hs⟩
    · rintro s s' hrely ⟨i, hs⟩
      exact ⟨i, hstable i s s' hrely hs⟩
    · rintro s ⟨i, hs⟩ hcond
      obtain ⟨hguar, hM⟩ := hact i s hs hcond
      exact ⟨hguar, i, hM⟩

/-- A fact about the program's own values may be used as one. -/
theorem Safe.fact {φ : Prop} {p : Prog Resp α} (h : φ → Safe sem T Q p P) :
    Safe sem T Q p fun s => φ ∧ P s :=
  (Safe.exists h).pre fun _ hs => ⟨hs.1, hs.2⟩

/-- A step of the other party leaves an outline of the rest. -/
theorem Safe.other {p : Prog Resp α} {s s' : σ} (h : Safe sem T (fun _ _ => True) p P)
    (hs : P s) (hrely : T.rely s s') : ∃ P', P' s' ∧ Safe sem T (fun _ _ => True) p P' := by
  cases p with
  | ret a => exact ⟨fun _ => True, trivial, fun _ _ => trivial⟩
  | act a k =>
    obtain ⟨R, M, hR, hstable, hact, hrest⟩ := h
    exact ⟨R, hstable s s' hrely (hR s hs), R, M, fun _ h => h, hstable, hact, hrest⟩

/-! ## Two programs -/

/-- Two programs and their shared state. -/
structure Pair (Resp : A → Type) (σ : Type) where
  shared : σ
  left : Prog Resp Unit
  right : Prog Resp Unit

/-- One action of one of the two, taken under its party's condition. -/
inductive Step (sem : (a : A) → σ → σ × Resp a) (condL condR : σ → A → Prop) :
    Pair Resp σ → Pair Resp σ → Prop where
  | left {s a k r} (h : condL s a) :
    Step sem condL condR ⟨s, .act a k, r⟩ ⟨(sem a s).1, k (sem a s).2, r⟩
  | right {s l a k} (h : condR s a) :
    Step sem condL condR ⟨s, l, .act a k⟩ ⟨(sem a s).1, l, k (sem a s).2⟩

/-- Both programs have an outline at the current state. -/
def Outlined (sem : (a : A) → σ → σ × Resp a) (L R : Party σ A) (c : Pair Resp σ) : Prop :=
  (∃ P, P c.shared ∧ Safe sem L (fun _ _ => True) c.left P) ∧
    ∃ P, P c.shared ∧ Safe sem R (fun _ _ => True) c.right P

variable {L R : Party σ A} {c c' : Pair Resp σ}

/-- The next action of an outlined program keeps its guarantee. -/
theorem Outlined.left_guar (h : Outlined sem L R c) {a : A} {k : Resp a → Prog Resp Unit}
    (hact : c.left = .act a k) (hcond : L.cond c.shared a) :
    L.guar c.shared a (sem a c.shared).1 := by
  obtain ⟨⟨P, hP, hsafe⟩, -⟩ := h
  rw [hact] at hsafe
  obtain ⟨P', M, hpre, -, hstep, -⟩ := hsafe
  exact (hstep _ (hpre _ hP) hcond).1

/-- The step law: outlines survive every step, and the step keeps a guarantee. -/
theorem step_outlined (hLR : ∀ s a s', L.guar s a s' → R.rely s s')
    (hRL : ∀ s a s', R.guar s a s' → L.rely s s') (h : Outlined sem L R c)
    (hstep : Step sem L.cond R.cond c c') :
    Outlined sem L R c' ∧
      ((∃ a, L.guar c.shared a c'.shared) ∨ ∃ a, R.guar c.shared a c'.shared) := by
  obtain ⟨⟨PL, hPL, hsafeL⟩, ⟨PR, hPR, hsafeR⟩⟩ := h
  cases hstep with
  | @left s a k r hcond =>
    obtain ⟨P', M, hpre, -, hact, hrest⟩ := hsafeL
    obtain ⟨hguar, hM⟩ := hact s (hpre s hPL) hcond
    exact ⟨⟨⟨_, hM, hrest _⟩, hsafeR.other hPR (hLR _ _ _ hguar)⟩, .inl ⟨a, hguar⟩⟩
  | @right s l a k hcond =>
    obtain ⟨P', M, hpre, -, hact, hrest⟩ := hsafeR
    obtain ⟨hguar, hM⟩ := hact s (hpre s hPR) hcond
    exact ⟨⟨hsafeL.other hPL (hRL _ _ _ hguar), ⟨_, hM, hrest _⟩⟩, .inr ⟨a, hguar⟩⟩

/-- The run law: a property both guarantees preserve holds in every state of every run. -/
theorem run_inv {J : σ → Prop} (hLR : ∀ s a s', L.guar s a s' → R.rely s s')
    (hRL : ∀ s a s', R.guar s a s' → L.rely s s') (hL : ∀ s a s', L.guar s a s' → J s → J s')
    (hR : ∀ s a s', R.guar s a s' → J s → J s') (h : Outlined sem L R c) (hJ : J c.shared)
    (hrun : Relation.ReflTransGen (Step sem L.cond R.cond) c c') :
    Outlined sem L R c' ∧ J c'.shared := by
  induction hrun with
  | refl => exact ⟨h, hJ⟩
  | tail _ hstep ih =>
    obtain ⟨hnext, ⟨a, hguar⟩ | ⟨a, hguar⟩⟩ := step_outlined hLR hRL ih.1 hstep
    · exact ⟨hnext, hL _ _ _ hguar ih.2⟩
    · exact ⟨hnext, hR _ _ _ hguar ih.2⟩

/-! ## Schedules -/

/-- The state after one action of the party a schedule names; a finished party does nothing. -/
def turn (sem : (a : A) → σ → σ × Resp a) (c : Pair Resp σ) : Bool → Pair Resp σ
  | true =>
    match c.left with
    | .ret _ => c
    | .act a k => ⟨(sem a c.shared).1, k (sem a c.shared).2, c.right⟩
  | false =>
    match c.right with
    | .ret _ => c
    | .act a k => ⟨(sem a c.shared).1, c.left, k (sem a c.shared).2⟩

/-- The state after a schedule. -/
def turns (sem : (a : A) → σ → σ × Resp a) (c : Pair Resp σ) (who : List Bool) : Pair Resp σ :=
  who.foldl (turn sem) c

/-- The next action of the party a schedule names, if it has one, is taken under its
condition. -/
def Admits (condL condR : σ → A → Prop) (c : Pair Resp σ) : Bool → Prop
  | true =>
    match c.left with
    | .ret _ => True
    | .act a _ => condL c.shared a
  | false =>
    match c.right with
    | .ret _ => True
    | .act a _ => condR c.shared a

/-- Every action of a schedule is taken under its party's condition. -/
def AdmitsAll (sem : (a : A) → σ → σ × Resp a) (condL condR : σ → A → Prop) :
    Pair Resp σ → List Bool → Prop
  | _, [] => True
  | c, w :: who => Admits condL condR c w ∧ AdmitsAll sem condL condR (turn sem c w) who

instance (condL condR : σ → A → Prop) [∀ s a, Decidable (condL s a)]
    [∀ s a, Decidable (condR s a)] (c : Pair Resp σ) (w : Bool) :
    Decidable (Admits condL condR c w) :=
  match w, c with
  | true, ⟨_, .ret _, _⟩ => isTrue trivial
  | true, ⟨s, .act a _, _⟩ => inferInstanceAs (Decidable (condL s a))
  | false, ⟨_, _, .ret _⟩ => isTrue trivial
  | false, ⟨s, _, .act a _⟩ => inferInstanceAs (Decidable (condR s a))

instance AdmitsAll.decidable (sem : (a : A) → σ → σ × Resp a) (condL condR : σ → A → Prop)
    [∀ s a, Decidable (condL s a)] [∀ s a, Decidable (condR s a)] :
    (c : Pair Resp σ) → (who : List Bool) → Decidable (AdmitsAll sem condL condR c who)
  | _, [] => isTrue trivial
  | c, w :: who =>
    have := AdmitsAll.decidable sem condL condR (turn sem c w) who
    inferInstanceAs (Decidable (Admits condL condR c w ∧ _))

/-- A schedule that is admitted is a run. -/
theorem turns_run {condL condR : σ → A → Prop} {c : Pair Resp σ} {who : List Bool}
    (h : AdmitsAll sem condL condR c who) :
    Relation.ReflTransGen (Step sem condL condR) c (turns sem c who) := by
  induction who generalizing c with
  | nil => exact .refl
  | cons w who ih =>
    obtain ⟨hw, hrest⟩ := h
    have hrun := ih hrest
    obtain ⟨s, l, r⟩ := c
    cases w with
    | true =>
      cases l with
      | ret _ => exact hrun
      | act a k => exact .head (.left hw) hrun
    | false =>
      cases r with
      | ret _ => exact hrun
      | act a k => exact .head (.right hw) hrun

end RelyGuarantee

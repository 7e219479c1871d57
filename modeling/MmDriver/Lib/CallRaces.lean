import Mathlib.Data.List.ReduceOption
import Mathlib.Logic.Function.Basic
import MmDriver.Lib.CallMachine

/-!
# Calls in two moments

Several parties make calls on one machine. A call looks at the state first, and does the rest later,
with what it saw (`rest`); the others run in between. What it saw is `Current` when the state still
shows it. A call whose view is current does what it does in one piece, so a run in which every call
ends with a current view is the run of the calls in the order in which they end (`exec_current`).
-/

namespace CallRaces

open CallMachine

variable {σ κ ο β ω : Type}

/-- The state of the machine, and for every party the call it is in and what that call saw. -/
structure Racing (σ κ β ω : Type) where
  state : σ
  calling : ω → Option (κ × β)

/-- A call looks at the state, or a party does the rest of its call. -/
inductive Moment (κ ω : Type) where
  | looks (k : κ)
  | ends (w : ω)

section Machine

variable [DecidableEq ω] (who : κ → ω) (view : σ → κ → β) (rest : σ → β → κ → σ × ο)

/-- One moment. A party that is in a call makes no other, and one that is in none has nothing to
end. -/
def step (r : Racing σ κ β ω) : Moment κ ω → Racing σ κ β ω × Option ο
  | .looks k =>
    match r.calling (who k) with
    | some _ => (r, none)
    | none => ({ r with calling := Function.update r.calling (who k) (some (k, view r.state k)) }, none)
  | .ends w =>
    match r.calling w with
    | none => (r, none)
    | some (k, seen) =>
      let done := rest r.state seen k
      (⟨done.1, Function.update r.calling w none⟩, some done.2)

/-- Where a call ends, it satisfies `P` with the state and what it saw. -/
def AtEnds (P : σ → β → κ → Prop) (r : Racing σ κ β ω) : Moment κ ω → Prop
  | .looks _ => True
  | .ends w => ∀ k seen, r.calling w = some (k, seen) → P r.state seen k

/-- Where a call ends, the state still shows what it saw. -/
def Current : Racing σ κ β ω → Moment κ ω → Prop := AtEnds fun s seen k => view s k = seen

/-- The call that ends in a moment. -/
def endsIn (r : Racing σ κ β ω) : Moment κ ω → List κ
  | .looks _ => []
  | .ends w => ((r.calling w).map Prod.fst).toList

/-- The calls of a run, in the order in which they end. -/
def ended (r : Racing σ κ β ω) : List (Moment κ ω) → List κ
  | [] => []
  | m :: ms => endsIn r m ++ ended (step who view rest r m).1 ms

variable {who view rest} {r : Racing σ κ β ω}

/-! ## One moment -/

variable (who view rest) in
theorem step_looks_state (r : Racing σ κ β ω) (k : κ) :
    (step who view rest r (.looks k)).1.state = r.state ∧
      (step who view rest r (.looks k)).2 = none := by
  unfold step
  dsimp only
  split
  · exact ⟨rfl, rfl⟩
  · exact ⟨rfl, rfl⟩

variable (who view rest) in
theorem step_ends_none {w : ω} (h : r.calling w = none) :
    step who view rest r (.ends w) = (r, none) ∧ endsIn r (.ends w) = [] := by
  simp only [step, endsIn, h, Option.map_none, Option.toList_none, and_self]

variable (who view rest) in
theorem step_ends_some {w : ω} {k : κ} {seen : β} (h : r.calling w = some (k, seen)) :
    step who view rest r (.ends w) =
        (⟨(rest r.state seen k).1, Function.update r.calling w none⟩,
          some (rest r.state seen k).2) ∧
      endsIn r (.ends w) = [k] := by
  simp only [step, endsIn, h, Option.map_some, Option.toList_some, and_self]

/-- A call that a party is in was begun in the run, or was there before. -/
theorem calling_step {m : Moment κ ω} {w : ω} {k : κ} {seen : β}
    (h : (step who view rest r m).1.calling w = some (k, seen)) :
    r.calling w = some (k, seen) ∨ m = .looks k := by
  cases m with
  | looks k' =>
    unfold step at h
    dsimp only at h
    split at h
    · exact .inl h
    · dsimp only at h
      by_cases hw : w = who k'
      · subst hw
        rw [Function.update_self] at h
        obtain ⟨rfl, -⟩ := Prod.mk.inj (Option.some.inj h)
        exact .inr rfl
      · rw [Function.update_of_ne hw] at h
        exact .inl h
  | ends w' =>
    cases hcall : r.calling w' with
    | none =>
      rw [(step_ends_none who view rest hcall).1] at h
      exact .inl h
    | some call =>
      rw [(step_ends_some who view rest hcall).1] at h
      dsimp only at h
      by_cases hw : w = w'
      · subst hw
        rw [Function.update_self] at h
        cases h
      · rw [Function.update_of_ne hw] at h
        exact .inl h

/-! ## Runs -/

/-- The calls that end are those that were made. -/
theorem ended_made {ok : κ → Prop} (hcalling : ∀ w k seen, r.calling w = some (k, seen) → ok k)
    {ms : List (Moment κ ω)} (hms : ∀ k, .looks k ∈ ms → ok k) :
    ∀ k ∈ ended who view rest r ms, ok k := by
  induction ms generalizing r with
  | nil =>
    intro k hk
    cases hk
  | cons m ms ih =>
    intro k hk
    rcases List.mem_append.mp hk with hfirst | hlater
    · cases m with
      | looks k' => cases hfirst
      | ends w =>
        obtain ⟨⟨k', seen⟩, hcall, rfl⟩ := Option.map_eq_some_iff.mp (Option.mem_toList.mp hfirst)
        exact hcalling w k' seen hcall
    · refine ih (fun w k seen hcall => ?_) (fun k' hk' => hms k' (List.mem_cons_of_mem m hk')) k hlater
      rcases calling_step hcall with hold | rfl
      · exact hcalling w k seen hold
      · exact hms k List.mem_cons_self

variable {whole : σ → κ → σ × ο}

/-- A run whose calls end with a current view is the run of whole calls, in the order in which they
end. -/
theorem exec_current (hwhole : ∀ s k, rest s (view s k) k = whole s k) {ms : List (Moment κ ω)}
    (h : Along (step who view rest) (Current view) r ms) :
    (exec (step who view rest) r ms).1.state =
        (exec whole r.state (ended who view rest r ms)).1 ∧
      (exec (step who view rest) r ms).2.reduceOption =
        (exec whole r.state (ended who view rest r ms)).2 := by
  induction ms generalizing r with
  | nil => exact ⟨rfl, rfl⟩
  | cons m ms ih =>
    obtain ⟨hcurrent, hrest⟩ := h
    obtain ⟨hstate, hreplies⟩ := ih hrest
    rw [exec_cons_state, exec_cons_replies, ended, hstate]
    cases m with
    | looks k =>
      obtain ⟨hsame, hsilent⟩ := step_looks_state who view rest r k
      rw [hsame] at hreplies ⊢
      rw [hsilent]
      exact ⟨rfl, hreplies⟩
    | ends w =>
      cases hcall : r.calling w with
      | none =>
        obtain ⟨hstep, hnone⟩ := step_ends_none who view rest hcall
        rw [hstep] at hreplies ⊢
        rw [hnone]
        exact ⟨rfl, hreplies⟩
      | some call =>
        obtain ⟨k, seen⟩ := call
        obtain rfl : view r.state k = seen := hcurrent k seen hcall
        obtain ⟨hstep, hone⟩ := step_ends_some who view rest hcall
        rw [hstep, hwhole] at hreplies ⊢
        rw [hone]
        exact ⟨rfl, congrArg _ hreplies⟩

/-- A condition at the ends of the calls is the condition along the run of whole calls. -/
theorem along_ended (hwhole : ∀ s k, rest s (view s k) k = whole s k) {P : σ → κ → Prop}
    {ms : List (Moment κ ω)} (h : Along (step who view rest) (Current view) r ms) :
    Along (step who view rest) (AtEnds fun s _ k => P s k) r ms ↔
      Along whole P r.state (ended who view rest r ms) := by
  induction ms generalizing r with
  | nil => exact Iff.rfl
  | cons m ms ih =>
    obtain ⟨hcurrent, hrest⟩ := h
    rw [Along, ih hrest, ended]
    cases m with
    | looks k =>
      rw [(step_looks_state who view rest r k).1]
      exact and_iff_right trivial
    | ends w =>
      cases hcall : r.calling w with
      | none =>
        obtain ⟨hstep, hnone⟩ := step_ends_none who view rest hcall
        have hvoid : AtEnds (fun s _ k => P s k) r (.ends w) := by
          intro k seen hsome
          cases hcall.symm.trans hsome
        rw [hstep, hnone]
        exact and_iff_right hvoid
      | some call =>
        obtain ⟨k, seen⟩ := call
        obtain rfl : view r.state k = seen := hcurrent k seen hcall
        have hone : AtEnds (fun s _ k => P s k) r (.ends w) ↔ P r.state k := by
          constructor
          · exact fun hP => hP k _ hcall
          · intro hP k' seen' hcall'
            obtain ⟨rfl, -⟩ := Prod.mk.inj (Option.some.inj (hcall.symm.trans hcall'))
            exact hP
        obtain ⟨hstep, hends⟩ := step_ends_some who view rest hcall
        rw [hone, hstep, hends, hwhole]
        exact Iff.rfl

/-! ## Calls one after another -/

/-- Every call ends before the next one looks. -/
def oneByOne (who : κ → ω) (ks : List κ) : List (Moment κ ω) :=
  ks.flatMap fun k => [.looks k, .ends (who k)]

/-- With nobody in a call, calls one after another are current, and end in their order. -/
theorem oneByOne_current (hfree : r.calling = fun _ => none) (ks : List κ) :
    Along (step who view rest) (Current view) r (oneByOne who ks) ∧
      ended who view rest r (oneByOne who ks) = ks := by
  induction ks generalizing r with
  | nil => exact ⟨trivial, rfl⟩
  | cons k ks ih =>
    have hlooks : step who view rest r (.looks k) =
        (⟨r.state, Function.update r.calling (who k) (some (k, view r.state k))⟩, none) := by
      simp only [step, hfree]
    have hcall : Function.update r.calling (who k) (some (k, view r.state k)) (who k) =
        some (k, view r.state k) := Function.update_self ..
    have hback : Function.update (Function.update r.calling (who k) (some (k, view r.state k)))
        (who k) none = fun _ => none := by
      rw [Function.update_idem, hfree]
      exact Function.update_eq_self_iff.mpr rfl
    obtain ⟨hends, hone⟩ := step_ends_some who view rest
      (r := ⟨r.state, Function.update r.calling (who k) (some (k, view r.state k))⟩) hcall
    obtain ⟨hlater, hcalls⟩ := ih (r := ⟨(rest r.state (view r.state k) k).1, _⟩) hback
    have hall : oneByOne who (k :: ks) = .looks k :: .ends (who k) :: oneByOne who ks := rfl
    rw [hall, ended, Along, Along, hlooks, ended, hends]
    refine ⟨⟨trivial, fun k' seen hcall' => ?_, hlater⟩, ?_⟩
    · obtain ⟨rfl, rfl⟩ := Prod.mk.inj (Option.some.inj (hcall.symm.trans hcall'))
      rfl
    · rw [hone]
      exact congrArg (List.cons k) hcalls

end Machine

end CallRaces

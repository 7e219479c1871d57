import Mathlib.Logic.Basic

/-!
# Code that throws

A program with a state that answers or throws. What it did to the state before a throw stays, as
it does in a language whose exceptions do not undo anything. `exec` runs a program from a state;
each construct has its equation, so that a program is computed by rewriting.

`Returns` says that a program does not throw, and `handled` is what a handler around a program
comes to when the handler itself throws.
-/

/-- A program over the state `σ` that answers an `α` or throws an `ε`. -/
abbrev Throwing (ε σ α : Type) := ExceptT ε (StateM σ) α

namespace Throwing

variable {ε σ α β : Type}

/-- What a program answers or throws, and the state it leaves. -/
def exec (c : Throwing ε σ α) (s : σ) : Except ε α × σ := c.run.run s

@[simp] theorem exec_pure (a : α) (s : σ) : exec (pure a : Throwing ε σ α) s = (.ok a, s) := rfl

@[simp] theorem exec_throw (e : ε) (s : σ) :
    exec (throw e : Throwing ε σ α) s = (.error e, s) := rfl

@[simp] theorem exec_get (s : σ) : exec (get : Throwing ε σ σ) s = (.ok s, s) := rfl

@[simp] theorem exec_modify (f : σ → σ) (s : σ) :
    exec (modify f : Throwing ε σ PUnit) s = (.ok ⟨⟩, f s) := rfl

/-- A sequence stops at the first throw. -/
@[simp] theorem exec_bind (c : Throwing ε σ α) (k : α → Throwing ε σ β) (s : σ) :
    exec (c >>= k) s =
      match exec c s with
      | (.ok a, t) => exec (k a) t
      | (.error e, t) => (.error e, t) := by
  have hseq : exec (c >>= k) s = (ExceptT.bindCont k (exec c s).1).run (exec c s).2 := rfl
  rw [hseq]
  rcases exec c s with ⟨r, t⟩
  cases r with
  | ok a => rfl
  | error e => rfl

@[simp] theorem exec_map (f : α → β) (c : Throwing ε σ α) (s : σ) :
    exec (f <$> c) s = ((exec c s).1.map f, (exec c s).2) := by
  have hmap : exec (f <$> c) s = exec (c >>= fun a => pure (f a)) s := rfl
  rw [hmap, exec_bind]
  rcases exec c s with ⟨r, t⟩
  cases r with
  | ok a => rfl
  | error e => rfl

/-- A handler runs on the state that the throw left. -/
@[simp] theorem exec_tryCatch (c : Throwing ε σ α) (h : ε → Throwing ε σ α) (s : σ) :
    exec (tryCatch c h) s =
      match exec c s with
      | (.ok a, t) => (.ok a, t)
      | (.error e, t) => exec (h e) t := by
  have hhandled : exec (tryCatch c h) s =
      (match (exec c s).1 with
        | .ok a => (pure (.ok a) : StateM σ (Except ε α))
        | .error e => (h e).run).run (exec c s).2 := rfl
  rw [hhandled]
  rcases exec c s with ⟨r, t⟩
  cases r with
  | ok a => rfl
  | error e => rfl

theorem exec_ite (p : Prop) [Decidable p] (c d : Throwing ε σ α) (s : σ) :
    exec (if p then c else d) s = if p then exec c s else exec d s := by
  split <;> rfl

/-- The program does not throw from this state. -/
def Returns (c : Throwing ε σ α) (s : σ) : Prop := ∃ a, (exec c s).1 = .ok a

theorem returns_pure (a : α) (s : σ) : Returns (pure a : Throwing ε σ α) s := ⟨a, rfl⟩

theorem not_returns_throw (e : ε) (s : σ) : ¬Returns (throw e : Throwing ε σ α) s := by
  rintro ⟨a, ha⟩
  cases ha

/-- A sequence returns exactly when its first part does, and then the second. -/
theorem returns_bind_iff (c : Throwing ε σ α) (k : α → Throwing ε σ β) (s : σ) :
    Returns (c >>= k) s ↔ ∃ a, (exec c s).1 = .ok a ∧ Returns (k a) (exec c s).2 := by
  unfold Returns
  rw [exec_bind]
  rcases exec c s with ⟨r, t⟩
  cases r with
  | ok a =>
    refine ⟨fun h => ⟨a, rfl, h⟩, ?_⟩
    rintro ⟨a', ha, h⟩
    cases ha
    exact h
  | error e =>
    refine iff_of_false ?_ ?_
    · rintro ⟨b, hb⟩
      cases hb
    · rintro ⟨a, ha, -⟩
      cases ha

/-- Reading or changing the state returns. -/
theorem returns_get_bind_iff (k : σ → Throwing ε σ β) (s : σ) :
    Returns (get >>= k) s ↔ Returns (k s) s := by
  unfold Returns
  rw [exec_bind, exec_get]

theorem returns_modify_bind_iff (f : σ → σ) (c : Throwing ε σ β) (s : σ) :
    Returns (modify f >>= fun _ => c) s ↔ Returns c (f s) := by
  unfold Returns
  rw [exec_bind, exec_modify]

/-- Behind what always returns nothing is lost. -/
theorem returns_bind_total (c : Throwing ε σ α) (k : α → Throwing ε σ β) (s : σ)
    (hk : ∀ a t, Returns (k a) t) : Returns (c >>= k) s ↔ Returns c s := by
  rw [returns_bind_iff]
  refine ⟨?_, ?_⟩
  · rintro ⟨a, ha, -⟩
    exact ⟨a, ha⟩
  · rintro ⟨a, ha⟩
    exact ⟨a, ha, hk a _⟩

/-- Under a handler that throws whatever it is given, a program returns exactly when it would
without the handler, and from the same state. -/
theorem exec_rethrow (c : Throwing ε σ α) {h : ε → Throwing ε σ α} {again : ε}
    (hh : ∀ e t, exec (h e) t = (.error again, t)) (s : σ) :
    exec (tryCatch c h) s = ((exec c s).1.mapError fun _ => again, (exec c s).2) := by
  rw [exec_tryCatch]
  rcases exec c s with ⟨r, t⟩
  cases r with
  | ok a => rfl
  | error e => exact hh e t

end Throwing

import Mathlib.Data.List.Basic

/-!
# Loops that cut parts off a buffer

A loop that looks at the offset it has reached, takes a part there if there is one, and goes on
behind it. What the look takes fits what is left of the buffer; then the loop stays inside it, and
ends where nothing more can be taken.
-/

namespace CuttingLoop

variable {δ : Type} {n : Nat} {look loop : Nat → Nat × List δ}

/-- `loop` is the loop over `look`, on a buffer of `n`: both answer a length or an offset, and what
was handed out. -/
structure Cuts (n : Nat) (look loop : Nat → Nat × List δ) : Prop where
  fits : ∀ t ≤ n, t + (look t).1 ≤ n
  take : ∀ t ≤ n, 0 < (look t).1 →
    loop t = ((loop (t + (look t).1)).1, (look t).2 ++ (loop (t + (look t).1)).2)
  stop : ∀ t ≤ n, (look t).1 = 0 → loop t = (t, (look t).2)

/-- The looks of the loop, one by one. -/
theorem Cuts.induct (h : Cuts n look loop) {P : Nat → Prop}
    (stops : ∀ t ≤ n, (look t).1 = 0 → P t)
    (takes : ∀ t ≤ n, 0 < (look t).1 → P (t + (look t).1) → P t) : ∀ t ≤ n, P t := by
  intro t ht
  induction hleft : n - t using Nat.strongRecOn generalizing t with
  | ind left ih =>
    rcases Nat.eq_zero_or_pos (look t).1 with hzero | hpos
    · exact stops t ht hzero
    · have hfits := h.fits t ht
      exact takes t ht hpos (ih (n - (t + (look t).1)) (by omega) _ hfits rfl)

/-- The loop ends inside the buffer, where a look takes nothing. -/
theorem Cuts.ends (h : Cuts n look loop) {t : Nat} (ht : t ≤ n) :
    t ≤ (loop t).1 ∧ (loop t).1 ≤ n ∧ (look (loop t).1).1 = 0 := by
  refine h.induct (P := fun t => t ≤ (loop t).1 ∧ (loop t).1 ≤ n ∧ (look (loop t).1).1 = 0)
    (fun t ht hzero => ?_) (fun t ht hpos ih => ?_) t ht
  · rw [h.stop t ht hzero]
    exact ⟨Nat.le_refl t, ht, hzero⟩
  · rw [h.take t ht hpos]
    exact ⟨Nat.le_trans (Nat.le_add_right t _) ih.1, ih.2⟩

/-- What the loop hands out, a look inside the buffer handed out. -/
theorem Cuts.mem (h : Cuts n look loop) {t : Nat} (ht : t ≤ n) :
    ∀ d ∈ (loop t).2, ∃ k ≤ n, d ∈ (look k).2 := by
  refine h.induct (P := fun t => ∀ d ∈ (loop t).2, ∃ k ≤ n, d ∈ (look k).2)
    (fun t ht hzero d hd => ?_) (fun t ht hpos ih d hd => ?_) t ht
  · rw [h.stop t ht hzero] at hd
    exact ⟨t, ht, hd⟩
  · rw [h.take t ht hpos] at hd
    rcases List.mem_append.mp hd with hnow | hlater
    · exact ⟨t, ht, hnow⟩
    · exact ih d hlater

/-- The same looks give the same loop. -/
theorem Cuts.congr {look' loop' : Nat → Nat × List δ} (h : Cuts n look loop)
    (h' : Cuts n look' loop') (hlook : ∀ t ≤ n, look' t = look t) {t : Nat} (ht : t ≤ n) :
    loop' t = loop t := by
  refine h.induct (P := fun t => loop' t = loop t)
    (fun t ht hzero => ?_) (fun t ht hpos ih => ?_) t ht
  · rw [h.stop t ht hzero, h'.stop t ht (by rw [hlook t ht, hzero]), hlook t ht]
  · rw [h.take t ht hpos, h'.take t ht (by rw [hlook t ht]; exact hpos), hlook t ht, ih]

end CuttingLoop

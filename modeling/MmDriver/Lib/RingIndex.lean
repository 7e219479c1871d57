import Mathlib.Data.Nat.ModEq
import Mathlib.Tactic.Common

/-!
# Positions of a ring whose end has two names

A ring of `Q` cells is addressed by positions `0 … Q`: a run of bytes may start at `Q`, and
`Q` and `0` are then the same place for every distance, but not the same cell. `cell Q p d` is
the cell that the `d`-th byte of a run from `p` occupies when the start itself is not reduced
and every later byte is.

Distances are compared modulo `Q`, and the two laws that carry a ring buffer are stated in
that form: bytes at different distances below `Q` occupy different cells (`cell_inj` in one run,
`cell_mod_ne` in two), and the distance a reader computes from two positions by comparing them is
the one that was written (`gap_eq`).
-/

namespace RingIndex

/-- The cell of the `d`-th byte of a run from position `p`. -/
def cell (Q p d : Nat) : Nat := if d = 0 then p else (p + d) % Q

/-- The number of bytes from position `r` forward to position `w`, by comparing the two. -/
def gap (Q r w : Nat) : Nat := if w < r then Q - (r - w) else w - r

variable {Q p p' k d d' r w : Nat}

@[simp] theorem cell_zero (Q p : Nat) : cell Q p 0 = p := rfl

theorem cell_pos (h : d ≠ 0) : cell Q p d = (p + d) % Q := if_neg h

/-- Modulo the ring, a cell is its run's start plus the distance. -/
theorem cell_mod (Q p d : Nat) : cell Q p d % Q = (p + d) % Q := by
  by_cases h : d = 0
  · rw [h, cell_zero, Nat.add_zero]
  · rw [cell_pos h, Nat.mod_mod]

/-- Every cell but the start of a run is a cell of the ring proper. -/
theorem cell_lt (hQ : 0 < Q) (h : d ≠ 0) : cell Q p d < Q := by
  rw [cell_pos h]
  exact Nat.mod_lt _ hQ

theorem cell_le (hQ : 0 < Q) (hp : p ≤ Q) : cell Q p d ≤ Q := by
  by_cases h : d = 0
  · rwa [h, cell_zero]
  · exact Nat.le_of_lt (cell_lt hQ h)

/-- Stepping the start of a run by one cell moves its cells by one. -/
theorem cell_step (Q p d : Nat) : cell Q ((p + 1) % Q) d = cell Q p (d + 1) := by
  rw [cell_pos (Nat.succ_ne_zero d)]
  by_cases h : d = 0
  · rw [h, cell_zero]
  · rw [cell_pos h, Nat.mod_add_mod, Nat.add_assoc, Nat.add_comm 1 d]

/-- Stepping along a run, cell by cell. -/
theorem cell_next (Q p d : Nat) : (cell Q p d + 1) % Q = cell Q p (d + 1) := by
  rw [cell_pos (Nat.succ_ne_zero d), ← Nat.mod_add_mod, cell_mod, Nat.mod_add_mod]
  rfl

/-- Distances below `Q` are determined by where they lead. -/
theorem add_mod_inj (h : (p + d) % Q = (p + d') % Q) (hd : d < Q) (hd' : d' < Q) : d = d' :=
  Nat.ModEq.eq_of_lt_of_lt (Nat.ModEq.add_left_cancel' p h) hd hd'

/-- Of two runs, the second starting `k` bytes after the first, the second has none of the first
one's places while the bytes they hold lie at distances below the ring's size. -/
theorem cell_mod_ne (hp : p' % Q = (p + k) % Q) (hd : d < k) (hd' : k + d' < Q) :
    cell Q p' d' % Q ≠ (p + d) % Q := by
  intro h
  have hmod : (p + d) % Q = (p + (k + d')) % Q := by
    rw [← h, cell_mod, ← Nat.add_assoc]
    exact Nat.ModEq.add_right d' hp
  have := add_mod_inj hmod (by omega) hd'
  omega

/-- Inside one run, different distances below the ring's size are different cells. -/
theorem cell_inj (h : cell Q p d = cell Q p d') (hd : d < Q) (hd' : d' < Q) : d = d' := by
  apply add_mod_inj (p := p) _ hd hd'
  rw [← cell_mod Q p d, h, cell_mod]

/-- The distance found by comparing the two positions is the distance that was written, as long
as it is below the ring's size and an empty run keeps the two positions equal. -/
theorem gap_eq (hr : r ≤ Q) (hw : w ≤ Q) (h : (r + d) % Q = w % Q) (hd : d < Q)
    (hz : d = 0 → r = w) : gap Q r w = d := by
  have hQ : 0 < Q := Nat.lt_of_le_of_lt (Nat.zero_le d) hd
  unfold gap
  split
  · next hlt =>
    -- `w` is behind `r`: going forward from `r` wraps once
    have hmod : (r + d) % Q = (r + (Q - (r - w))) % Q := by
      rw [h, show r + (Q - (r - w)) = w + Q by omega, Nat.add_mod_right]
    by_cases hwhole : Q - (r - w) < Q
    · exact (add_mod_inj hmod hd hwhole).symm
    · omega
  · next hle =>
    have hmod : (r + d) % Q = (r + (w - r)) % Q := by
      rw [h, Nat.add_sub_cancel' (Nat.le_of_not_lt hle)]
    by_cases hwhole : w - r < Q
    · exact (add_mod_inj hmod hd hwhole).symm
    · -- `r = 0` and `w = Q`: a distance of `0`, which the two names of one place would hide
      have hrw : r = 0 ∧ w = Q := by omega
      rw [hrw.1, hrw.2, Nat.zero_add, Nat.mod_self, Nat.mod_eq_of_lt hd] at h
      have := hz h
      omega

end RingIndex

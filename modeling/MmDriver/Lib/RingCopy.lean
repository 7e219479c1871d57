import MmDriver.Lib.ByteMem
import MmDriver.Lib.RingIndex

/-!
# Copying a byte string into and out of a ring

A run of `len` bytes from position `h` of the `Q` bytes at `base` is moved in one piece when it
ends at or before the end of the ring, and in two when it goes past. Both directions put byte
`d` at cell `(h + d) % Q`, and neither touches another cell.
-/

namespace ByteMem

variable {m : Memory} {base Q h len : Nat} {src : Nat → UInt8}

/-- Write `len` bytes of `src` into the ring from position `h`. -/
def ringCopy (m : Memory) (base Q h : Nat) (src : Nat → UInt8) (len : Nat) : Memory :=
  if h + len > Q then
    copy (copy m (base + h) src (Q - h)) base (fun i => src (Q - h + i)) (len - (Q - h))
  else
    copy m (base + h) src len

/-- Read `len` bytes of the ring from position `h` into `buf`, from its first byte on. -/
def ringFetch (m : Memory) (base Q h : Nat) (buf : Memory) (len : Nat) : Memory :=
  if h + len > Q then
    copy (copy buf 0 (fun i => m (base + h + i)) (Q - h)) (Q - h) (fun i => m (base + i))
      (len - (Q - h))
  else
    copy buf 0 (fun i => m (base + h + i)) len

/-- Where the `d`-th byte from `h` stands: before the end of the ring, or from its start on. -/
theorem ring_offset {d : Nat} (hh : h < Q) (hd : d < Q) :
    (h + d) % Q = if h + d < Q then h + d else h + d - Q := by
  split
  · next hlt => exact Nat.mod_eq_of_lt hlt
  · next hge =>
    rw [Nat.mod_eq_sub_mod (Nat.le_of_not_lt hge)]
    exact Nat.mod_eq_of_lt (by omega)

/-- The copy puts byte `d` at the `d`-th cell. -/
theorem ringCopy_inside {d : Nat} (hh : h < Q) (hlen : len ≤ Q) (hd : d < len) :
    ringCopy m base Q h src len (base + (h + d) % Q) = src d := by
  rw [ring_offset hh (by omega)]
  unfold ringCopy
  split
  · next hwrap =>
    split
    · next hlt =>
      rw [copy_outside (by omega), copy_inside (by omega)]
      congr 1
      omega
    · next hge =>
      rw [copy_inside (by omega)]
      congr 1
      omega
  · next hfit =>
    rw [if_pos (by omega), copy_inside (by omega)]
    congr 1
    omega

/-- The copy changes no byte that is not one of its cells. -/
theorem ringCopy_outside {a : Nat} (hh : h < Q) (hlen : len ≤ Q)
    (ha : ∀ d < len, a ≠ base + (h + d) % Q) : ringCopy m base Q h src len a = m a := by
  unfold ringCopy
  split
  · next hwrap =>
    rw [copy_outside, copy_outside]
    · rintro ⟨hlo, hhi⟩
      apply ha (a - (base + h)) (by omega)
      rw [ring_offset hh (by omega), if_pos (by omega)]
      omega
    · rintro ⟨hlo, hhi⟩
      apply ha (a - base + (Q - h)) (by omega)
      rw [ring_offset hh (by omega), if_neg (by omega)]
      omega
  · next hfit =>
    apply copy_outside
    rintro ⟨hlo, hhi⟩
    apply ha (a - (base + h)) (by omega)
    rw [ring_offset hh (by omega), if_pos (by omega)]
    omega

/-- What is read is the ring's bytes in order. -/
theorem slice_ringFetch {buf : Memory} (hh : h < Q) (hlen : len ≤ Q) :
    slice (ringFetch m base Q h buf len) 0 len =
      (List.range len).map fun d => m (base + (h + d) % Q) := by
  apply List.map_congr_left
  intro d hd
  rw [List.mem_range] at hd
  rw [ring_offset hh (by omega), Nat.zero_add]
  unfold ringFetch
  split
  · next hwrap =>
    split
    · next hlt =>
      rw [copy_outside (by omega), copy_inside (by omega)]
      congr 1
      omega
    · next hge =>
      rw [copy_inside (by omega)]
      congr 1
      omega
  · next hfit =>
    rw [if_pos (by omega), copy_inside (by omega)]
    congr 1
    omega

end ByteMem

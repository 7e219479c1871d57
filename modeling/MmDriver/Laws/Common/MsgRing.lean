import MmDriver.Laws.Common.MsgFifo
import MmDriver.Lib.RingCopy

/-!
# Messages laid out in a ring

A message occupies a run of cells from its start: eight bytes of length, then the body. The
start of the next message is where `append` and `pop` leave their index, and that index is
`Q`, not `0`, when a body ends exactly at the end of the ring (`next`). A list of messages is
stored when each one's bytes stand in its run and each starts where the one before it ends.

A stored list depends only on the cells at distances below what it occupies (`stored_congr`),
which is the frame condition every later argument uses.
-/

namespace MmDriver.MsgRing

open ByteMem RingIndex MsgFifo

variable {ring ring' : Nat → UInt8} {Q p e : Nat} {x : Message} {xs ys : List Message}

/-- Where a message of `len` bytes that starts at position `p` ends: the header's end is
reduced, the body's end only when it goes past `Q`. -/
def next (Q p len : Nat) : Nat :=
  if (p + 8) % Q + len > Q then (p + 8) % Q + len - Q else (p + 8) % Q + len

/-- Byte `d` of a message's run: the length, then the body. -/
def frameByte (x : Message) (d : Nat) : UInt8 :=
  if d < 8 then byteOf x.length d else x.getD (d - 8) 0

/-- The message's bytes stand in the run from `p`. -/
def FrameAt (ring : Nat → UInt8) (Q p : Nat) (x : Message) : Prop :=
  ∀ d < 8 + x.length, ring (cell Q p d) = frameByte x d

/-- The messages stand in order from `p`, the last one ending at `e`. -/
def Stored (ring : Nat → UInt8) (Q : Nat) : Nat → List Message → Nat → Prop
  | p, [], e => p = e
  | p, x :: xs, e => FrameAt ring Q p x ∧ Stored ring Q (next Q p x.length) xs e

theorem next_le (hQ : 0 < Q) {len : Nat} (hlen : len ≤ Q) : next Q p len ≤ Q := by
  have := Nat.mod_lt (p + 8) hQ
  unfold next
  split <;> omega

/-- Modulo the ring, the end of a message is its start and its length. -/
theorem next_mod (Q p len : Nat) : next Q p len % Q = (p + (8 + len)) % Q := by
  have hsum : ((p + 8) % Q + len) % Q = (p + (8 + len)) % Q := by
    rw [Nat.mod_add_mod, Nat.add_assoc]
  unfold next
  split
  · next h => rw [← hsum, Nat.mod_eq_sub_mod (Nat.le_of_lt h)]
  · exact hsum

theorem stored_le (hQ : 0 < Q) (hp : p ≤ Q) (hroom : occupied xs ≤ Q)
    (h : Stored ring Q p xs e) : e ≤ Q := by
  induction xs generalizing p with
  | nil => exact h ▸ hp
  | cons x xs ih =>
    rw [occupied_cons] at hroom
    exact ih (next_le hQ (by omega)) (by omega) h.2

/-- Modulo the ring, the end of a stored list is its start and what it occupies. -/
theorem stored_mod (h : Stored ring Q p xs e) : e % Q = (p + occupied xs) % Q := by
  induction xs generalizing p with
  | nil => rw [show p = e from h, occupied_nil, Nat.add_zero]
  | cons x xs ih =>
    rw [ih h.2, occupied_cons, ← Nat.add_assoc]
    exact Nat.ModEq.add_right (occupied xs) (next_mod Q p x.length)

/-- **The frame condition.** A stored list reads only cells at distances below what it
occupies. -/
theorem stored_congr (hQ : 0 < Q) (hp : p ≤ Q) (hroom : occupied xs ≤ Q)
    (hring : ∀ c ≤ Q, ∀ d < occupied xs, c % Q = (p + d) % Q → ring' c = ring c)
    (h : Stored ring Q p xs e) : Stored ring' Q p xs e := by
  induction xs generalizing p with
  | nil => exact h
  | cons x xs ih =>
    rw [occupied_cons] at hroom
    obtain ⟨hframe, hrest⟩ := h
    refine ⟨fun d hd => ?_, ?_⟩
    · rw [hring _ (cell_le hQ hp) d (by rw [occupied_cons]; omega) (cell_mod Q p d)]
      exact hframe d hd
    · refine ih (next_le hQ (by omega)) (by omega) (fun c hc d hd hmod => ?_) hrest
      apply hring c hc (8 + x.length + d) (by rw [occupied_cons]; omega)
      rw [hmod, ← Nat.add_assoc]
      exact Nat.ModEq.add_right d (next_mod Q p x.length)

/-- Two stored lists, one starting where the other ends, are one. -/
theorem stored_append {e' : Nat} (h : Stored ring Q p xs e) (h' : Stored ring Q e ys e') :
    Stored ring Q p (xs ++ ys) e' := by
  induction xs generalizing p with
  | nil => exact (show p = e from h) ▸ h'
  | cons x xs ih => exact ⟨h.1, ih h.2⟩

/-- One more message at the end. -/
theorem stored_snoc (h : Stored ring Q p xs e) (hx : FrameAt ring Q e x) :
    Stored ring Q p (xs ++ [x]) (next Q e x.length) :=
  stored_append h ⟨hx, rfl⟩

/-- The header of a message in the ring reads as its length. -/
theorem frame_length (h : FrameAt ring Q p x) (hx : x.length < 2 ^ 64) :
    ofBytes (fun d => ring (cell Q p d)) 8 = x.length := by
  have hbytes : ∀ d < 8, ring (cell Q p d) = byteOf x.length d := fun d hd => by
    rw [h d (by omega), frameByte, if_pos hd]
  rw [ofBytes_congr hbytes, ofBytes_byteOf]
  exact Nat.mod_eq_of_lt hx

/-- The body of a message in the ring is the message. -/
theorem frame_body (h : FrameAt ring Q p x) :
    (List.range x.length).map (fun d => ring ((p + 8 + d) % Q)) = x := by
  apply List.ext_getElem?
  intro d
  rw [List.getElem?_map]
  by_cases hd : d < x.length
  · have hbyte := h (8 + d) (by omega)
    rw [cell_pos (by omega), frameByte, if_neg (by omega), Nat.add_sub_cancel_left,
      ← Nat.add_assoc] at hbyte
    rw [List.getElem?_range hd, Option.map_some, hbyte, List.getD_eq_getElem?_getD,
      List.getElem?_eq_getElem hd]
    rfl
  · rw [List.getElem?_eq_none (by simpa using hd), List.getElem?_eq_none (by omega)]
    rfl

end MmDriver.MsgRing

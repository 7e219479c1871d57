import Mathlib.Data.List.Basic

/-!
# Length-prefixed streams

The frame at the front of a stream says its own length in a head of fixed size. A stream is
then cut, from its start, into its complete frames and an incomplete tail.

What a reader that sees the stream piece by piece needs is `frames_append`: the frames of a
stream are those of any first part, followed by those of that part's tail with the rest behind
it. A reader that keeps only the tail between two pieces therefore loses nothing, wherever the
pieces were cut.
-/

namespace Framing

/-- How the frames of a stream are sized. `total s` is the length of the frame that starts `s`,
head included, and depends on the head alone. -/
structure Framer (α : Type) where
  head : Nat
  total : List α → Nat
  head_pos : 0 < head
  head_le : ∀ s, head ≤ total s
  total_append : ∀ s t, head ≤ s.length → total (s ++ t) = total s

namespace Framer

variable {α : Type} (F : Framer α) {s t : List α}

/-- The complete frames of a stream, in order, and what is left behind them. -/
def split (s : List α) : List (List α) × List α :=
  if F.total s ≤ s.length then
    let rest := split (s.drop (F.total s))
    (s.take (F.total s) :: rest.1, rest.2)
  else ([], s)
termination_by s.length
decreasing_by
  have hpos := F.head_pos
  have hle := F.head_le s
  rw [List.length_drop]
  omega

/-- The complete frames of a stream. -/
def frames (s : List α) : List (List α) := (F.split s).1

/-- The incomplete rest of a stream. -/
def tail (s : List α) : List α := (F.split s).2

variable {F}

theorem frames_of_le (h : F.total s ≤ s.length) :
    F.frames s = s.take (F.total s) :: F.frames (s.drop (F.total s)) := by
  rw [frames, split, if_pos h]
  rfl

theorem tail_of_le (h : F.total s ≤ s.length) : F.tail s = F.tail (s.drop (F.total s)) := by
  rw [tail, split, if_pos h]
  rfl

theorem frames_of_lt (h : s.length < F.total s) : F.frames s = [] := by
  rw [frames, split, if_neg (Nat.not_le_of_lt h)]

theorem tail_of_lt (h : s.length < F.total s) : F.tail s = s := by
  rw [tail, split, if_neg (Nat.not_le_of_lt h)]

/-- A stream with no complete frame is shorter than the frame it announces. -/
theorem frames_eq_nil_iff : F.frames s = [] ↔ s.length < F.total s := by
  refine ⟨fun h => ?_, frames_of_lt⟩
  rcases Nat.lt_or_ge s.length (F.total s) with hlt | hge
  · exact hlt
  · rw [frames_of_le hge] at h
    exact absurd h (List.cons_ne_nil _ _)

@[simp] theorem frames_nil : F.frames ([] : List α) = [] :=
  frames_of_lt (Nat.lt_of_lt_of_le F.head_pos (F.head_le []))

@[simp] theorem tail_nil : F.tail ([] : List α) = [] :=
  tail_of_lt (Nat.lt_of_lt_of_le F.head_pos (F.head_le []))

/-- A complete frame is not resized by what follows it. -/
theorem total_append_of_le (h : F.total s ≤ s.length) (t : List α) :
    F.total (s ++ t) = F.total s := F.total_append s t (Nat.le_trans (F.head_le s) h)

/-- A first part that is as long as the first frame knows its length. -/
theorem total_of_append_le (h : F.total (s ++ t) ≤ s.length) : F.total s = F.total (s ++ t) :=
  (F.total_append s t (Nat.le_trans (F.head_le (s ++ t)) h)).symm

/-- A first part that is shorter than the first frame does not take itself for complete. -/
theorem lt_total_of_append (h : s.length < F.total (s ++ t)) : s.length < F.total s := by
  rcases Nat.lt_or_ge s.length F.head with hshort | hhead
  · exact Nat.lt_of_lt_of_le hshort (F.head_le s)
  · rwa [F.total_append s t hhead] at h

/-- Induction along the frames of a stream. -/
theorem frames_induction {P : List α → Prop}
    (incomplete : ∀ s, s.length < F.total s → P s)
    (frame : ∀ s, F.total s ≤ s.length → P (s.drop (F.total s)) → P s) (s : List α) : P s := by
  induction hn : s.length using Nat.strongRecOn generalizing s with
  | _ n ih =>
    rcases Nat.lt_or_ge s.length (F.total s) with hlt | hge
    · exact incomplete s hlt
    · refine frame s hge (ih (s.drop (F.total s)).length ?_ _ rfl)
      have hpos := F.head_pos
      have hle := F.head_le s
      rw [List.length_drop]
      omega

/-- The frames and the tail are the stream. -/
theorem flatten_frames (s : List α) : (F.frames s).flatten ++ F.tail s = s := by
  induction s using F.frames_induction with
  | incomplete s h => rw [frames_of_lt h, tail_of_lt h, List.flatten_nil, List.nil_append]
  | frame s h ih =>
    rw [frames_of_le h, tail_of_le h, List.flatten_cons, List.append_assoc, ih,
      List.take_append_drop]

/-- The tail is incomplete. -/
theorem tail_lt (s : List α) : (F.tail s).length < F.total (F.tail s) := by
  induction s using F.frames_induction with
  | incomplete s h => rwa [tail_of_lt h]
  | frame s h ih => rwa [tail_of_le h]

/-- The tail is the end of the stream. -/
theorem tail_eq_drop (s : List α) : F.tail s = s.drop (s.length - (F.tail s).length) := by
  have hsplit := F.flatten_frames s
  have hlen := congrArg List.length hsplit
  rw [List.length_append] at hlen
  have hskip : s.length - (F.tail s).length = (F.frames s).flatten.length := by omega
  have hdrop : ((F.frames s).flatten ++ F.tail s).drop (F.frames s).flatten.length = F.tail s :=
    List.drop_left
  rw [hsplit] at hdrop
  rw [hskip, hdrop]

/-- The frames are the start of the stream. -/
theorem flatten_frames_eq_take (s : List α) :
    (F.frames s).flatten = s.take (s.length - (F.tail s).length) := by
  have hsplit := F.flatten_frames s
  have hlen := congrArg List.length hsplit
  rw [List.length_append] at hlen
  have hskip : s.length - (F.tail s).length = (F.frames s).flatten.length := by omega
  have htake : ((F.frames s).flatten ++ F.tail s).take (F.frames s).flatten.length =
      (F.frames s).flatten := List.take_left
  rw [hsplit] at htake
  rw [hskip, htake]

/-- A frame is no longer than the stream. -/
theorem length_le_of_mem {f : List α} (hf : f ∈ F.frames s) : f.length ≤ s.length := by
  induction s using F.frames_induction with
  | incomplete s h =>
    rw [frames_of_lt h] at hf
    exact absurd hf List.not_mem_nil
  | frame s h ih =>
    rw [frames_of_le h] at hf
    rcases List.mem_cons.mp hf with rfl | hf
    · exact List.length_take_le' _ s
    · have hrest := ih hf
      rw [List.length_drop] at hrest
      omega

theorem tail_length_le (s : List α) : (F.tail s).length ≤ s.length := by
  have hlen := congrArg List.length (F.flatten_frames s)
  rw [List.length_append] at hlen
  omega

/-- The tail is shorter than the stream exactly when there is a complete frame. -/
theorem tail_length_lt_iff : (F.tail s).length < s.length ↔ F.frames s ≠ [] := by
  constructor
  · intro hlt hnil
    rw [tail_of_lt (frames_eq_nil_iff.mp hnil)] at hlt
    exact Nat.lt_irrefl _ hlt
  · intro hne
    have hle : F.total s ≤ s.length := Nat.le_of_not_lt fun hlt => hne (frames_of_lt hlt)
    have hrest := F.tail_length_le (s.drop (F.total s))
    have hpos := F.head_pos
    have hhead := F.head_le s
    rw [tail_of_le hle]
    rw [List.length_drop] at hrest
    omega

/-- Every frame has the length its own head says. -/
theorem total_of_mem {f : List α} (hf : f ∈ F.frames s) : F.total f = f.length := by
  induction s using F.frames_induction with
  | incomplete s h =>
    rw [frames_of_lt h] at hf
    exact absurd hf List.not_mem_nil
  | frame s h ih =>
    rw [frames_of_le h] at hf
    rcases List.mem_cons.mp hf with rfl | hf
    · have hlen : (s.take (F.total s)).length = F.total s := List.length_take_of_le h
      have hsame := F.total_append (s.take (F.total s)) (s.drop (F.total s))
        (hlen.symm ▸ F.head_le s)
      rw [List.take_append_drop] at hsame
      rw [hlen, ← hsame]
    · exact ih hf

/-- No frame is empty. -/
theorem ne_nil_of_mem {f : List α} (hf : f ∈ F.frames s) : f ≠ [] := by
  rintro rfl
  have htotal := F.total_of_mem hf
  have hpos := F.head_pos
  have hle := F.head_le ([] : List α)
  rw [htotal, List.length_nil] at hle
  omega

/-- Reading on from the tail: the frames of a stream and of its parts. -/
theorem frames_append (s t : List α) :
    F.frames (s ++ t) = F.frames s ++ F.frames (F.tail s ++ t) := by
  induction s using F.frames_induction with
  | incomplete s h => rw [frames_of_lt h, tail_of_lt h, List.nil_append]
  | frame s h ih =>
    have hle : F.total (s ++ t) ≤ (s ++ t).length := by
      rw [total_append_of_le h, List.length_append]
      omega
    rw [frames_of_le hle, frames_of_le h, tail_of_le h, total_append_of_le h,
      List.take_append_of_le_length h, List.drop_append_of_le_length h, ih, List.cons_append]

theorem tail_append (s t : List α) : F.tail (s ++ t) = F.tail (F.tail s ++ t) := by
  induction s using F.frames_induction with
  | incomplete s h => rw [tail_of_lt h]
  | frame s h ih =>
    have hle : F.total (s ++ t) ≤ (s ++ t).length := by
      rw [total_append_of_le h, List.length_append]
      omega
    rw [tail_of_le hle, tail_of_le h, total_append_of_le h, List.drop_append_of_le_length h, ih]

/-- The frames of a first part come first. -/
theorem frames_prefix (s t : List α) : F.frames s <+: F.frames (s ++ t) :=
  frames_append s t ▸ List.prefix_append _ _

/-! ## A limit on the length of frames -/

/-- No frame of the stream, nor the incomplete last one if its head is there, is longer than
`limit`. -/
structure Bounded (F : Framer α) (limit : Nat) (s : List α) : Prop where
  frames : ∀ f ∈ F.frames s, f.length ≤ limit
  tail : F.head ≤ (F.tail s).length → F.total (F.tail s) ≤ limit

/-- The tail of a first part announces no frame over the limit either: the frame is complete in
the whole stream, or is its tail. -/
theorem Bounded.total_tail_le {limit : Nat} (h : F.Bounded limit (s ++ t))
    (hhead : F.head ≤ (F.tail s).length) : F.total (F.tail s) ≤ limit := by
  have hsame : F.total (F.tail s ++ t) = F.total (F.tail s) := F.total_append _ t hhead
  rw [← hsame]
  rcases Nat.lt_or_ge (F.tail s ++ t).length (F.total (F.tail s ++ t)) with hlt | hge
  · have htail : F.tail (s ++ t) = F.tail s ++ t := by rw [tail_append, tail_of_lt hlt]
    rw [← htail]
    refine h.tail ?_
    rw [htail, List.length_append]
    omega
  · have hmem : (F.tail s ++ t).take (F.total (F.tail s ++ t)) ∈ F.frames (s ++ t) := by
      rw [frames_append, frames_of_le hge]
      exact List.mem_append_right _ List.mem_cons_self
    have hlen := h.frames _ hmem
    rwa [List.length_take_of_le hge] at hlen

/-- With frames up to the limit only, a tail as long as the limit cannot be: its head would
announce a longer frame. -/
theorem Bounded.tail_lt {limit : Nat} (h : F.Bounded limit (s ++ t)) (hlimit : F.head ≤ limit) :
    (F.tail s).length < limit := by
  rcases Nat.lt_or_ge (F.tail s).length limit with hlt | hge
  · exact hlt
  · have hle := h.total_tail_le (Nat.le_trans hlimit hge)
    have hlt := F.tail_lt s
    omega

/-- Behind an incomplete frame that already fills the limit there is no complete frame, unless
that one is over the limit. -/
theorem frames_append_eq_nil {limit : Nat} (hlimit : F.head ≤ limit) (hs : F.frames s = [])
    (hlong : limit ≤ s.length) (hfit : ∀ f ∈ F.frames (s ++ t), f.length ≤ limit) :
    F.frames (s ++ t) = [] := by
  have hlt := frames_eq_nil_iff.mp hs
  have hsame := F.total_append s t (Nat.le_trans hlimit hlong)
  refine frames_of_lt (Nat.lt_of_not_le fun hge => ?_)
  have hlen := hfit ((s ++ t).take (F.total (s ++ t))) (by
    rw [frames_of_le hge]
    exact List.mem_cons_self)
  rw [List.length_take_of_le hge] at hlen
  omega

end Framer

end Framing

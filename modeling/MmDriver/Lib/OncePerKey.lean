import Mathlib.Order.Lattice
import Mathlib.Data.List.Chain

/-!
# Answering once for each key

A detector sees events in the order of their keys and is to answer once for each key at which an
event is wanted. It remembers the last event it answered, and answers a wanted event whose stamp
differs from that one's.

A key determines its stamp, so no key is answered twice. A stamp need not determine its key:
`once_iff` says that every key is answered exactly when, among the wanted events, the stamp tells
each from the one before it.
-/

namespace OncePerKey

variable {ε κ ν : Type} [LinearOrder κ] [DecidableEq ν]
  (key : ε → κ) (stamp : ε → ν) (wanted : ε → Prop) [DecidablePred wanted]

/-- The events answered, where `last` is the last one that was. -/
def answered (last : ε) : List ε → List ε
  | [] => []
  | t :: ts =>
    if wanted t ∧ stamp t ≠ stamp last then t :: answered t ts else answered last ts

/-- How many of the events have the key `μ`. -/
def countAt (μ : κ) (ts : List ε) : Nat := ts.countP (key · = μ)

/-- Each key behind that of `last` at which an event is wanted has one answer, and no other key
has any. -/
def Once (last : ε) (ts fired : List ε) : Prop :=
  ∀ μ, countAt key μ fired = if μ ≠ key last ∧ ∃ t ∈ ts, wanted t ∧ key t = μ then 1 else 0

/-- The stamp tells the event `b` from `a`, unless they have one key. -/
def Told (a b : ε) : Prop := stamp a = stamp b → key a = key b

variable {key stamp wanted} {last t : ε} {ts : List ε}

/-- Only events are answered. -/
theorem answered_subset (last : ε) (ts : List ε) : answered stamp wanted last ts ⊆ ts := by
  induction ts generalizing last with
  | nil => exact List.Subset.refl _
  | cons t ts ih =>
    rw [answered]
    split
    · exact List.cons_subset_cons t (ih t)
    · exact List.subset_cons_of_subset t (ih last)

theorem countAt_eq_zero {μ : κ} (h : ∀ t ∈ ts, key t ≠ μ) : countAt key μ ts = 0 :=
  List.countP_eq_zero.mpr fun t ht => by simpa using h t ht

/-- A key with the stamp of the last answer has no answer: by the time another event is answered
the keys are past it. -/
theorem countAt_answered_eq_zero {μ : κ} (hsorted : ts.Pairwise (key · ≤ key ·))
    (hfrom : ∀ t ∈ ts, μ ≤ key t) (hstamp : ∀ t ∈ ts, key t = μ → stamp t = stamp last) :
    countAt key μ (answered stamp wanted last ts) = 0 := by
  induction ts with
  | nil => rfl
  | cons t ts ih =>
    obtain ⟨hle, hrest⟩ := List.pairwise_cons.mp hsorted
    rw [answered]
    split
    · next hfire =>
      have hpast : μ < key t := by
        refine lt_of_le_of_ne (hfrom t List.mem_cons_self) fun heq => ?_
        exact hfire.2 (hstamp t List.mem_cons_self heq.symm)
      refine countAt_eq_zero fun u hu => ?_
      rcases List.mem_cons.mp hu with rfl | hu
      · exact ne_of_gt hpast
      · exact ne_of_gt (lt_of_lt_of_le hpast (hle u (answered_subset t ts hu)))
    · exact ih hrest (fun u hu => hfrom u (List.mem_cons_of_mem t hu))
        fun u hu => hstamp u (List.mem_cons_of_mem t hu)

/-! ## One event -/

/-- An event that is not wanted changes nothing. -/
theorem Once.skip (h : ¬wanted t) (fired : List ε) :
    Once key wanted last (t :: ts) fired ↔ Once key wanted last ts fired := by
  have hsame : ∀ μ, (∃ u ∈ t :: ts, wanted u ∧ key u = μ) ↔ ∃ u ∈ ts, wanted u ∧ key u = μ :=
    fun μ => by simp [h]
  simp only [Once, hsame]

/-- Nor does an event with the key of the last answer. -/
theorem Once.repeated (h : key t = key last) (fired : List ε) :
    Once key wanted last (t :: ts) fired ↔ Once key wanted last ts fired := by
  have hsame : ∀ μ, (μ ≠ key last ∧ ∃ u ∈ t :: ts, wanted u ∧ key u = μ) ↔
      μ ≠ key last ∧ ∃ u ∈ ts, wanted u ∧ key u = μ := by
    intro μ
    refine and_congr_right fun hμ => ?_
    have hnot : key t ≠ μ := fun heq => hμ (heq.symm.trans h)
    simp [hnot]
  simp only [Once, hsame]

/-- An answer is the one for its key, and the keys behind it are left. -/
theorem Once.answer (hwanted : wanted t) (hnew : key last < key t)
    (hle : ∀ u ∈ ts, key t ≤ key u) (fired : List ε) :
    Once key wanted last (t :: ts) (t :: fired) ↔ Once key wanted t ts fired := by
  refine forall_congr' fun μ => ?_
  rw [countAt, List.countP_cons, ← countAt]
  by_cases hμ : key t = μ
  · subst hμ
    have hone : (key t ≠ key last ∧ ∃ u ∈ t :: ts, wanted u ∧ key u = key t) :=
      ⟨ne_of_gt hnew, t, List.mem_cons_self, hwanted, rfl⟩
    rw [if_pos hone]
    simp
  · have hsame : (μ ≠ key last ∧ ∃ u ∈ t :: ts, wanted u ∧ key u = μ) ↔
        μ ≠ key t ∧ ∃ u ∈ ts, wanted u ∧ key u = μ := by
      constructor
      · rintro ⟨-, u, hu, hw, rfl⟩
        rcases List.mem_cons.mp hu with rfl | hu
        · exact absurd rfl hμ
        · exact ⟨fun heq => hμ heq.symm, u, hu, hw, rfl⟩
      · rintro ⟨-, u, hu, hw, rfl⟩
        exact ⟨ne_of_gt (lt_of_lt_of_le hnew (hle u hu)), u, List.mem_cons_of_mem t hu, hw, rfl⟩
    simp only [hsame, hμ, decide_false, Bool.false_eq_true, if_false, Nat.add_zero]

/-! ## The whole sequence -/

omit [LinearOrder κ] [DecidableEq ν] in
/-- Two events with one key and one stamp are told from the same events. -/
theorem isChain_told_congr {l : List ε} (hkey : key t = key last) (hstamp : stamp t = stamp last) :
    (t :: l).IsChain (Told key stamp) ↔ (last :: l).IsChain (Told key stamp) := by
  cases l with
  | nil => simp
  | cons u l => simp only [List.isChain_cons_cons, Told, hkey, hstamp]

/-- A wanted event that is taken for the last answer is missed. -/
theorem not_once_of_stamp_eq (hwanted : wanted t) (hnew : key last < key t)
    (hsame : stamp t = stamp last) (hts : (t :: ts).Pairwise (key · ≤ key ·))
    (hstamp : ∀ u ∈ t :: ts, key u = key t → stamp u = stamp t) :
    ¬Once key wanted last (t :: ts) (answered stamp wanted last (t :: ts)) := by
  intro honce
  have hle : ∀ u ∈ t :: ts, key t ≤ key u := by
    intro u hu
    rcases List.mem_cons.mp hu with rfl | hu
    · exact le_refl _
    · exact (List.pairwise_cons.mp hts).1 u hu
  have hnone : countAt key (key t) (answered stamp wanted last (t :: ts)) = 0 :=
    countAt_answered_eq_zero hts hle fun u hu hkey => (hstamp u hu hkey).trans hsame
  have hone := honce (key t)
  rw [if_pos ⟨ne_of_gt hnew, t, List.mem_cons_self, hwanted, rfl⟩, hnone] at hone
  exact Nat.zero_ne_one hone

/-- **When each key is answered once.** -/
theorem once_iff (hsorted : (last :: ts).Pairwise (key · ≤ key ·))
    (hstamp : ∀ a ∈ last :: ts, ∀ b ∈ last :: ts, key a = key b → stamp a = stamp b) :
    Once key wanted last ts (answered stamp wanted last ts) ↔
      (last :: ts.filter wanted).IsChain (Told key stamp) := by
  induction ts generalizing last with
  | nil => simp [Once, answered, countAt]
  | cons t ts ih =>
    obtain ⟨hlast, hts⟩ := List.pairwise_cons.mp hsorted
    obtain ⟨hle, hrest⟩ := List.pairwise_cons.mp hts
    have hlt : key last ≤ key t := hlast t List.mem_cons_self
    -- the detector stays where it was
    have hstay : Once key wanted last ts (answered stamp wanted last ts) ↔
        (last :: ts.filter wanted).IsChain (Told key stamp) := ih
      (List.pairwise_cons.mpr ⟨fun u hu => hlast u (List.mem_cons_of_mem t hu), hrest⟩)
      (fun a ha b hb => hstamp a (by grind) b (by grind))
    by_cases hwanted : wanted t
    · rw [List.filter_cons_of_pos (by simpa using hwanted), List.isChain_cons_cons]
      by_cases hkey : key t = key last
      · have hsame : stamp t = stamp last := hstamp t (by grind) last (by grind) hkey
        rw [answered, if_neg fun hfire => hfire.2 hsame, Once.repeated hkey, hstay,
          isChain_told_congr hkey hsame]
        exact (and_iff_right fun _ => hkey.symm).symm
      · have hnew : key last < key t := lt_of_le_of_ne hlt (Ne.symm hkey)
        by_cases hsame : stamp t = stamp last
        · refine iff_of_false ?_ fun htold => ne_of_lt hnew (htold.1 hsame.symm)
          exact not_once_of_stamp_eq hwanted hnew hsame hts
            fun u hu => hstamp u (List.mem_cons_of_mem last hu) t (by grind)
        · rw [answered, if_pos ⟨hwanted, hsame⟩, Once.answer hwanted hnew hle,
            ih hts fun a ha b hb => hstamp a (List.mem_cons_of_mem last ha) b
              (List.mem_cons_of_mem last hb)]
          exact (and_iff_right fun heq => absurd heq.symm hsame).symm
    · rw [List.filter_cons_of_neg (by simpa using hwanted), answered,
        if_neg fun hfire => hwanted hfire.1, Once.skip hwanted, hstay]

end OncePerKey

import Mathlib.Data.List.Induction
import Mathlib.Data.List.Nodup
import Mathlib.Logic.Function.Basic

/-!
# Slots that are given out under keys

The same slots are given out again and again, each time under a key; a slot that is out is used under
its key, and then taken back. A log says what happened, in order.

In an orderly log a slot that is free is given out under a key that is new, and a slot is used and
taken back under the key that it is out under. So every use is one of the slot's last time out, and
there is no other time with its key (`Orderly.used`).
-/

namespace Slots

variable {ι κ ε : Type}

/-- What happens to a slot. -/
inductive Event (ι κ ε : Type) where
  | opened (slot : ι) (key : κ)
  | used (slot : ι) (key : κ) (use : ε)
  | closed (slot : ι) (key : κ)
deriving DecidableEq, Repr

/-- The slot is given out or taken back. -/
def Event.Moves (i : ι) : Event ι κ ε → Prop
  | .opened j _ => j = i
  | .used _ _ _ => False
  | .closed j _ => j = i

/-- The key under which a slot is given out. -/
def Event.openedKey : Event ι κ ε → Option κ
  | .opened _ k => some k
  | .used _ _ _ => none
  | .closed _ _ => none

/-- The last time a slot was given out it was under `k`, and `since` has happened since then. -/
structure Since (log : List (Event ι κ ε)) (i : ι) (k : κ) (since : List (Event ι κ ε)) : Prop where
  opened : ∃ before, log = before ++ .opened i k :: since
  stays : ∀ e ∈ since, ¬e.Moves i

theorem Since.snoc (log : List (Event ι κ ε)) (i : ι) (k : κ) :
    Since (log ++ [.opened i k]) i k [] := ⟨⟨log, rfl⟩, List.forall_mem_nil _⟩

/-- The log goes on, and the slot stays. -/
theorem Since.append {log since more : List (Event ι κ ε)} {i : ι} {k : κ} (h : Since log i k since)
    (hmore : ∀ e ∈ more, ¬e.Moves i) : Since (log ++ more) i k (since ++ more) := by
  obtain ⟨before, rfl⟩ := h.opened
  refine ⟨⟨before, ?_⟩, List.forall_mem_append.mpr ⟨h.stays, hmore⟩⟩
  rw [List.append_assoc, List.cons_append]

/-- The keys under which slots were given out, in order. -/
def keys (log : List (Event ι κ ε)) : List κ := log.filterMap Event.openedKey

@[simp] theorem keys_append (log log' : List (Event ι κ ε)) :
    keys (log ++ log') = keys log ++ keys log' := List.filterMap_append

theorem mem_keys {log : List (Event ι κ ε)} {k : κ} : k ∈ keys log ↔ ∃ i, .opened i k ∈ log := by
  rw [keys, List.mem_filterMap]
  constructor
  · rintro ⟨e, he, hk⟩
    cases e with
    | opened i k' =>
      obtain rfl := Option.some.inj hk
      exact ⟨i, he⟩
    | used i k' u => cases hk
    | closed i k' => cases hk
  · rintro ⟨i, hi⟩
    exact ⟨_, hi, rfl⟩

section Out

variable [DecidableEq ι]

/-- The keys the slots are out under, behind one more event. -/
def next (out : ι → Option κ) : Event ι κ ε → ι → Option κ
  | .opened i k => Function.update out i (some k)
  | .used _ _ _ => out
  | .closed i _ => Function.update out i none

/-- The keys the slots are out under. -/
def out (log : List (Event ι κ ε)) : ι → Option κ := log.foldl next fun _ => none

@[simp] theorem out_nil (i : ι) : out ([] : List (Event ι κ ε)) i = none := rfl

theorem out_snoc (log : List (Event ι κ ε)) (e : Event ι κ ε) :
    out (log ++ [e]) = next (out log) e := by
  rw [out, List.foldl_append]
  rfl

theorem next_of_not_moves {f : ι → Option κ} {e : Event ι κ ε} {i : ι} (h : ¬e.Moves i) :
    next f e i = f i := by
  cases e with
  | opened j k => exact Function.update_of_ne (Ne.symm h) _ _
  | used j k u => rfl
  | closed j k => exact Function.update_of_ne (Ne.symm h) _ _

/-- A slot that is out was given out under its key, and has not been moved since. -/
theorem exists_since {log : List (Event ι κ ε)} {i : ι} {k : κ} (h : out log i = some k) :
    ∃ since, Since log i k since := by
  induction log using List.reverseRecOn with
  | nil => cases h
  | append_singleton log e ih =>
    rw [out_snoc] at h
    by_cases hmoves : e.Moves i
    · cases e with
      | opened j k' =>
        obtain rfl : j = i := hmoves
        rw [next, Function.update_self] at h
        obtain rfl := Option.some.inj h
        exact ⟨[], .snoc log j k'⟩
      | used j k' u => exact hmoves.elim
      | closed j k' =>
        obtain rfl : j = i := hmoves
        rw [next, Function.update_self] at h
        cases h
    · rw [next_of_not_moves hmoves] at h
      obtain ⟨since, hsince⟩ := ih h
      exact ⟨since ++ [e], hsince.append (List.forall_mem_singleton.mpr hmoves)⟩

/-- What may happen behind a log. -/
def Allowed (log : List (Event ι κ ε)) : Event ι κ ε → Prop
  | .opened i k => out log i = none ∧ k ∉ keys log
  | .used i k _ => out log i = some k
  | .closed i k => out log i = some k

/-- A log in which nothing else happens. -/
inductive Orderly : List (Event ι κ ε) → Prop where
  | nil : Orderly []
  | snoc {log : List (Event ι κ ε)} {e : Event ι κ ε} : Orderly log → Allowed log e →
      Orderly (log ++ [e])

/-- Every event was allowed behind those before it. -/
theorem Orderly.allowed {log : List (Event ι κ ε)} (h : Orderly log)
    {before after : List (Event ι κ ε)} {e : Event ι κ ε} (hlog : log = before ++ e :: after) :
    Allowed before e := by
  induction h generalizing after with
  | nil => exact absurd hlog.symm (List.append_ne_nil_of_right_ne_nil _ (List.cons_ne_nil _ _))
  | @snoc log e' _ hallowed ih =>
    cases after using List.reverseRecOn with
    | nil =>
      obtain ⟨rfl, hlast⟩ := List.append_inj' hlog rfl
      obtain rfl := List.head_eq_of_cons_eq hlast
      exact hallowed
    | append_singleton rest last =>
      rw [← List.cons_append, ← List.append_assoc] at hlog
      exact ih (List.append_inj' hlog rfl).1

/-- No key is given out twice. -/
theorem Orderly.keys_nodup {log : List (Event ι κ ε)} (h : Orderly log) : (keys log).Nodup := by
  induction h with
  | nil => exact List.nodup_nil
  | @snoc log e _ hallowed ih =>
    rw [keys_append]
    cases e with
    | opened i k =>
      rw [show keys [Event.opened i k] = [k] from rfl, ← List.concat_eq_append]
      exact List.Nodup.concat hallowed.2 ih
    | used i k u => rwa [show keys [Event.used i k u] = [] from rfl, List.append_nil]
    | closed i k => rwa [show keys [Event.closed i k] = [] from rfl, List.append_nil]

/-- A use belongs to the time at which its slot was given out under its key: the slot has not been
moved since then, and no other slot, at no other time, is given out under it. -/
theorem Orderly.used [DecidableEq κ] {log : List (Event ι κ ε)} (h : Orderly log)
    {before after : List (Event ι κ ε)} {i : ι} {k : κ} {u : ε}
    (hlog : log = before ++ .used i k u :: after) :
    (∃ since, Since before i k since) ∧ (keys log).count k = 1 := by
  obtain ⟨since, hsince⟩ := exists_since (h.allowed hlog : out before i = some k)
  obtain ⟨earlier, hbefore⟩ := hsince.opened
  have hmem : k ∈ keys log := by
    refine mem_keys.mpr ⟨i, ?_⟩
    rw [hlog, hbefore]
    simp
  exact ⟨⟨since, hsince⟩, List.count_eq_one_of_mem h.keys_nodup hmem⟩

end Out

end Slots

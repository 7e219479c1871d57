import Mathlib.Data.List.Induction
import MmDriver.Service.ServiceRun

/-!
# Registering message handlers

`RegisterMessage` makes room when the id is greater than the size of its table, and then asserts
that the id is less. An id that is equal to the size is neither: the assertion throws, and the
table stays as it is (`register_at_size`). Every other call is the insertion of a finite map that
keeps what it has (`register_spec`).

The size of the table follows from the ids alone (`table_length`), so the calls that throw are
known from the calls.
-/

namespace MmDriver

open Throwing

namespace Service

variable {α : Type}

/-- The handler that is stored for an id. -/
def handlerAt (t : List (Option α)) (id : Nat) : Option α := t[id]?.join

/-- A call with a handler that is not empty: the table, and the answer or what was thrown. -/
def registerStep (t : List (Option α)) (c : Nat × α) : List (Option α) × Except Thrown Bool :=
  let r := exec (registerMessage c.1 (some c.2)) t
  (r.2, r.1)

/-- The size of the table after a call. -/
def grow (n id : Nat) : Nat := if id > n then id + 1 else n

/-- The table with room for the id. -/
def room (t : List (Option α)) (id : Nat) : List (Option α) :=
  if id > t.length then BsVector.resize (id + 1) none t else t

theorem room_length (t : List (Option α)) (id : Nat) : (room t id).length = grow t.length id := by
  unfold room grow
  split
  · next hbig =>
    rw [BsVector.resize, List.length_append, List.take_of_length_le (by omega), List.length_replicate]
    omega
  · rfl

/-- Making room stores nothing. -/
theorem handlerAt_room (t : List (Option α)) (id j : Nat) :
    handlerAt (room t id) j = handlerAt t j := by
  unfold room
  split
  · next hbig =>
    rw [handlerAt, BsVector.resize, List.take_of_length_le (by omega), handlerAt]
    rcases Nat.lt_or_ge j t.length with hj | hj
    · rw [List.getElem?_append_left hj]
    · rw [List.getElem?_append_right hj, List.getElem?_eq_none hj, List.getElem?_replicate]
      split <;> rfl
  · rfl

/-- What a call computes, with an id that may be registered. -/
theorem exec_registerMessage (t : List (Option α)) {id : Nat} (hid : id < 65535) (h : α) :
    exec (registerMessage id (some h)) t =
      if id < (room t id).length then
        if (handlerAt (room t id) id).isSome then (.ok false, room t id)
        else (.ok true, (room t id).set id (some h))
      else (.error (.int 1), room t id) := by
  have hnot : ¬id ≥ messageIdEnd := Nat.not_le_of_lt hid
  have hrest : ∀ u : List (Option α),
      exec (do
        if (← BsVector.get id).join.isSome then return false
        BsVector.put id (some h)
        return true) u =
      if id < u.length then
        if (handlerAt u id).isSome then (.ok false, u) else (.ok true, u.set id (some h))
      else (.error (.int 1), u) := by
    intro u
    simp only [exec_bind, BsVector.exec_get]
    by_cases hin : id < u.length
    · simp only [if_pos hin, exec_ite, exec_bind, BsVector.exec_put, exec_pure]
      have hstored : u[id]?.join = handlerAt u id := rfl
      rw [hstored]
    · simp only [if_neg hin]
  rw [registerMessage, if_neg hnot, exec_bind, exec_get]
  unfold room
  dsimp only
  split
  · rw [exec_bind, exec_modify]
    exact hrest _
  · exact hrest t

/-- A call whose id is the size of the table throws, and leaves the table. -/
theorem register_at_size (t : List (Option α)) {id : Nat} (hid : id < 65535) (h : α)
    (hsize : id = t.length) : registerStep t (id, h) = (t, .error (.int 1)) := by
  have hroom : room t id = t := if_neg (by omega)
  rw [registerStep, exec_registerMessage t hid, hroom, if_neg (by omega)]

/-- Any other call answers whether the id was free, and stores the handler if it was. -/
theorem register_spec (t : List (Option α)) {id : Nat} (hid : id < 65535) (h : α)
    (hsize : id ≠ t.length) :
    (registerStep t (id, h)).2 = .ok (handlerAt t id).isNone ∧
      (∀ j, handlerAt (registerStep t (id, h)).1 j =
        if j = id then (handlerAt t id).or (some h) else handlerAt t j) := by
  have hin : id < (room t id).length := by
    rw [room_length, grow]
    split <;> omega
  rw [registerStep, exec_registerMessage t hid, if_pos hin, handlerAt_room]
  cases hold : handlerAt t id with
  | some old =>
    refine ⟨rfl, fun j => ?_⟩
    simp only [Option.isSome_some, if_true, handlerAt_room, Option.some_or]
    split
    · next heq => rw [heq, hold]
    · rfl
  | none =>
    refine ⟨rfl, fun j => ?_⟩
    simp only [Option.isSome_none, Bool.false_eq_true, if_false, Option.none_or]
    split
    · next heq =>
      rw [heq, handlerAt, List.getElem?_set_self hin]
      rfl
    · next hne =>
      rw [handlerAt, List.getElem?_set_ne (Ne.symm hne), ← handlerAt, handlerAt_room]

/-- The table grows by the id alone, also when the call throws. -/
theorem register_length (t : List (Option α)) {id : Nat} (hid : id < 65535) (h : α) :
    (registerStep t (id, h)).1.length = grow t.length id := by
  rw [registerStep, exec_registerMessage t hid]
  split_ifs
  · exact room_length t id
  · rw [List.length_set]
    exact room_length t id
  · exact room_length t id

/-! ## A sequence of calls -/

/-- The table after a sequence of calls. A call that throws does not end the sequence. -/
def table (calls : List (Nat × α)) : List (Option α) :=
  calls.foldl (fun t c => (registerStep t c).1) []

/-- The size of the table after calls with these ids. -/
def tableSize (ids : List Nat) : Nat := ids.foldl grow 0

theorem table_append (calls : List (Nat × α)) (c : Nat × α) :
    table (calls ++ [c]) = (registerStep (table calls) c).1 := by
  rw [table, List.foldl_append]
  rfl

theorem table_length {calls : List (Nat × α)} (hids : ∀ c ∈ calls, c.1 < 65535) :
    (table calls).length = tableSize (calls.map Prod.fst) := by
  induction calls using List.reverseRecOn with
  | nil => rfl
  | append_singleton calls c ih =>
    have hlast : c.1 < 65535 := hids c (by simp)
    have hlength := ih fun d hd => hids d (List.mem_append_left _ hd)
    rw [table_append, register_length _ hlast, hlength, List.map_append, tableSize, tableSize,
      List.foldl_append]
    rfl

/-- The calls are those of a finite map in which the first value of a key stays: every call answers
whether its id was free, the table has the first handler of every id, and a call changes no other
id's. -/
structure FiniteMap (calls : List (Nat × α)) : Prop where
  replies : ∀ pre c post, calls = pre ++ c :: post →
    (registerStep (table pre) c).2 = .ok (decide (c.1 ∉ pre.map Prod.fst))
  first : ∀ id, handlerAt (table calls) id = calls.lookup id
  others : ∀ pre c post, calls = pre ++ c :: post → ∀ j ≠ c.1,
    handlerAt (table (pre ++ [c])) j = handlerAt (table pre) j

/-- No call has the size of the table for its id. -/
def SizeAvoided (calls : List (Nat × α)) : Prop :=
  ∀ pre c post, calls = pre ++ c :: post → c.1 ≠ tableSize (pre.map Prod.fst)

/-- The calls before one of a sequence, and the one. -/
theorem SizeAvoided.of_append {calls : List (Nat × α)} {c : Nat × α}
    (h : SizeAvoided (calls ++ [c])) :
    SizeAvoided calls ∧ c.1 ≠ tableSize (calls.map Prod.fst) := by
  refine ⟨fun pre d post hcalls => h pre d (post ++ [c]) ?_, h calls c [] rfl⟩
  rw [hcalls, List.append_assoc, List.cons_append]

/-- While the size is avoided, the table has the first handler of every id. -/
theorem handlerAt_table {calls : List (Nat × α)} (hids : ∀ c ∈ calls, c.1 < 65535)
    (hsize : SizeAvoided calls) (id : Nat) : handlerAt (table calls) id = calls.lookup id := by
  induction calls using List.reverseRecOn with
  | nil => rfl
  | append_singleton calls c ih =>
    obtain ⟨newId, handler⟩ := c
    obtain ⟨hbefore, hlast⟩ := hsize.of_append
    have hold : ∀ d ∈ calls, d.1 < 65535 := fun d hd => hids d (List.mem_append_left _ hd)
    have hstep := (register_spec (table calls) (hids (newId, handler) (by simp)) handler
      (by rw [table_length hold]; exact hlast)).2 id
    rw [table_append, hstep, List.lookup_append, ih hold hbefore]
    by_cases heq : id = newId
    · subst heq
      rw [if_pos rfl, ← ih hold hbefore, List.lookup_cons_self]
    · have hother : (id == newId) = false := beq_false_of_ne heq
      rw [if_neg heq, List.lookup_cons, hother]
      simp

/-- **`RegisterMessage` is a finite map** exactly when no call has the size of the table for its
id: the table's size is `0` at first, and one more than the greatest id it had to grow for. -/
theorem finite_map_iff {calls : List (Nat × α)} (hids : ∀ c ∈ calls, c.1 < 65535) :
    FiniteMap calls ↔ SizeAvoided calls := by
  have hpart : ∀ pre c post, calls = pre ++ c :: post →
      c.1 < 65535 ∧ (∀ d ∈ pre, d.1 < 65535) := by
    rintro pre c post rfl
    exact ⟨hids c (by simp), fun d hd => hids d (List.mem_append_left _ hd)⟩
  constructor
  · intro hmap pre c post hcalls hat
    obtain ⟨hc, hpre⟩ := hpart pre c post hcalls
    have hreply := hmap.replies pre c post hcalls
    rw [register_at_size (table pre) hc c.2 (by rw [table_length hpre]; exact hat)] at hreply
    cases hreply
  · intro hsize
    refine ⟨fun pre c post hcalls => ?_, handlerAt_table hids hsize, fun pre c post hcalls j hj => ?_⟩
    · obtain ⟨hc, hpre⟩ := hpart pre c post hcalls
      have hbefore : SizeAvoided pre := by
        intro pre' d post' hpre'
        refine hsize pre' d (post' ++ c :: post) ?_
        rw [hcalls, hpre', List.append_assoc, List.cons_append]
      have hfresh : (handlerAt (table pre) c.1).isNone = decide (c.1 ∉ pre.map Prod.fst) := by
        rw [handlerAt_table hpre hbefore, Bool.eq_iff_iff, Option.isNone_iff_eq_none,
          List.lookup_eq_none_iff, decide_eq_true_eq, List.mem_map, not_exists]
        refine forall_congr' fun d => ?_
        rw [bne_iff_ne, not_and, ne_comm]
      rw [(register_spec (table pre) hc c.2
        (by rw [table_length hpre]; exact hsize pre c post hcalls)).1, hfresh]
    · obtain ⟨hc, hpre⟩ := hpart pre c post hcalls
      rw [table_append, (register_spec (table pre) hc c.2
        (by rw [table_length hpre]; exact hsize pre c post hcalls)).2, if_neg hj]

/-- Three calls, the last one with an id that has a handler. -/
def someCalls : List (Nat × Nat) := [(2, 10), (1, 11), (2, 12)]

theorem finite_map_iff_run : FiniteMap someCalls ↔ SizeAvoided someCalls :=
  finite_map_iff (by decide)

/-- The first call on an empty table, with id 0, throws and registers nothing. -/
theorem first_id_throws :
    registerStep (table []) (0, 10) = ([], .error (.int 1)) ∧ ¬FiniteMap [(0, 10)] := by
  have hthrows : registerStep (table []) (0, 10) = ([], .error (.int 1)) :=
    register_at_size [] (by decide) 10 rfl
  refine ⟨hthrows, fun hmap => ?_⟩
  have hreply := hmap.replies [] (0, 10) [] rfl
  rw [hthrows] at hreply
  cases hreply

end Service

end MmDriver

import MmDriver.Common.LuaObject

/-!
# Reading a value leaves the stack

Every turn of the loop gives back the stack that it found, over an array that may have grown: the
indices count from the top, and mean the table and its key only because of that (`kept`).

The array grows when a table is read that is found with few slots in use. `grownSize` is what it
grows to, however deep tables are nested: from `LUAI_MAXCSTACK` slots on, it stays.
-/

namespace MmDriver

namespace LuaState

variable {L : LuaState} {v : LuaValue} {below : List LuaValue} {m S S' : Nat}

/-! ## Entries and names -/

/-- The state behind a call of `lua_next`: the table is left, and the entry is put on it. -/
def afterNext (L : LuaState) (t : Nat) (below : List LuaValue) : Option LuaEntry → LuaState × Bool
  | some e => (L.withStack (e.2 :: e.1 :: .table t :: below), true)
  | none => (L.withStack (.table t :: below), false)

theorem next_eq {t : Nat} {key : LuaValue} {e : Option LuaEntry}
    (hnext : (L.tables t).next key = some e) :
    (L.withStack (key :: .table t :: below)).next (-2) = some (L.afterNext t below e) := by
  rw [LuaState.next, value?_neg_two]
  dsimp only [withStack_stack, withStack_tables]
  rw [hnext]
  cases e with
  | none => rfl
  | some e => rfl

/-- The name of an entry; there is none where the key is neither a string nor a number. -/
def keyName : LuaValue → Option LuaName
  | .string s => some (strncpyText 256 s)
  | .number x => some (intText x.toInt)
  | _ => none

theorem pname_eq (L : LuaState) (e : LuaEntry) (below : List LuaValue) :
    (L.withStack (e.2 :: e.1 :: below)).pname = keyName e.1 := by
  obtain ⟨k, w⟩ := e
  cases k <;> rfl

theorem type_eq_nil_iff {v : LuaValue} : v.type = .nil ↔ v = .nil := by
  cases v <;> simp [LuaValue.type]

/-! ## The array -/

/-- The array's size behind `lua_checkstack`, for one slot, with `m` slots in use. -/
def checkedSize (L : LuaState) (m S : Nat) : Nat :=
  if m < luaiMaxCStack ∧ S ≤ L.base + m + 7 then 2 * S + 6 else S

/-- The array's size when tables were read that are nested in one another, the first with `m` slots
in use. -/
def grownSize (L : LuaState) (m S : Nat) : Nat :=
  if m < luaiMaxCStack then L.grownSize (m + 2) (L.checkedSize m S) else S
termination_by luaiMaxCStack - m

theorem checkstack_one (hsize : 1 ≤ S) (stack : List LuaValue) :
    (((L.withSize S).withStack stack).checkstack 1).1 =
      (L.withSize (L.checkedSize stack.length S)).withStack stack := by
  rw [checkstack, checkedSize, withStack_stack]
  by_cases hlimit : stack.length < luaiMaxCStack
  · have hroom : ¬(1 > luaiMaxCStack ∨ stack.length + 1 > luaiMaxCStack) := by
      unfold luaiMaxCStack at *
      omega
    have hgrows : (0 < 1 ∧ ((L.withSize S).withStack stack).stacksize ≤
        ((L.withSize S).withStack stack).base + stack.length + 1 + (extraStack + 1)) ↔
        S ≤ L.base + stack.length + 7 := by
      simp only [extraStack, withStack_stacksize, withSize_stacksize, withStack_base, withSize_base]
      omega
    rw [if_neg hroom]
    by_cases hfew : S ≤ L.base + stack.length + 7
    · have hdouble : 1 ≤ ((L.withSize S).withStack stack).stacksize := hsize
      rw [if_pos (hgrows.mpr hfew), if_pos ⟨hlimit, hfew⟩, growstack, if_pos hdouble]
      rfl
    · rw [if_neg fun h => hfew (hgrows.mp h), if_neg fun h => hfew h.2]
  · have hrefuses : 1 > luaiMaxCStack ∨ stack.length + 1 > luaiMaxCStack := by omega
    rw [if_pos hrefuses, if_neg fun h => hlimit h.1]

theorem le_checkedSize (L : LuaState) (m S : Nat) : S ≤ L.checkedSize m S := by
  unfold checkedSize
  split <;> omega

theorem grownSize_of_lt (h : m < luaiMaxCStack) :
    L.grownSize m S = L.grownSize (m + 2) (L.checkedSize m S) := by
  rw [grownSize, if_pos h]

theorem grownSize_of_le (h : luaiMaxCStack ≤ m) (S : Nat) : L.grownSize m S = S := by
  rw [grownSize, if_neg (Nat.not_lt_of_le h)]

/-- A table that is read leaves what the array grows to. -/
theorem grownSize_checked (L : LuaState) (m S : Nat) :
    L.grownSize (m + 2) (L.checkedSize m S) = L.grownSize m S := by
  by_cases h : m < luaiMaxCStack
  · exact (grownSize_of_lt h).symm
  · have hle := Nat.le_of_not_lt h
    rw [grownSize_of_le (Nat.le_add_right_of_le hle), grownSize_of_le hle, checkedSize,
      if_neg fun hlt => h hlt.1]

theorem le_grownSize (L : LuaState) (m S : Nat) : S ≤ L.grownSize m S := by
  by_cases h : m < luaiMaxCStack
  · rw [grownSize_of_lt h]
    exact Nat.le_trans (L.le_checkedSize m S) (L.le_grownSize (m + 2) _)
  · exact Nat.le_of_eq (grownSize_of_le (Nat.le_of_not_lt h) S).symm
termination_by luaiMaxCStack - m

/-- Within the limit there are slots for a table, and for its key and value, once it was checked. -/
theorem checkedSize_of_lt (h : m < luaiMaxCStack) (hin : L.base + m ≤ S) (hpos : 1 ≤ m) :
    L.base + m + 7 < L.checkedSize m S := by
  have hbase := L.base_pos
  unfold checkedSize
  split
  · omega
  · next hmany => omega

/-- A slot that a table's own reading takes is there when it is there in the end. -/
theorem le_checkedSize_iff (hin : L.base + m ≤ S) (hpos : 1 ≤ m) {k : Nat} (hk : k ≤ 2) :
    L.base + m + k ≤ L.checkedSize m S ↔ L.base + m + k ≤ L.grownSize m S := by
  by_cases h : m < luaiMaxCStack
  · have hslots := checkedSize_of_lt h hin hpos
    have hgrown : L.checkedSize m S ≤ L.grownSize m S := by
      rw [grownSize_of_lt h]
      exact L.le_grownSize _ _
    omega
  · rw [grownSize_of_le (Nat.le_of_not_lt h), checkedSize, if_neg fun hlt => h hlt.1]

/-- The array has grown by tables whose reading began with `m` slots in use. -/
structure ArrayGrown (L : LuaState) (m S S' : Nat) : Prop where
  le : S ≤ S'
  same : L.grownSize m S' = L.grownSize m S

theorem ArrayGrown.refl (L : LuaState) (m S : Nat) : L.ArrayGrown m S S := ⟨Nat.le_refl S, rfl⟩

theorem ArrayGrown.trans {S'' : Nat} (h : L.ArrayGrown m S S') (h' : L.ArrayGrown m S' S'') :
    L.ArrayGrown m S S'' :=
  ⟨Nat.le_trans h.le h'.le, h'.same.trans h.same⟩

/-- What was read in a table was read in the reading of the table. -/
theorem ArrayGrown.outer (hin : L.base + m ≤ S) (hpos : 1 ≤ m)
    (h : L.ArrayGrown (m + 2) (L.checkedSize m S) S') : L.ArrayGrown m S S' := by
  refine ⟨Nat.le_trans (L.le_checkedSize m S) h.le, ?_⟩
  rw [← L.grownSize_checked m S, ← h.same, ← L.grownSize_checked m S']
  by_cases hlimit : m < luaiMaxCStack
  · have hslots := checkedSize_of_lt hlimit hin hpos
    have hle := h.le
    rw [checkedSize, if_neg fun hfew => by omega]
  · rw [checkedSize, if_neg fun hlt => hlimit hlt.1]

/-! ## The steps of a reading -/

/-- What is read from a value that is no table. -/
def scalar : LuaValue → Option LuaObject
  | .number x => some (.luanumber [] x)
  | .string s => some (.luastring [] (cText s))
  | _ => none

theorem read_scalar (L : LuaState) (h : v.type ≠ .table) (fuel S : Nat) (below : List LuaValue) :
    getLuaObjectFromStack (fuel + 1) ((L.withSize S).withStack (v :: below)) (-1) =
      some ((L.withSize S).withStack (v :: below), scalar v) := by
  rw [getLuaObjectFromStack, getLuaObjectType, type_neg_one, if_neg h]
  cases v with
  | table t => exact absurd rfl h
  | _ => rfl

/-- A table with a field 1 is an array, and gives no object. -/
theorem read_table (L : LuaState) (t : Nat) (hin : L.base + below.length + 1 ≤ S) (fuel : Nat) :
    let checked := L.checkedSize (below.length + 1) S
    getLuaObjectFromStack (fuel + 1) ((L.withSize S).withStack (.table t :: below)) (-1) =
      if L.base + below.length + 2 ≤ checked then
        if L.rawget t (.number LuaNumber.one) = .nil then
          (getFromStackLoop fuel ((L.withSize checked).withStack (.nil :: .table t :: below))
            fun _ => none).map fun r => (r.1, some (.luatable [] r.2))
        else some ((L.withSize checked).withStack (.table t :: below), none)
      else none := by
  have hsize : 1 ≤ S := by omega
  have hchecked := L.checkstack_one hsize (.table t :: below)
  rw [getLuaObjectFromStack, getLuaObjectType, type_neg_one, LuaValue.type, if_pos rfl]
  rw [List.length_cons] at hchecked
  generalize L.checkedSize (below.length + 1) S = checked at hchecked ⊢
  generalize ((L.withSize S).withStack (.table t :: below)).checkstack 1 = r at hchecked ⊢
  obtain ⟨L', answer⟩ := r
  obtain rfl : L' = _ := hchecked
  dsimp only
  rw [rawgetOne, value?_neg_one]
  dsimp only [push_withStack]
  have hfield : ((L.withSize checked).withStack (.table t :: below)).rawget t
      (.number LuaNumber.one) = L.rawget t (.number LuaNumber.one) := rfl
  simp only [hfield, Option.bind_eq_bind, Option.bind_some]
  by_cases hslot : L.base + below.length + 2 ≤ checked
  · have hpushed : ∀ v : LuaValue, ((L.withSize checked).withStack (v :: .table t :: below)).inSlots =
        some ((L.withSize checked).withStack (v :: .table t :: below)) := fun v => inSlots_of_le hslot
    simp only [if_pos hslot, hpushed, Option.bind_some, type_neg_one, pop_one, type_eq_nil_iff]
    by_cases hnil : L.rawget t (.number LuaNumber.one) = .nil
    · simp only [if_pos hnil, push_withStack, hpushed, Option.bind_some]
      rw [Option.map_eq_bind]
      rfl
    · rw [if_neg hnil, if_neg hnil]
  · have hpushed : ∀ v : LuaValue, ((L.withSize checked).withStack (v :: .table t :: below)).inSlots =
        none := fun v => inSlots_of_lt (Nat.lt_of_not_le hslot)
    rw [if_neg hslot, hpushed]
    rfl

/-- No entry is left. -/
theorem loop_ends {t : Nat} {key : LuaValue} (hnext : (L.tables t).next key = some none)
    (fuel S : Nat) (keyObjs : LuaObjectMap) :
    getFromStackLoop (fuel + 1) ((L.withSize S).withStack (key :: .table t :: below)) keyObjs =
      some ((L.withSize S).withStack (.table t :: below), keyObjs) := by
  have hnext' : ((L.withSize S).tables t).next key = some none := hnext
  rw [getFromStackLoop, next_eq hnext']
  rfl

/-- A turn of the loop for an entry. -/
theorem loop_turn {t : Nat} {key : LuaValue} {e : LuaEntry}
    (hnext : (L.tables t).next key = some (some e)) (fuel S : Nat) (keyObjs : LuaObjectMap) :
    getFromStackLoop (fuel + 1) ((L.withSize S).withStack (key :: .table t :: below)) keyObjs =
      if L.base + below.length + 3 ≤ S then
        match keyName e.1 with
        | some pname =>
          (getLuaObjectFromStack fuel
              ((L.withSize S).withStack (e.2 :: e.1 :: .table t :: below)) (-1)).bind fun r =>
            (r.1.pop 1).bind fun L' => getFromStackLoop fuel L' (insertObject keyObjs pname r.2)
        | none => some ((L.withSize S).withStack (.table t :: below), keyObjs)
      else none := by
  have hnext' : ((L.withSize S).tables t).next key = some (some e) := hnext
  rw [getFromStackLoop, next_eq hnext', Option.bind_eq_bind, Option.bind_some, afterNext]
  dsimp only
  rw [if_pos rfl]
  by_cases hslot : L.base + below.length + 3 ≤ S
  · have hpushed : ((L.withSize S).withStack (e.2 :: e.1 :: .table t :: below)).inSlots =
        some ((L.withSize S).withStack (e.2 :: e.1 :: .table t :: below)) := inSlots_of_le hslot
    simp only [if_pos hslot, hpushed, Option.bind_eq_bind, Option.bind_some, pname_eq]
    cases keyName e.1 with
    | some pname => rfl
    | none =>
      dsimp only
      rw [pop_two, Option.bind_some]
  · have hpushed : ((L.withSize S).withStack (e.2 :: e.1 :: .table t :: below)).inSlots = none :=
      inSlots_of_lt (Nat.lt_of_not_le hslot)
    rw [if_neg hslot, hpushed]
    rfl

/-! ## The stack is kept -/

/-- The reading of a value, if it returns, leaves the stack, and a turn of the loop the table. -/
theorem kept (L : LuaState) (fuel : Nat) :
    (∀ (v : LuaValue) (below : List LuaValue) (S : Nat) (r : LuaState × Option LuaObject),
      L.base + below.length + 1 ≤ S →
      getLuaObjectFromStack fuel ((L.withSize S).withStack (v :: below)) (-1) = some r →
      ∃ S', L.ArrayGrown (below.length + 1) S S' ∧ r.1 = (L.withSize S').withStack (v :: below)) ∧
    ∀ (t : Nat) (key : LuaValue) (below : List LuaValue) (S : Nat) (keyObjs : LuaObjectMap)
      (r : LuaState × LuaObjectMap), L.base + below.length + 1 ≤ S →
      getFromStackLoop fuel ((L.withSize S).withStack (key :: .table t :: below)) keyObjs = some r →
      ∃ S', L.ArrayGrown (below.length + 3) S S' ∧
        r.1 = (L.withSize S').withStack (.table t :: below) := by
  induction fuel with
  | zero => exact ⟨fun _ _ _ _ _ h => (by cases h), fun _ _ _ _ _ _ _ h => (by cases h)⟩
  | succ fuel ih =>
    obtain ⟨ihvalue, ihloop⟩ := ih
    constructor
    · intro v below S r hin h
      by_cases htable : v.type = .table
      · obtain ⟨t, rfl⟩ : ∃ t, v = .table t := by
          cases v with
          | table t => exact ⟨t, rfl⟩
          | _ => cases htable
        have houter : ∀ {S'}, L.ArrayGrown (below.length + 3) (L.checkedSize (below.length + 1) S) S' →
            L.ArrayGrown (below.length + 1) S S' := ArrayGrown.outer (by omega) (by omega)
        have hchecked := L.le_checkedSize (below.length + 1) S
        rw [L.read_table t hin fuel] at h
        split at h
        · split at h
          · obtain ⟨r', hloop, rfl⟩ := Option.map_eq_some_iff.mp h
            obtain ⟨S', hgrown, hleft⟩ := ihloop t .nil below _ _ r' (by omega) hloop
            exact ⟨S', houter hgrown, hleft⟩
          · rw [← Option.some.inj h]
            exact ⟨_, houter (.refl L _ _), rfl⟩
        · cases h
      · rw [L.read_scalar htable] at h
        rw [← Option.some.inj h]
        exact ⟨S, .refl L _ S, rfl⟩
    · intro t key below S keyObjs r hin h
      cases hnext : (L.tables t).next key with
      | none =>
        have hnext' : ((L.withSize S).withStack (key :: .table t :: below)).next (-2) = none := by
          rw [LuaState.next, value?_neg_two]
          simp only [withStack_stack, withStack_tables, withSize_tables, hnext]
        rw [getFromStackLoop, hnext'] at h
        cases h
      | some entry =>
        cases entry with
        | none =>
          rw [loop_ends hnext] at h
          rw [← Option.some.inj h]
          exact ⟨S, .refl L _ S, rfl⟩
        | some e =>
          rw [loop_turn hnext] at h
          split at h
          · next hslot =>
            cases hname : keyName e.1 with
            | none =>
              rw [hname] at h
              rw [← Option.some.inj h]
              exact ⟨S, .refl L _ S, rfl⟩
            | some pname =>
              rw [hname] at h
              obtain ⟨r', hread, h⟩ := Option.bind_eq_some_iff.mp h
              obtain ⟨S', hgrown, hleft⟩ := ihvalue _ (e.1 :: .table t :: below) S r' hslot hread
              rw [hleft, pop_one, Option.bind_some] at h
              have hle := hgrown.le
              obtain ⟨S'', hgrown', hleft'⟩ := ihloop t e.1 below S' _ r (by omega) h
              exact ⟨S'', hgrown.trans hgrown', hleft'⟩
          · cases h

end LuaState

end MmDriver

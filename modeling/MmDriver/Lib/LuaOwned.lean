import MmDriver.Lib.Lua

/-!
# Tables of Lua that nothing else refers to

Some tables, the registry among them, are a program's own: no other table has them as a value, no
`__index` leads to them, and no function returns them that is called for it. Then what is read from the
other tables is never an own one, and what is written by name into the other tables leaves the own ones
alone.
-/

namespace MmDriver

namespace LuaState

variable {call : Nat → LuaValue → LuaValue → Option LuaValue} {own : Nat → Prop} {L L' L'' : LuaState}
  {v w : LuaValue} {t : Nat} {k : List UInt8}

/-- A value that is not an own table. -/
def Outer (L : LuaState) (own : Nat → Prop) (v : LuaValue) : Prop :=
  ∀ t, v = .table t → t < L.tableCount ∧ ¬own t

theorem outer_table : L.Outer own (.table t) ↔ t < L.tableCount ∧ ¬own t :=
  ⟨fun h => h t rfl, fun h _ ht => LuaValue.table.inj ht ▸ h⟩

theorem outer_of_type (h : v.type ≠ .table) : L.Outer own v := by
  intro t ht
  rw [ht] at h
  exact absurd rfl h

theorem Outer.mono (h : L.Outer own v) (hcount : L.tableCount ≤ L'.tableCount) : L'.Outer own v :=
  fun t ht => ⟨Nat.lt_of_lt_of_le (h t ht).1 hcount, (h t ht).2⟩

/-- The next table's number is not one that a value has already. -/
theorem Outer.newown (h : L.Outer own v) (hcount : L.tableCount < L'.tableCount) :
    L'.Outer (fun t => own t ∨ t = L.tableCount) v :=
  fun t ht => ⟨Nat.lt_trans (h t ht).1 hcount, fun hor => hor.elim (h t ht).2 (Nat.ne_of_lt (h t ht).1)⟩

/-- Nothing but the own tables refers to an own table. -/
structure Closed (call : Nat → LuaValue → LuaValue → Option LuaValue) (own : Nat → Prop)
    (L : LuaState) : Prop where
  registry : own L.registry
  hidden : ∀ v, L.metatable? v ≠ some L.registry
  bound : ∀ t, own t → t < L.tableCount
  globals : L.Outer own (.table L.globals)
  fields : ∀ t, ¬own t → ∀ key, L.Outer own (L.rawget t key)
  index : ∀ v, L.Outer own (L.indexMethod v)
  calls : ∀ f v key w, call f v key = some w → L.Outer own w

/-- Where a value that is indexed comes from. -/
theorem gettable_cases {key : LuaValue} {loop : Nat}
    (h : L.gettable call key (loop + 1) v = some w) :
    w = .nil ∨ (∃ t, v = .table t ∧ w = L.rawget t key) ∨ (∃ f, call f v key = some w) ∨
      L.gettable call key loop (L.indexMethod v) = some w := by
  unfold LuaState.gettable at h
  split at h
  · next t =>
    dsimp only at h
    split at h
    · exact .inr (.inl ⟨t, rfl, (Option.some.inj h).symm⟩)
    · split at h
      · split at h
        · exact .inl (Option.some.inj h).symm
        · cases h
      · exact .inr (.inr (.inl ⟨_, h⟩))
      · exact .inr (.inr (.inr h))
  · dsimp only at h
    split at h
    · exact .inl (Option.some.inj h).symm
    · split at h
      · split at h
        · exact .inl (Option.some.inj h).symm
        · cases h
      · exact .inr (.inr (.inl ⟨_, h⟩))
      · exact .inr (.inr (.inr h))

/-- Indexing what is not an own table gives no own table. -/
theorem Closed.gettable (h : L.Closed call own) {key : LuaValue} {loop : Nat} (hv : L.Outer own v)
    (hget : L.gettable call key loop v = some w) : L.Outer own w := by
  induction loop generalizing v with
  | zero => cases hget
  | succ loop ih =>
    rcases gettable_cases hget with rfl | ⟨t, rfl, rfl⟩ | ⟨f, hcall⟩ | hnext
    · exact outer_of_type LuaType.noConfusion
    · exact h.fields t (hv t rfl).2 key
    · exact h.calls f v key w hcall
    · exact ih (h.index v) hnext

/-- What is left by writing text fields outside the own tables. -/
structure Grown (call : Nat → LuaValue → LuaValue → Option LuaValue) (own : Nat → Prop)
    (L L' : LuaState) : Prop where
  closed : L'.Closed call own
  same : ∀ t, own t → L'.tables t = L.tables t
  others : ∀ t, t < L.tableCount → ∀ key, (∀ s, key ≠ .string s) → L'.rawget t key = L.rawget t key
  registry : L'.registry = L.registry
  globals : L'.globals = L.globals
  count : L.tableCount ≤ L'.tableCount

theorem Closed.withStack (h : L.Closed call own) (stack : List LuaValue) :
    (L.withStack stack).Closed call own :=
  ⟨h.registry, h.hidden, h.bound, h.globals, h.fields, h.index, h.calls⟩

theorem Grown.withStack (h : Grown call own L L') (stack : List LuaValue) :
    Grown call own L (L'.withStack stack) :=
  ⟨h.closed.withStack stack, h.same, h.others, h.registry, h.globals, h.count⟩

theorem Grown.refl (h : L.Closed call own) : Grown call own L L :=
  ⟨h, fun _ _ => rfl, fun _ _ _ _ => rfl, rfl, rfl, Nat.le_refl _⟩

theorem Grown.trans (h : Grown call own L L') (h' : Grown call own L' L'') :
    Grown call own L L'' where
  closed := h'.closed
  same := fun t ht => (h'.same t ht).trans (h.same t ht)
  others := fun t ht key hkey =>
    (h'.others t (Nat.lt_of_lt_of_le ht h.count) key hkey).trans (h.others t ht key hkey)
  registry := h'.registry.trans h.registry
  globals := h'.globals.trans h.globals
  count := Nat.le_trans h.count h'.count

theorem Grown.outer (h : Grown call own L L') (hv : L.Outer own v) : L'.Outer own v :=
  hv.mono h.count

/-! ## Writing -/

theorem metatable?_rawset (t : Nat) (key value v : LuaValue) :
    (L.rawset t key value).metatable? v = L.metatable? v := by
  cases v with
  | table t' => exact L.rawset_metatable t key value t'
  | _ => rfl

/-- What `__index` leads to where the metatables have it. -/
theorem outer_indexMethod (h : ∀ m, L.metatable? v = some m →
    L.Outer own (L.rawget m (.string (luaText "__index")))) : L.Outer own (L.indexMethod v) := by
  rw [indexMethod]
  cases hmetatable : L.metatable? v with
  | none => exact outer_of_type LuaType.noConfusion
  | some m => exact h m hmetatable

theorem Closed.rawget_index (h : L.Closed call own) {m : Nat} (hm : L.metatable? v = some m) :
    L.Outer own (L.rawget m (.string (luaText "__index"))) := by
  have hindex := h.index v
  rw [indexMethod, hm] at hindex
  exact hindex

theorem rawget_rawset_text (t' : Nat) (key : LuaValue) :
    (L.rawset t (.string k) v).rawget t' key =
      if t' = t ∧ key = .string k then v else L.rawget t' key :=
  rawget_rawset L (fun _ h => LuaValue.noConfusion h) LuaValue.noConfusion t v t' key

theorem tables_rawset_self (t : Nat) (key value : LuaValue) :
    (L.rawset t key value).tables t = (L.tables t).set key value :=
  Function.update_self _ _ _

theorem tables_rawset_of_ne {t' : Nat} (h : t' ≠ t) (key value : LuaValue) :
    (L.rawset t key value).tables t' = L.tables t' :=
  Function.update_of_ne h _ _

theorem tables_newtable_of_ne (h : t ≠ L.tableCount) : L.newtable.tables t = L.tables t :=
  Function.update_of_ne h _ _

theorem tables_newtable_self : L.newtable.tables L.tableCount = .empty := Function.update_self _ _ _

theorem rawget_rawset_of_ne {t' : Nat} (h : t' ≠ t) (key value key' : LuaValue) :
    (L.rawset t key value).rawget t' key' = L.rawget t' key' :=
  congrArg (LuaTable.get · key') (tables_rawset_of_ne h key value)

/-- A text field of another table. -/
theorem Closed.rawset (h : L.Closed call own) (ht : ¬own t) (hv : L.Outer own v) (k : List UInt8) :
    Grown call own L (L.rawset t (.string k) v) where
  closed :=
    { registry := h.registry
      hidden := fun v' => by
        rw [metatable?_rawset]
        exact h.hidden v'
      bound := h.bound
      globals := h.globals
      fields := fun t' ht' key => by
        rw [rawget_rawset_text]
        split
        · exact hv
        · exact h.fields t' ht' key
      index := fun v' => outer_indexMethod fun m hm => by
        rw [metatable?_rawset] at hm
        rw [rawget_rawset_text]
        split
        · exact hv
        · exact h.rawget_index hm
      calls := h.calls }
  same := fun t' ht' => tables_rawset_of_ne (fun heq : t' = t => ht (heq ▸ ht')) _ _
  others := fun t' _ key hkey => by
    rw [rawget_rawset_text, if_neg fun h => hkey k h.2]
  registry := rfl
  globals := rfl
  count := Nat.le_refl _

theorem rawget_newtable (t : Nat) (key : LuaValue) :
    L.newtable.rawget t key = if t = L.tableCount then .nil else L.rawget t key := by
  rw [rawget, newtable]
  dsimp only
  split
  · next h =>
    rw [h, Function.update_self]
    rfl
  · next h =>
    rw [Function.update_of_ne h]
    rfl

theorem metatable?_newtable {m : Nat} (h : L.newtable.metatable? v = some m) :
    L.metatable? v = some m := by
  cases v with
  | table t =>
    by_cases ht : t = L.tableCount
    · rw [metatable?, newtable, ht] at h
      dsimp only at h
      rw [Function.update_self] at h
      cases h
    · rw [metatable?, newtable] at h
      dsimp only at h
      rw [Function.update_of_ne ht] at h
      exact h
  | _ => exact h

/-- A new table. -/
theorem Closed.newtable (h : L.Closed call own) : Grown call own L L.newtable where
  closed :=
    { registry := h.registry
      hidden := fun v hv => h.hidden v (metatable?_newtable hv)
      bound := fun t ht => Nat.lt_succ_of_lt (h.bound t ht)
      globals := h.globals.mono (Nat.le_succ _)
      fields := fun t ht key => by
        rw [rawget_newtable]
        split
        · exact outer_of_type LuaType.noConfusion
        · exact (h.fields t ht key).mono (Nat.le_succ _)
      index := fun v => outer_indexMethod fun m hm => by
        rw [rawget_newtable]
        split
        · exact outer_of_type LuaType.noConfusion
        · exact (h.rawget_index (metatable?_newtable hm)).mono (Nat.le_succ _)
      calls := fun f v key w hcall => (h.calls f v key w hcall).mono (Nat.le_succ _) }
  same := fun t ht => tables_newtable_of_ne (Nat.ne_of_lt (h.bound t ht))
  others := fun t ht key _ => by
    rw [rawget_newtable, if_neg (Nat.ne_of_lt ht)]
  registry := rfl
  globals := rfl
  count := Nat.le_succ _

theorem Closed.outer_newtable (h : L.Closed call own) :
    L.newtable.Outer own (.table L.tableCount) :=
  outer_table.mpr ⟨Nat.lt_succ_self _, fun hown => Nat.lt_irrefl _ (h.bound _ hown)⟩

theorem rawget_withMetatable (t : Nat) (m : Option Nat) (t' : Nat) (key : LuaValue) :
    (L.withMetatable (.table t) m).rawget t' key = L.rawget t' key := by
  rw [rawget, withMetatable]
  dsimp only
  by_cases h : t' = t
  · rw [h, Function.update_self]
    rfl
  · rw [Function.update_of_ne h]
    rfl

theorem metatable?_withMetatable (t : Nat) (m : Option Nat) :
    (L.withMetatable (.table t) m).metatable? v =
      if v = .table t then m else L.metatable? v := by
  cases v with
  | table t' =>
    rw [metatable?, withMetatable]
    dsimp only
    by_cases h : t' = t
    · rw [h, Function.update_self, if_pos rfl]
    · rw [Function.update_of_ne h, if_neg fun heq => h (LuaValue.table.inj heq)]
      rfl
  | _ => rfl

/-- A metatable for another table, which is not an own one either. -/
theorem Closed.withMetatable (h : L.Closed call own) (ht : ¬own t) {m : Nat} (hm : ¬own m) :
    Grown call own L (L.withMetatable (.table t) (some m)) where
  closed :=
    { registry := h.registry
      hidden := fun v hv => by
        rw [metatable?_withMetatable] at hv
        split at hv
        · exact hm (Option.some.inj hv ▸ h.registry)
        · exact h.hidden v hv
      bound := h.bound
      globals := h.globals
      fields := fun t' ht' key => by
        rw [rawget_withMetatable]
        exact h.fields t' ht' key
      index := fun v => outer_indexMethod fun m' hm' => by
        rw [metatable?_withMetatable] at hm'
        rw [rawget_withMetatable]
        split at hm'
        · rw [← Option.some.inj hm']
          exact h.fields m hm _
        · exact h.rawget_index hm'
      calls := h.calls }
  same := fun t' ht' => Function.update_of_ne (fun heq : t' = t => ht (heq ▸ ht')) _ _
  others := fun t' _ key _ => rawget_withMetatable t (some m) t' key
  registry := rfl
  globals := rfl
  count := Nat.le_refl _

/-- A field of an own table, which `__index` leads to only if it is another value. -/
theorem Closed.rawset_own (h : L.Closed call own) (ht : own t)
    (hv : k = luaText "__index" → L.Outer own v) : (L.rawset t (.string k) v).Closed call own where
  registry := h.registry
  hidden := fun v' => by
    rw [metatable?_rawset]
    exact h.hidden v'
  bound := h.bound
  globals := h.globals
  fields := fun t' ht' key => by
    have hne : t' ≠ t := fun hsame => ht' (hsame ▸ ht)
    rw [rawget_rawset_of_ne hne]
    exact h.fields t' ht' key
  index := fun v' => outer_indexMethod fun m hm => by
    rw [metatable?_rawset] at hm
    rw [rawget_rawset_text]
    split
    · next hsame => exact hv (LuaValue.string.inj hsame.2).symm
    · exact h.rawget_index hm
  calls := h.calls

/-- A new table that only the registry refers to is one more own table. -/
theorem Closed.newown (h : L.Closed call own) (k : List UInt8) :
    (L.newtable.rawset L.registry (.string k) (.table L.tableCount)).Closed call
      fun t => own t ∨ t = L.tableCount := by
  have hnew := h.newtable.closed
  have houter : ∀ {v}, L.Outer own v → L.newtable.Outer (fun t => own t ∨ t = L.tableCount) v :=
    fun hv => hv.newown (Nat.lt_succ_self _)
  have hread : ∀ t, ¬own t → ∀ key,
      L.newtable.Outer (fun t => own t ∨ t = L.tableCount) (L.newtable.rawget t key) := by
    intro t ht key
    rw [rawget_newtable]
    split
    · exact outer_of_type LuaType.noConfusion
    · exact houter (h.fields t ht key)
  exact
    { registry := .inl h.registry
      hidden := fun v => by
        rw [metatable?_rawset]
        exact hnew.hidden v
      bound := fun t ht => ht.elim (hnew.bound t) fun hsame => Nat.lt_succ_of_le (Nat.le_of_eq hsame)
      globals := houter h.globals
      fields := fun t ht key => by
        have hne : t ≠ L.registry := fun hsame => ht (.inl (hsame ▸ h.registry))
        rw [rawget_rawset_of_ne hne]
        exact hread t (fun hown => ht (.inl hown)) key
      index := fun v => outer_indexMethod fun m hm => by
        rw [metatable?_rawset] at hm
        have hne : m ≠ L.registry := fun hsame => hnew.hidden v (hm.trans (congrArg some hsame))
        rw [rawget_rawset_of_ne hne, rawget_newtable]
        split
        · exact outer_of_type LuaType.noConfusion
        · exact houter (h.rawget_index (metatable?_newtable hm))
      calls := fun f v key w hcall => houter (h.calls f v key w hcall) }

/-! ## The functions of `lauxlib` -/

/-- A call that leaves a table on top of the stack which is not an own one. -/
structure LeavesOuter (call : Nat → LuaValue → LuaValue → Option LuaValue) (own : Nat → Prop)
    (L L' : LuaState) (t : Nat) (below : List LuaValue) : Prop where
  stack : L'.stack = .table t :: below
  outer : L'.Outer own (.table t)
  grown : Grown call own L L'

theorem Closed.findtable (h : L.Closed call own) {parts : List (List UInt8)}
    (ht : L.Outer own (.table t)) (hfind : L.findtable t parts = some L') :
    ∃ t', LeavesOuter call own L L' t' L.stack := by
  induction parts generalizing L t with
  | nil =>
    rw [LuaState.findtable] at hfind
    rw [← Option.some.inj hfind]
    exact ⟨t, rfl, ht, (Grown.refl h).withStack _⟩
  | cons part rest ih =>
    rw [LuaState.findtable] at hfind
    split at hfind
    · have hnew := (h.newtable).withStack L.stack
      have hmade : (L.newtable.withStack L.stack).Outer own (.table L.tableCount) := h.outer_newtable
      have hset := hnew.closed.rawset (outer_table.mp ht).2 hmade part
      obtain ⟨L₁, hwritten, hfind⟩ := Option.bind_eq_some_iff.mp hfind
      rw [eq_rawset_of_settable _ hwritten] at hfind
      obtain ⟨t', hleaves⟩ := ih hset.closed (hset.outer hmade) hfind
      exact ⟨t', hleaves.stack, hleaves.outer, (hnew.trans hset).trans hleaves.grown⟩
    · next t' hfield =>
      have hfields := h.fields t (outer_table.mp ht).2 (.string part)
      rw [hfield] at hfields
      exact ih h hfields hfind
    · cases hfind

theorem Closed.setfuncs (h : L.Closed call own) {below : List LuaValue} (ht : L.Outer own (.table t))
    (hstack : L.stack = .table t :: below) {flist : List (List UInt8 × Nat)}
    (hset : L.setfuncs flist = some L') : LeavesOuter call own L L' t below := by
  induction flist generalizing L with
  | nil =>
    rw [LuaState.setfuncs] at hset
    rw [← Option.some.inj hset]
    exact ⟨hstack, ht, Grown.refl h⟩
  | cons f rest ih =>
    have hpush : L.push (.function f.2) = L.withStack (.function f.2 :: .table t :: below) := by
      rw [push, hstack]
    have hfunction : L.Outer own (.function f.2) := outer_of_type LuaType.noConfusion
    have hone := (h.rawset (outer_table.mp ht).2 hfunction f.1).withStack (.table t :: below)
    rw [LuaState.setfuncs, hpush] at hset
    have hrest := ih hone.closed (hone.outer ht) rfl (of_setfield_neg_two L hset)
    exact ⟨hrest.stack, hrest.outer, hone.trans hrest.grown⟩

/-- The table that a name is registered with. -/
theorem Closed.register (h : L.Closed call own) {loaded : Nat} (hloaded : ¬own loaded)
    (hcount : loaded < L.tableCount)
    (hfield : L.rawget L.registry (.string (luaText "_LOADED")) = .table loaded)
    {libname : List UInt8} {flist : List (List UInt8 × Nat)}
    (hregister : L.register call libname flist = some L') :
    ∃ lib, LeavesOuter call own L L' lib L.stack := by
  have hfind : L.findtable L.registry [luaText "_LOADED"] = some (L.push (.table loaded)) := by
    rw [LuaState.findtable, hfield]
    rfl
  have htop : (L.push (.table loaded)).value? (-1) = some (.table loaded) := rfl
  rw [LuaState.register, hfind] at hregister
  simp only [Option.bind_eq_bind, Option.bind_some, htop] at hregister
  obtain ⟨L₁, hget, hregister⟩ := Option.bind_eq_some_iff.mp hregister
  obtain ⟨w, hw, rfl⟩ := Option.map_eq_some_iff.mp hget
  have hpushed := (Grown.refl h).withStack (.table loaded :: L.stack)
  have houter : L.Outer own (.table loaded) := outer_table.mpr ⟨hcount, hloaded⟩
  have hwouter : L.Outer own w := hpushed.closed.gettable houter hw
  -- What is under the library's table is taken away, whether it was made or found.
  have hrest : ∀ {L₂ : LuaState} {lib : Nat},
      LeavesOuter call own L L₂ lib (.table loaded :: L.stack) →
      (L₂.removeSecond.bind fun L => L.setfuncs flist) = some L' →
      LeavesOuter call own L L' lib L.stack := by
    intro L₂ lib hleaves hsome
    have hremove : L₂.removeSecond = some (L₂.withStack (.table lib :: L.stack)) := by
      rw [removeSecond, replaceSecond, hleaves.stack]
    rw [hremove, Option.bind_some] at hsome
    have hgrown := hleaves.grown.withStack (.table lib :: L.stack)
    have hset := hgrown.closed.setfuncs hleaves.outer rfl hsome
    exact ⟨hset.stack, hset.outer, hgrown.trans hset.grown⟩
  split at hregister
  · next htype =>
    cases w with
    | table lib =>
      have hleaves : LeavesOuter call own L ((L.push (.table loaded)).push (.table lib)) lib
          (.table loaded :: L.stack) := ⟨rfl, hwouter, (Grown.refl h).withStack _⟩
      exact ⟨lib, hrest hleaves hregister⟩
    | _ => cases htype
  · have hpop : ((L.push (.table loaded)).push w).pop 1 = some (L.push (.table loaded)) :=
      pop_one L w _
    rw [hpop, Option.bind_some] at hregister
    obtain ⟨L₃, hfound, hregister⟩ := Option.bind_eq_some_iff.mp hregister
    obtain ⟨lib, hleaves⟩ := hpushed.closed.findtable h.globals hfound
    have hvalue : L₃.pushvalue (-1) = some (L₃.push (.table lib)) := by
      rw [pushvalue, value?, hleaves.stack]
      rfl
    have hpush : L₃.push (.table lib) =
        L₃.withStack (.table lib :: .table lib :: .table loaded :: L.stack) := by
      rw [push, hleaves.stack]
      rfl
    rw [hvalue, Option.bind_some, hpush] at hregister
    have hregister := of_setfield_neg_three L₃ hregister
    have hlib := hleaves.grown.closed.rawset hloaded hleaves.outer libname
    have hmade : LeavesOuter call own L ((L₃.rawset loaded (.string libname) (.table lib)).withStack
        (.table lib :: .table loaded :: L.stack)) lib (.table loaded :: L.stack) :=
      ⟨rfl, hlib.outer hleaves.outer, (hpushed.trans (hleaves.grown.trans hlib)).withStack _⟩
    exact ⟨lib, hrest hmade hregister⟩

/-- A name that the registry does not have yet gets a new metatable. -/
theorem newmetatable_eq (h : (L.tables L.registry).metatable = none) {tname : List UInt8}
    (hfield : L.rawget L.registry (.string tname) = .nil) :
    L.newmetatable call tname =
      some ((L.newtable.rawset L.registry (.string tname) (.table L.tableCount)).withStack
        (.table L.tableCount :: L.stack)) := by
  have hpop : (L.push .nil).pop 1 = some L := pop_one L .nil L.stack
  have htop : L.newtable.pushvalue (-1) = some (L.newtable.push (.table L.tableCount)) := rfl
  have hnil : ¬(L.push .nil).type (-1) ≠ .nil := not_not.mpr rfl
  have hnone : L.newtable.metatable? (.table L.registry) = none := by
    cases hnew : L.newtable.metatable? (.table L.registry) with
    | none => rfl
    | some m => exact (metatable?_newtable hnew).symm.trans h
  have hset : (L.newtable.push (.table L.tableCount)).settable L.registry (.string tname)
      (.table L.tableCount) = some ((L.newtable.push (.table L.tableCount)).rawset L.registry
        (.string tname) (.table L.tableCount)) := settable_of_no_metatable (L.newtable.push _) hnone _ _
  rw [newmetatable, getfield, gettable_of_no_metatable L h, hfield]
  simp only [Option.map_some, Option.bind_eq_bind, Option.bind_some, hpop, htop]
  rw [if_neg hnil]
  exact congrArg (Option.map _) hset

end LuaState

end MmDriver

import MmDriver.Common.LuaBinder
import MmDriver.Lib.LuaOwned

/-!
# The classes that `Init` exports

A class's metatable stands in the registry under its name, and its `_base` is the base's metatable.
These tables are the binder's own: `Init` writes to them, and to tables that lead to none of them.
-/

namespace MmDriver

/-- A class, with the name of its base. -/
structure LuaClass where
  name : List UInt8
  base : Option (List UInt8)
deriving DecidableEq, Repr

/-- The classes in the order in which they were exported, the last one first. A name is exported once,
and a base before what is derived from it. -/
inductive IsHierarchy : List LuaClass → Prop
  | nil : IsHierarchy []
  | cons (c : LuaClass) (rest : List LuaClass) (hname : ∀ d ∈ rest, d.name ≠ c.name)
      (hbase : ∀ b, c.base = some b → ∃ d ∈ rest, d.name = b) (hrest : IsHierarchy rest) :
      IsHierarchy (c :: rest)

namespace IsHierarchy

variable {classes later : List LuaClass} {c d : LuaClass}

theorem base_mem (h : IsHierarchy classes) (hc : c ∈ classes) {b : List UInt8}
    (hb : c.base = some b) : ∃ d ∈ classes, d.name = b := by
  induction h with
  | nil => cases hc
  | cons e rest _ hbase _ ih =>
    rcases List.mem_cons.mp hc with rfl | hrest
    · obtain ⟨d, hd, hname⟩ := hbase b hb
      exact ⟨d, .tail _ hd, hname⟩
    · obtain ⟨d, hd, hname⟩ := ih hrest
      exact ⟨d, .tail _ hd, hname⟩

/-- A name is that of one class. -/
theorem eq_of_name (h : IsHierarchy classes) (hc : c ∈ classes) (hd : d ∈ classes)
    (hname : c.name = d.name) : c = d := by
  induction h with
  | nil => cases hc
  | cons e rest hne _ _ ih =>
    rcases List.mem_cons.mp hc with rfl | hcold
    · rcases List.mem_cons.mp hd with rfl | hdold
      · rfl
      · exact absurd hname.symm (hne d hdold)
    · rcases List.mem_cons.mp hd with rfl | hdold
      · exact absurd hname (hne c hcold)
      · exact ih hcold hdold

/-- What was exported first is a hierarchy by itself. -/
theorem of_append (h : IsHierarchy (later ++ classes)) : IsHierarchy classes := by
  induction later with
  | nil => exact h
  | cons e later ih =>
    cases h with
    | cons _ _ _ _ hrest => exact ih hrest

theorem name_ne (h : IsHierarchy (later ++ c :: classes)) (hd : d ∈ later) : d.name ≠ c.name := by
  induction later with
  | nil => cases hd
  | cons e later ih =>
    cases h with
    | cons _ _ hname _ hrest =>
      rcases List.mem_cons.mp hd with rfl | hlater
      · exact (hname c (List.mem_append_right _ (.head _))).symm
      · exact ih hrest hlater

end IsHierarchy

namespace LuaState

variable {call : Nat → LuaValue → LuaValue → Option LuaValue} {L L' : LuaState} {own : Nat → Prop}
  {tname : List UInt8}

/-! ## What is looked up -/

/-- What the registry has under a class's name. -/
def classField (L : LuaState) (tname : List UInt8) : LuaValue := L.rawget L.registry (.string tname)

/-- The metatable that is registered under a name. -/
def classOf (L : LuaState) (tname : List UInt8) : Option Nat :=
  match L.classField tname with
  | .table m => some m
  | _ => none

/-- What a class with that base has as its `_base`. -/
def baseField (L : LuaState) (base : Option (List UInt8)) : LuaValue :=
  (base.map L.classField).getD .nil

theorem classOf_eq_some {m : Nat} : L.classOf tname = some m ↔ L.classField tname = .table m := by
  rw [classOf]
  cases L.classField tname with
  | table m' => simp
  | _ => simp

theorem getClass_eq (h : (L.tables L.registry).metatable = none) (tname : List UInt8)
    (below : List LuaValue) :
    (L.withStack below).getClass call tname = some (L.withStack (L.classField tname :: below)) := by
  have hregistry : ((L.withStack below).tables (L.withStack below).registry).metatable = none := h
  rw [getClass, getfield, gettable_of_no_metatable _ hregistry]
  rfl

/-- The metatables of the classes. Scripts may have any other tables and userdata. -/
structure Exported (L : LuaState) (classes : List LuaClass) : Prop where
  registry : (L.tables L.registry).metatable = none
  metatable : ∀ c ∈ classes, ∃ m, L.classOf c.name = some m ∧ (L.tables m).metatable = none ∧
    L.rawget m (.string (luaText "_base")) = L.baseField c.base
  apart : ∀ c ∈ classes, ∀ d ∈ classes, L.classField c.name = L.classField d.name → c.name = d.name

/-! ## One class -/

/-- A class's metatable is there, with its `_base`; the other own tables are as they were. -/
structure ClassMade (call : Nat → LuaValue → LuaValue → Option LuaValue) (own : Nat → Prop)
    (L L' : LuaState) (tname : List UInt8) (base : LuaValue) (m : Nat) : Prop where
  closed : L'.Closed call fun t => own t ∨ t = m
  fresh : L.tableCount ≤ m
  registry : L'.registry = L.registry
  globals : L'.globals = L.globals
  registered : L'.tables L.registry = (L.tables L.registry).set (.string tname) (.table m)
  same : ∀ t, own t → t ≠ L.registry → L'.tables t = L.tables t
  metatable : (L'.tables m).metatable = none
  base : L'.rawget m (.string (luaText "_base")) = base
  others : ∀ t, t < L.tableCount → ∀ key, (∀ s, key ≠ .string s) → L'.rawget t key = L.rawget t key

/-- The environment is a new table, which is its own metatable. -/
theorem initEnvironment_eq (h : L.Closed call own) :
    ∃ L', L.initEnvironment = some L' ∧ L'.stack = L.stack ∧ Grown call own L L' := by
  have hnew := h.newtable
  have hown : ¬own L.tableCount := (outer_table.mp h.outer_newtable).2
  have hmode : L.newtable.Outer own (.string (luaText "v")) := outer_of_type LuaType.noConfusion
  have hset := (hnew.closed.rawset hown hmode (luaText "__mode")).withStack
    (.table L.tableCount :: L.stack)
  have hmetatable := hset.closed.withMetatable hown hown
  refine ⟨_, ?_, ?_, (hnew.trans (hset.trans hmetatable)).withStack L.stack⟩
  · have hnone : L.newtable.metatable? (.table L.tableCount) = none :=
      congrArg LuaTable.metatable tables_newtable_self
    have hset : (L.newtable.push (.string (luaText "v"))).setfield (-2) (luaText "__mode") =
        some ((L.newtable.rawset L.tableCount (.string (luaText "__mode"))
          (.string (luaText "v"))).withStack (.table L.tableCount :: L.stack)) :=
      congrArg (Option.map _) (settable_of_no_metatable (L.newtable.push _) hnone _ _)
    rw [initEnvironment, hset]
    exact pop_one _ _ _
  · rfl

/-- The state with a metatable for a class whose methods are in the table `lib`, without its base. -/
def withClass (L : LuaState) (tname : List UInt8) (lib destroy : Nat) : LuaState :=
  ((L.newtable.rawset L.registry (.string tname) (.table L.tableCount)).rawset L.tableCount
    (.string (luaText "__index")) (.table lib)).rawset L.tableCount (.string (luaText "__gc"))
      (.function destroy)

section WithClass

variable {lib destroy : Nat}

theorem withClass_others {t : Nat} (ht : t < L.tableCount) {key : LuaValue}
    (hkey : ∀ s, key ≠ .string s) :
    (L.withClass tname lib destroy).rawget t key = L.rawget t key := by
  have hnew : t ≠ L.tableCount := Nat.ne_of_lt ht
  rw [withClass, rawget_rawset_of_ne hnew, rawget_rawset_of_ne hnew, rawget_rawset_text,
    if_neg fun hsame => hkey _ hsame.2, rawget_newtable, if_neg hnew]

theorem withClass_metatable : ((L.withClass tname lib destroy).tables L.tableCount).metatable = none := by
  rw [withClass, rawset_metatable, rawset_metatable, rawset_metatable, tables_newtable_self]
  rfl

variable (h : L.Closed call own) (hlib : L.Outer own (.table lib))

include h

include hlib in
theorem withClass_closed :
    (L.withClass tname lib destroy).Closed call fun t => own t ∨ t = L.tableCount :=
  ((h.newown tname).rawset_own (.inr rfl) fun _ => hlib.newown (Nat.lt_succ_self _)).rawset_own (.inr rfl)
    fun hgc => by cases hgc

theorem withClass_registry : (L.withClass tname lib destroy).tables L.registry =
    (L.tables L.registry).set (.string tname) (.table L.tableCount) := by
  have hne : L.registry ≠ L.tableCount := Nat.ne_of_lt (h.bound _ h.registry)
  rw [withClass, tables_rawset_of_ne hne, tables_rawset_of_ne hne, tables_rawset_self,
    tables_newtable_of_ne hne]

theorem withClass_same {t : Nat} (ht : own t) (hne : t ≠ L.registry) :
    (L.withClass tname lib destroy).tables t = L.tables t := by
  have hnew : t ≠ L.tableCount := Nat.ne_of_lt (h.bound _ ht)
  rw [withClass, tables_rawset_of_ne hnew, tables_rawset_of_ne hnew, tables_rawset_of_ne hne,
    tables_newtable_of_ne hnew]

theorem withClass_base :
    (L.withClass tname lib destroy).rawget L.tableCount (.string (luaText "_base")) = .nil := by
  have hne : L.tableCount ≠ L.registry := (Nat.ne_of_lt (h.bound _ h.registry)).symm
  have hgc : LuaValue.string (luaText "_base") ≠ .string (luaText "__gc") := by decide
  have hindex : LuaValue.string (luaText "_base") ≠ .string (luaText "__index") := by decide
  rw [withClass, rawget_rawset_text, if_neg fun h => hgc h.2, rawget_rawset_text,
    if_neg fun h => hindex h.2, rawget_rawset_of_ne hne, rawget_newtable, if_pos rfl]

end WithClass

theorem withClass_made (h : L.Closed call own) (hgrown : Grown call own L L') {lib : Nat}
    (hlib : L'.Outer own (.table lib)) (tname : List UInt8) (destroy : Nat) :
    ClassMade call own L (L'.withClass tname lib destroy) tname .nil L'.tableCount where
  closed := withClass_closed hgrown.closed hlib
  fresh := hgrown.count
  registry := hgrown.registry
  globals := hgrown.globals
  registered := by
    rw [← hgrown.same _ h.registry, ← hgrown.registry]
    exact withClass_registry hgrown.closed
  same := fun t ht hne => by
    rw [← hgrown.registry] at hne
    rw [withClass_same hgrown.closed ht hne, hgrown.same t ht]
  metatable := withClass_metatable
  base := withClass_base hgrown.closed
  others := fun t ht key hkey => by
    rw [withClass_others (Nat.lt_of_lt_of_le ht hgrown.count) hkey]
    exact hgrown.others t ht key hkey

/-- The base is another class, so `_base` is set to what was there before. -/
theorem ClassMade.withBase {v base : LuaValue} {m : Nat} (h : L.Closed call own)
    (hmade : ClassMade call own L L' tname v m) :
    ClassMade call own L (L'.rawset m (.string (luaText "_base")) base) tname base m where
  closed := hmade.closed.rawset_own (.inr rfl) fun hindex => by cases hindex
  fresh := hmade.fresh
  registry := hmade.registry
  globals := hmade.globals
  registered := by
    have hne : L.registry ≠ m := Nat.ne_of_lt (Nat.lt_of_lt_of_le (h.bound _ h.registry) hmade.fresh)
    rw [tables_rawset_of_ne hne, hmade.registered]
  same := fun t ht hne => by
    have hm : t ≠ m := Nat.ne_of_lt (Nat.lt_of_lt_of_le (h.bound t ht) hmade.fresh)
    rw [tables_rawset_of_ne hm, hmade.same t ht hne]
  metatable := by rw [rawset_metatable, hmade.metatable]
  base := by rw [rawget_rawset_text, if_pos ⟨rfl, rfl⟩]
  others := fun t ht key hkey => by
    rw [rawget_rawset_text, if_neg fun hsame => hkey _ hsame.2, hmade.others t ht key hkey]

/-- What is written outside the own tables afterwards changes nothing about the class. -/
theorem ClassMade.grown {L'' : LuaState} {base : LuaValue} {m : Nat} (h : L.Closed call own)
    (hmade : ClassMade call own L L' tname base m)
    (hgrown : Grown call (fun t => own t ∨ t = m) L' L'') :
    ClassMade call own L L'' tname base m where
  closed := hgrown.closed
  fresh := hmade.fresh
  registry := hgrown.registry.trans hmade.registry
  globals := hgrown.globals.trans hmade.globals
  registered := (hgrown.same _ (.inl h.registry)).trans hmade.registered
  same := fun t ht hne => (hgrown.same t (.inl ht)).trans (hmade.same t ht hne)
  metatable := by rw [hgrown.same m (.inr rfl), hmade.metatable]
  base := by
    rw [rawget, hgrown.same m (.inr rfl)]
    exact hmade.base
  others := fun t ht key hkey => by
    have hm : m < L'.tableCount := hmade.closed.bound m (.inr rfl)
    have hlt : t < L'.tableCount := Nat.lt_trans (Nat.lt_of_lt_of_le ht hmade.fresh) hm
    rw [hgrown.others t hlt key hkey, hmade.others t ht key hkey]

theorem ClassMade.classField {base : LuaValue} {m : Nat}
    (hmade : ClassMade call own L L' tname base m) (name : List UInt8) :
    L'.classField name = if name = tname then .table m else L.classField name := by
  have hget : ((L.tables L.registry).set (.string tname) (.table m)).get (.string name) = _ :=
    LuaTable.get_set (fun _ h => LuaValue.noConfusion h) _ LuaValue.noConfusion _ _
  rw [LuaState.classField, hmade.registry, rawget, hmade.registered, hget]
  simp only [LuaValue.string.injEq]
  rfl

theorem ClassMade.no_metatable {base : LuaValue} {m : Nat}
    (hmade : ClassMade call own L L' tname base m)
    (hregistry : (L.tables L.registry).metatable = none) :
    (L'.tables L'.registry).metatable = none := by
  rw [hmade.registry, hmade.registered, LuaTable.set_metatable, hregistry]

theorem Closed.initClass (h : L.Closed call own)
    (hregistry : (L.tables L.registry).metatable = none) {loaded : Nat}
    (hloaded : L.Outer own (.table loaded))
    (hfield : L.rawget L.registry (.string (luaText "_LOADED")) = .table loaded)
    (hfresh : L.classField tname = .nil) {bname : Option (List UInt8)} (hbase : bname ≠ some tname)
    {flist : List (List UInt8 × Nat)} {destroy : Nat}
    (hinit : L.initClass call tname bname flist destroy = some L') :
    ∃ m, ClassMade call own L L' tname (L.baseField bname) m := by
  obtain ⟨L₁, henv, -, hgrown₁⟩ := initEnvironment_eq h
  rw [LuaState.initClass, henv] at hinit
  simp only [Option.bind_eq_bind, Option.bind_some] at hinit
  obtain ⟨L₂, hregister, hinit⟩ := Option.bind_eq_some_iff.mp hinit
  have hfield₁ : L₁.rawget L₁.registry (.string (luaText "_LOADED")) = .table loaded := by
    rw [hgrown₁.registry, rawget, hgrown₁.same _ h.registry]
    exact hfield
  have hloaded₁ := outer_table.mp (hgrown₁.outer hloaded)
  obtain ⟨lib, hleaves⟩ := hgrown₁.closed.register hloaded₁.2 hloaded₁.1 hfield₁ hregister
  have hgrown := hgrown₁.trans hleaves.grown
  have hsame : L₂.tables L₂.registry = L.tables L.registry := by
    rw [hgrown.registry, hgrown.same _ h.registry]
  have hmeta : L₂.newmetatable call tname = _ :=
    newmetatable_eq (by rw [hsame, hregistry]) (by rw [rawget, hsame]; exact hfresh)
  rw [hmeta, hleaves.stack] at hinit
  rw [Option.bind_some, pushvalue_neg_two, Option.bind_some] at hinit
  replace hinit := of_setfield_neg_two _ hinit
  rw [push_withStack] at hinit
  replace hinit := of_setfield_neg_two _ hinit
  rw [← withClass] at hinit
  have hmade := withClass_made h hgrown hleaves.outer tname destroy
  refine ⟨L₂.tableCount, ?_⟩
  cases bname with
  | none =>
    rw [← Option.some.inj ((pop_one _ _ _).symm.trans hinit)]
    exact hmade.grown h ((Grown.refl hmade.closed).withStack _)
  | some b =>
    have hclass : getClass call ((L₂.withClass tname lib destroy).withStack
        (.table L₂.tableCount :: .table lib :: L₁.stack)) b = _ :=
      getClass_eq (hmade.no_metatable hregistry) b _
    have hb : (L₂.withClass tname lib destroy).classField b = L.classField b := by
      rw [hmade.classField, if_neg fun hsame => hbase (congrArg some hsame)]
    rw [hb] at hclass
    dsimp only at hinit
    rw [hclass] at hinit
    rw [Option.bind_some] at hinit
    replace hinit := of_setfield_neg_two _ hinit
    rw [pop_one, Option.bind_some] at hinit
    obtain ⟨L₃, hget, hinit⟩ := Option.bind_eq_some_iff.mp hinit
    obtain ⟨w, hw, rfl⟩ := Option.map_eq_some_iff.mp hget
    have hbased : ClassMade call own L _ tname (L.classField b) L₂.tableCount := hmade.withBase h
    have hclosed := hbased.closed.withStack (.table lib :: L₁.stack)
    have hlib := outer_table.mp (hleaves.outer.newown (hbased.closed.bound _ (.inr rfl)))
    have hindex := hbased.closed.rawset hlib.2 (hclosed.gettable hclosed.globals hw)
      (luaText "__index")
    have hmetatable := hindex.closed.withMetatable hlib.2 hlib.2
    rw [push_withStack] at hinit
    replace hinit := of_setfield_neg_two _ hinit
    rw [pushvalue_neg_one, Option.bind_some, setmetatable_neg_two] at hinit
    rw [← Option.some.inj hinit]
    exact hbased.grown h ((hindex.trans hmetatable).withStack _)

/-! ## All classes -/

/-- The binder's own tables: the registry, and the metatables of the classes. -/
def Own (L : LuaState) (classes : List LuaClass) (t : Nat) : Prop :=
  t = L.registry ∨ ∃ c ∈ classes, L.classOf c.name = some t

/-- A state with the classes that were exported so far. Without classes, it is what the libraries of
Lua leave: `package.loaded` stands in the registry, and nothing leads to the registry. -/
structure Inited (call : Nat → LuaValue → LuaValue → Option LuaValue) (L : LuaState)
    (classes : List LuaClass) : Prop where
  closed : L.Closed call (L.Own classes)
  exported : L.Exported classes
  hidden : ∀ c ∈ classes, L.classOf c.name ≠ some L.registry
  loaded : ∃ t, L.rawget L.registry (.string (luaText "_LOADED")) = .table t ∧
    L.Outer (L.Own classes) (.table t)

section Made

variable {classes : List LuaClass} {c d : LuaClass} {m : Nat} (h : L.Inited call classes)
  (hclasses : IsHierarchy (c :: classes))
  (hmade : ClassMade call (L.Own classes) L L' c.name (L.baseField c.base) m)

include hmade

theorem ClassMade.classField_of_ne {name : List UInt8} (hne : name ≠ c.name) :
    L'.classField name = L.classField name := by
  rw [hmade.classField, if_neg hne]

theorem ClassMade.classOf_new : L'.classOf c.name = some m := by
  rw [classOf_eq_some, hmade.classField, if_pos rfl]

/-- The new metatable's number is none that was used before. -/
theorem ClassMade.ne {t : Nat} (ht : t < L.tableCount) : t ≠ m :=
  Nat.ne_of_lt (Nat.lt_of_lt_of_le ht hmade.fresh)

include hclasses

theorem ClassMade.classField_old (hd : d ∈ classes) : L'.classField d.name = L.classField d.name := by
  cases hclasses with
  | cons _ _ hname _ _ => exact hmade.classField_of_ne (hname d hd)

theorem ClassMade.classOf_old (hd : d ∈ classes) : L'.classOf d.name = L.classOf d.name := by
  rw [classOf, classOf, hmade.classField_old hclasses hd]

theorem ClassMade.own_eq : L'.Own (c :: classes) = fun t => L.Own classes t ∨ t = m := by
  funext t
  apply propext
  rw [Own, Own, hmade.registry, or_assoc]
  refine or_congr_right ⟨?_, ?_⟩
  · rintro ⟨d, hd, hclass⟩
    rcases List.mem_cons.mp hd with rfl | hold
    · exact .inr (Option.some.inj (hclass.symm.trans hmade.classOf_new))
    · exact .inl ⟨d, hold, (hmade.classOf_old hclasses hold).symm.trans hclass⟩
  · rintro (⟨d, hd, hclass⟩ | rfl)
    · exact ⟨d, .tail _ hd, (hmade.classOf_old hclasses hd).trans hclass⟩
    · exact ⟨c, .head _, hmade.classOf_new⟩

/-- Every base was exported before, so its metatable is what it was. -/
theorem ClassMade.baseField_eq (hd : d ∈ c :: classes) : L'.baseField d.base = L.baseField d.base := by
  cases hb : d.base with
  | none => rfl
  | some b =>
    have hmem : ∃ e ∈ classes, e.name = b := by
      cases hclasses with
      | cons _ _ _ hbase hrest =>
        rcases List.mem_cons.mp hd with rfl | hold
        · exact hbase b hb
        · exact hrest.base_mem hold hb
    obtain ⟨e, he, rfl⟩ := hmem
    exact hmade.classField_old hclasses he

include h

omit hclasses in
/-- The other classes' metatables are what they were. -/
theorem ClassMade.tables_old (hd : d ∈ classes) {m' : Nat} (hm' : L.classOf d.name = some m') :
    L'.tables m' = L.tables m' ∧ m' ≠ m := by
  have hown : L.Own classes m' := .inr ⟨d, hd, hm'⟩
  have hne : m' ≠ L.registry := fun hsame => h.hidden d hd (hm'.trans (congrArg some hsame))
  exact ⟨hmade.same m' hown hne, hmade.ne (h.closed.bound m' hown)⟩

theorem ClassMade.exported : L'.Exported (c :: classes) where
  registry := hmade.no_metatable h.exported.registry
  metatable := by
    intro d hd
    rw [hmade.baseField_eq hclasses hd]
    rcases List.mem_cons.mp hd with rfl | hold
    · exact ⟨m, hmade.classOf_new, hmade.metatable, hmade.base⟩
    · obtain ⟨m', hm', hmetatable, hbase⟩ := h.exported.metatable d hold
      have hsame := (hmade.tables_old h hold hm').1
      refine ⟨m', (hmade.classOf_old hclasses hold).trans hm', by rw [hsame, hmetatable], ?_⟩
      rw [rawget, hsame]
      exact hbase
  apart := by
    have hapart : ∀ d ∈ classes, L'.classField d.name ≠ L'.classField c.name := by
      intro d hd heq
      rw [classOf_eq_some.mp hmade.classOf_new, hmade.classField_old hclasses hd] at heq
      exact (hmade.tables_old h hd (classOf_eq_some.mpr heq)).2 rfl
    intro d hd e he heq
    rcases List.mem_cons.mp hd with rfl | hdold
    · rcases List.mem_cons.mp he with rfl | heold
      · rfl
      · exact absurd heq.symm (hapart e heold)
    · rcases List.mem_cons.mp he with rfl | heold
      · exact absurd heq (hapart d hdold)
      · rw [hmade.classField_old hclasses hdold, hmade.classField_old hclasses heold] at heq
        exact h.exported.apart d hdold e heold heq

theorem ClassMade.inited (hfresh : L.classField c.name = .nil) : L'.Inited call (c :: classes) where
  closed := hmade.own_eq hclasses ▸ hmade.closed
  exported := hmade.exported h hclasses
  hidden := by
    intro d hd
    rw [hmade.registry]
    rcases List.mem_cons.mp hd with rfl | hold
    · rw [hmade.classOf_new]
      exact fun hsame =>
        hmade.ne (h.closed.bound _ h.closed.registry) (Option.some.inj hsame).symm
    · rw [hmade.classOf_old hclasses hold]
      exact h.hidden d hold
  loaded := by
    obtain ⟨loaded, hfield, houter⟩ := h.loaded
    have hne : luaText "_LOADED" ≠ c.name := by
      intro hsame
      rw [LuaState.classField, ← hsame, hfield] at hfresh
      cases hfresh
    refine ⟨loaded, (hmade.classField_of_ne hne).trans hfield, ?_⟩
    obtain ⟨hlt, hnot⟩ := outer_table.mp houter
    have hcount : m < L'.tableCount := hmade.closed.bound m (.inr rfl)
    rw [hmade.own_eq hclasses]
    exact outer_table.mpr ⟨Nat.lt_trans (Nat.lt_of_lt_of_le hlt hmade.fresh) hcount,
      fun hor => hor.elim hnot (hmade.ne hlt)⟩

end Made

/-- A call of `Init`. -/
structure ClassInit where
  cls : LuaClass
  flist : List (List UInt8 × Nat)
  destroy : Nat

/-- The calls of `Init`, one after another. -/
def initClasses (call : Nat → LuaValue → LuaValue → Option LuaValue) :
    LuaState → List ClassInit → Option LuaState
  | L, [] => some L
  | L, i :: rest =>
    (L.initClass call i.cls.name i.cls.base i.flist i.destroy).bind fun L => initClasses call L rest

/-- The classes of some calls, the last one first, before those that were exported already. -/
def exportedAfter (inits : List ClassInit) (classes : List LuaClass) : List LuaClass :=
  (inits.map ClassInit.cls).reverse ++ classes

/-- What `Init` leaves alone in the globals. -/
def SameOthers (L L' : LuaState) : Prop :=
  ∀ key, (∀ s, key ≠ .string s) → L'.rawget L'.globals key = L.rawget L.globals key

theorem exportedAfter_cons (i : ClassInit) (rest : List ClassInit) (classes : List LuaClass) :
    exportedAfter (i :: rest) classes = exportedAfter rest (i.cls :: classes) := by
  rw [exportedAfter, exportedAfter, List.map_cons, List.reverse_cons, List.append_assoc]
  rfl

/-- Whatever is exported in the order of a hierarchy is there afterwards. -/
theorem Inited.initClasses {classes : List LuaClass} (h : L.Inited call classes)
    {inits : List ClassInit} (hfresh : ∀ i ∈ inits, L.classField i.cls.name = .nil)
    (hclasses : IsHierarchy (exportedAfter inits classes))
    (hinit : L.initClasses call inits = some L') :
    L'.Inited call (exportedAfter inits classes) ∧ L.SameOthers L' := by
  induction inits generalizing L classes with
  | nil =>
    rw [LuaState.initClasses] at hinit
    rw [← Option.some.inj hinit]
    exact ⟨h, fun _ _ => rfl⟩
  | cons i rest ih =>
    rw [LuaState.initClasses] at hinit
    rw [exportedAfter_cons] at hclasses ⊢
    obtain ⟨L₁, hfirst, hrest⟩ := Option.bind_eq_some_iff.mp hinit
    have hhead : IsHierarchy (i.cls :: classes) := hclasses.of_append
    have hself : i.cls.base ≠ some i.cls.name := by
      intro hb
      cases hhead with
      | cons _ _ hname hbase _ =>
        obtain ⟨d, hd, hsame⟩ := hbase _ hb
        exact hname d hd hsame
    obtain ⟨loaded, hfield, hloaded⟩ := h.loaded
    have hnew := hfresh i (.head _)
    obtain ⟨m, hmade⟩ := h.closed.initClass h.exported.registry hloaded hfield hnew hself hfirst
    have hfresh₁ : ∀ j ∈ rest, L₁.classField j.cls.name = .nil := by
      intro j hj
      have hlater : j.cls ∈ (rest.map ClassInit.cls).reverse :=
        List.mem_reverse.mpr (List.mem_map_of_mem hj)
      rw [hmade.classField_of_ne (hclasses.name_ne hlater), hfresh j (.tail _ hj)]
    obtain ⟨hinited, hothers⟩ := ih (hmade.inited h hhead hnew) hfresh₁ hclasses hrest
    refine ⟨hinited, fun key hkey => ?_⟩
    rw [hothers key hkey, hmade.globals]
    exact hmade.others _ (outer_table.mp h.closed.globals).1 key hkey

/-! ## Two classes -/

/-- A state of Lua with nothing in its globals, where the registry has `package.loaded`. -/
def openedState : LuaState where
  stack := []
  tables := Function.update (fun _ => .empty) 0
    (LuaTable.empty.set (.string (luaText "_LOADED")) (.table 2))
  userdata := fun _ => ⟨none, none⟩
  typeMetatable := fun _ => none
  globals := 1
  registry := 0
  tableCount := 3
  userdataCount := 0

theorem openedState_tables {t : Nat} (h : t ≠ 0) : openedState.tables t = .empty := by
  rw [openedState]
  dsimp only
  rw [Function.update_of_ne h]

theorem openedState_metatable? (v : LuaValue) : openedState.metatable? v = none := by
  cases v with
  | table t =>
    by_cases ht : t = 0
    · rw [ht]
      rfl
    · exact congrArg LuaTable.metatable (openedState_tables ht)
  | _ => rfl

theorem openedState_own {t : Nat} : openedState.Own [] t ↔ t = 0 :=
  or_iff_left fun ⟨_, hc, _⟩ => List.not_mem_nil hc

theorem openedState_inited : openedState.Inited (fun _ _ _ => none) [] where
  closed :=
    { registry := .inl rfl
      hidden := fun v hv => by
        rw [openedState_metatable?] at hv
        cases hv
      bound := fun t ht => by
        rw [openedState_own.mp ht]
        decide
      globals := outer_table.mpr ⟨by decide, fun hown => by cases openedState_own.mp hown⟩
      fields := fun t ht key => by
        rw [rawget, openedState_tables fun hzero => ht (openedState_own.mpr hzero)]
        exact outer_of_type LuaType.noConfusion
      index := fun v => outer_indexMethod fun m hm => by
        rw [openedState_metatable?] at hm
        cases hm
      calls := fun _ _ _ _ hcall => by cases hcall }
  exported :=
    { registry := openedState_metatable? (.table 0)
      metatable := fun _ hc => absurd hc List.not_mem_nil
      apart := fun _ hc => absurd hc List.not_mem_nil }
  hidden := fun _ hc => absurd hc List.not_mem_nil
  loaded := ⟨2, by decide +kernel, outer_table.mpr ⟨by decide, fun hown => by
    cases openedState_own.mp hown⟩⟩

/-- An object, and a user that is derived from it. -/
def objectAndUser : List ClassInit :=
  [⟨⟨luaText "Obj", none⟩, [], 0⟩,
    ⟨⟨luaText "ObjUser", some (luaText "Obj")⟩, [(luaText "GetObjUserID", 1)], 0⟩]

theorem objectAndUser_isHierarchy : IsHierarchy (exportedAfter objectAndUser []) := by
  have hbase : ∀ b, (none : Option (List UInt8)) = some b → ∃ d ∈ ([] : List LuaClass), d.name = b :=
    fun _ hb => by cases hb
  refine .cons _ _ ?_ ?_ (.cons _ _ (List.forall_mem_nil _) hbase .nil)
  · decide
  · intro b hb
    exact ⟨_, .head _, Option.some.inj hb⟩

theorem objectAndUser_isSome :
    (openedState.initClasses (fun _ _ _ => none) objectAndUser).isSome := by
  decide +kernel

/-- The state with the two classes. -/
def classState : LuaState :=
  (openedState.initClasses (fun _ _ _ => none) objectAndUser).get objectAndUser_isSome

theorem classState_inited : classState.Inited (fun _ _ _ => none) (exportedAfter objectAndUser []) ∧
    openedState.SameOthers classState :=
  openedState_inited.initClasses (by decide +kernel) objectAndUser_isHierarchy
    (Option.some_get objectAndUser_isSome).symm

end LuaState

end MmDriver

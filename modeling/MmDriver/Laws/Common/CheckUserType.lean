import MmDriver.Laws.Common.PushUserType

/-!
# Checking an object

The loop of `CheckUserType` goes from the value's metatable along `_base` until it meets the metatable
of the class. Where the value has no metatable, `lua_getmetatable` puts nothing on the stack, so the
loop goes from the metatable of the class, and compares it with what the caller had on top.
-/

namespace MmDriver

/-- A class and one it is derived from, if it is not the class itself. -/
inductive Derives (classes : List LuaClass) : List UInt8 → List UInt8 → Prop
  | refl (c : LuaClass) (hc : c ∈ classes) : Derives classes c.name c.name
  | base (c : LuaClass) (hc : c ∈ classes) (b a : List UInt8) (hb : c.base = some b)
      (h : Derives classes b a) : Derives classes c.name a

theorem Derives.target_mem {classes : List LuaClass} {name a : List UInt8}
    (h : Derives classes name a) : ∃ d ∈ classes, d.name = a := by
  induction h with
  | refl c hc => exact ⟨c, hc, rfl⟩
  | base _ _ _ _ _ _ ih => exact ih

section Hierarchy

variable {classes rest : List LuaClass} {c d : LuaClass} {a : List UInt8}

theorem derives_iff (h : IsHierarchy classes) (hc : c ∈ classes) :
    Derives classes c.name a ↔ a = c.name ∨ ∃ b, c.base = some b ∧ Derives classes b a := by
  constructor
  · intro hderives
    generalize hname : c.name = name at hderives
    cases hderives with
    | refl d hd => exact .inl rfl
    | base d hd b a hb hrest =>
      rw [← h.eq_of_name hc hd hname] at hb
      exact .inr ⟨b, hb, hrest⟩
  · rintro (rfl | ⟨b, hb, hderives⟩)
    · exact .refl c hc
    · exact .base c hc b a hb hderives

/-- A class that is exported later is no base of those before it. -/
theorem derives_cons_iff (h : IsHierarchy (c :: rest)) (hd : d ∈ rest) :
    Derives (c :: rest) d.name a ↔ Derives rest d.name a := by
  cases h with
  | cons _ _ hname _ hrest =>
    constructor
    · intro hderives
      generalize hsame : d.name = name at hderives
      induction hderives generalizing d with
      | refl e he =>
        rcases List.mem_cons.mp he with rfl | hold
        · exact absurd hsame (hname d hd)
        · exact .refl e hold
      | base e he b a hb _ ih =>
        rcases List.mem_cons.mp he with rfl | hold
        · exact absurd hsame (hname d hd)
        · obtain ⟨f, hf, hfname⟩ := hrest.base_mem hold hb
          exact .base e hold b a hb (hfname ▸ ih hf hfname)
    · intro hderives
      generalize d.name = name at hderives
      induction hderives with
      | refl e he => exact .refl e (.tail _ he)
      | base e he b a hb _ ih => exact .base e (.tail _ he) b a hb ih

end Hierarchy

namespace LuaState

variable {call : Nat → LuaValue → LuaValue → Option LuaValue} {L : LuaState} {index : Int}
  {cur x : LuaValue} {below : List LuaValue}

/-! ## The loop -/

/-- Going along `_base` from a value ends at something that is no table, and does not meet `x`. -/
inductive EndsApart (call : Nat → LuaValue → LuaValue → Option LuaValue) (L : LuaState)
    (x : LuaValue) : LuaValue → Prop
  | done (cur : LuaValue) (h : cur.type ≠ .table) : EndsApart call L x cur
  | step (cur next : LuaValue) (htable : cur.type = .table) (hne : cur.rawEqual x = false)
      (hnext : L.gettable call (.string (luaText "_base")) 100 cur = some next)
      (h : EndsApart call L x next) : EndsApart call L x cur

theorem checkLoop_done (h : cur.type ≠ .table) (fuel : Nat) :
    checkLoop call index (fuel + 1) (L.withStack (cur :: below)) = some .typeError := by
  rw [checkLoop, type_neg_one, if_neg h]

theorem checkLoop_found (h : cur.type = .table) (hequal : cur.rawEqual x = true) (fuel : Nat) :
    checkLoop call index (fuel + 1) (L.withStack (cur :: x :: below)) =
      some ((L.withStack below).unbox index) := by
  have hrawequal : (L.withStack (cur :: x :: below)).rawequal (-1) (-2) = true := hequal
  rw [checkLoop, type_neg_one, if_pos h, if_pos hrawequal, pop_two]
  rfl

theorem checkLoop_step (h : cur.type = .table) (hne : cur.rawEqual x = false) {next : LuaValue}
    (hnext : L.gettable call (.string (luaText "_base")) 100 cur = some next) (fuel : Nat) :
    checkLoop call index (fuel + 1) (L.withStack (cur :: x :: below)) =
      checkLoop call index fuel (L.withStack (next :: x :: below)) := by
  have hrawequal : (L.withStack (cur :: x :: below)).rawequal (-1) (-2) = false := hne
  have hget : (L.withStack (cur :: x :: below)).getfield call cur (luaText "_base") =
      some (L.withStack (next :: cur :: x :: below)) := by
    rw [getfield, gettable_withStack, hnext]
    rfl
  rw [checkLoop, type_neg_one, if_pos h, hrawequal, value?_neg_one, Option.map_some, hget]
  rfl

theorem checkLoop_error (h : cur.type = .table) (hne : cur.rawEqual x = false)
    (hnext : L.gettable call (.string (luaText "_base")) 100 cur = none) (fuel : Nat) :
    checkLoop call index (fuel + 1) (L.withStack (cur :: x :: below)) = some .otherError := by
  have hrawequal : (L.withStack (cur :: x :: below)).rawequal (-1) (-2) = false := hne
  have hget : (L.withStack (cur :: x :: below)).getfield call cur (luaText "_base") = none := by
    rw [getfield, gettable_withStack, hnext]
    rfl
  rw [checkLoop, type_neg_one, if_pos h, hrawequal, value?_neg_one, Option.map_some, hget]
  rfl

theorem unbox_ne_typeError : L.unbox index ≠ .typeError := by
  rw [unbox]
  split
  · split
    · exact Checked.noConfusion
    · exact Checked.noConfusion
  · exact Checked.noConfusion

/-- A type error is raised just where the walk ends without a match. -/
theorem checkLoop_typeError_iff : (∃ fuel,
    checkLoop call index fuel (L.withStack (cur :: x :: below)) = some .typeError) ↔
      EndsApart call L x cur := by
  constructor
  · rintro ⟨fuel, h⟩
    induction fuel generalizing cur with
    | zero => cases h
    | succ fuel ih =>
      by_cases htable : cur.type = .table
      · cases hequal : cur.rawEqual x with
        | true =>
          rw [checkLoop_found htable hequal] at h
          exact absurd (Option.some.inj h) unbox_ne_typeError
        | false =>
          cases hnext : L.gettable call (.string (luaText "_base")) 100 cur with
          | none =>
            rw [checkLoop_error htable hequal hnext] at h
            cases h
          | some next =>
            rw [checkLoop_step htable hequal hnext] at h
            exact .step cur next htable hequal hnext (ih h)
      · exact .done cur htable
  · intro h
    induction h with
    | done cur h => exact ⟨1, checkLoop_done h 0⟩
    | step cur next htable hne hnext _ ih =>
      obtain ⟨fuel, hfuel⟩ := ih
      exact ⟨fuel + 1, (checkLoop_step htable hne hnext fuel).trans hfuel⟩

/-! ## Along the bases -/

section Bases

variable {classes : List LuaClass} {c : LuaClass} (hexported : L.Exported classes) (hc : c ∈ classes)

include hexported hc

/-- A class's metatable, and what its `_base` is. -/
theorem Exported.gettable_base (call : Nat → LuaValue → LuaValue → Option LuaValue) :
    (L.classField c.name).type = .table ∧ L.gettable call (.string (luaText "_base")) 100
      (L.classField c.name) = some (L.baseField c.base) := by
  obtain ⟨m, hm, hmetatable, hbase⟩ := hexported.metatable c hc
  rw [classOf_eq_some.mp hm, gettable_of_no_metatable L hmetatable, hbase]
  exact ⟨rfl, rfl⟩

theorem Exported.endsApart_iff : EndsApart call L x (L.classField c.name) ↔
    L.classField c.name ≠ x ∧ EndsApart call L x (L.baseField c.base) := by
  obtain ⟨htable, hnext⟩ := hexported.gettable_base hc call
  have hequal : (L.classField c.name).rawEqual x = true ↔ L.classField c.name = x :=
    LuaValue.rawEqual_iff fun y h => by
      rw [h] at htable
      cases htable
  constructor
  · intro h
    cases h with
    | done _ h => exact absurd htable h
    | step _ next _ hne hnext' h =>
      rw [hnext] at hnext'
      rw [← Option.some.inj hnext'] at h
      exact ⟨fun hsame => Bool.eq_false_iff.mp hne (hequal.mpr hsame), h⟩
  · rintro ⟨hne, h⟩
    exact .step _ _ htable (Bool.eq_false_iff.mpr fun h => hne (hequal.mp h)) hnext h

end Bases

/-- From a class's metatable, the walk goes over the metatables of its bases, and ends. -/
theorem Exported.endsApart_class {classes : List LuaClass} (hclasses : IsHierarchy classes)
    (hexported : L.Exported classes) {c : LuaClass} (hc : c ∈ classes) :
    EndsApart call L x (L.classField c.name) ↔
      ∀ a, Derives classes c.name a → L.classField a ≠ x := by
  induction hclasses generalizing c with
  | nil => cases hc
  | cons e rest hname hbase hrest ih =>
    have hclasses : IsHierarchy (e :: rest) := .cons e rest hname hbase hrest
    have hold : L.Exported rest := ⟨hexported.registry, fun d hd => hexported.metatable d (.tail _ hd),
      fun d hd f hf => hexported.apart d (.tail _ hd) f (.tail _ hf)⟩
    rcases List.mem_cons.mp hc with rfl | hmem
    · rw [hexported.endsApart_iff hc]
      have hbases : EndsApart call L x (L.baseField c.base) ↔
          ∀ b, c.base = some b → ∀ a, Derives (c :: rest) b a → L.classField a ≠ x := by
        cases hb : c.base with
        | none => exact iff_of_true (.done _ LuaType.noConfusion) fun b h => by cases h
        | some b =>
          obtain ⟨d, hd, rfl⟩ := hbase b hb
          have hwalk : EndsApart call L x (L.classField d.name) ↔ _ := ih hold hd
          simp only [Option.some.injEq, forall_eq', derives_cons_iff hclasses hd]
          exact hwalk
      rw [hbases]
      constructor
      · rintro ⟨hself, hother⟩ a hderives
        rcases (derives_iff hclasses hc).mp hderives with rfl | ⟨b, hb, hrest⟩
        · exact hself
        · exact hother b hb a hrest
      · intro hall
        exact ⟨hall _ (.refl c hc), fun b hb a hderives => hall a (.base c hc b a hb hderives)⟩
    · rw [ih hold hmem]
      exact forall_congr' fun a => by rw [derives_cons_iff hclasses hmem]

/-- From the metatable of what is derived from a class, the walk comes to the class's. -/
theorem Exported.checkLoop_derives {classes : List LuaClass} {name a : List UInt8}
    (hexported : L.Exported classes) (h : Derives classes name a) (below : List LuaValue) :
    ∃ fuel, checkLoop call index fuel (L.withStack (L.classField name :: L.classField a :: below)) =
      some ((L.withStack below).unbox index) := by
  induction h with
  | refl c hc =>
    obtain ⟨htable, -⟩ := hexported.gettable_base hc call
    have hself : (L.classField c.name).rawEqual (L.classField c.name) = true :=
      (LuaValue.rawEqual_iff fun x h => by
        rw [h] at htable
        cases htable).mpr rfl
    exact ⟨1, checkLoop_found htable hself 0⟩
  | base c hc b a hb _ ih =>
    obtain ⟨htable, hnext⟩ := hexported.gettable_base hc call
    cases hequal : (L.classField c.name).rawEqual (L.classField a) with
    | true => exact ⟨1, checkLoop_found htable hequal 0⟩
    | false =>
      obtain ⟨fuel, hfuel⟩ := ih
      rw [hb] at hnext
      exact ⟨fuel + 1, (checkLoop_step htable hequal hnext fuel).trans hfuel⟩

/-! ## The check -/

/-- A userdata that holds a pointer, with the metatable of a class that is the given one or derived
from it. -/
def Boxed (L : LuaState) (classes : List LuaClass) (tname : List UInt8) (v : LuaValue) (p : Nat) :
    Prop :=
  ∃ u, v = .userdata u ∧ (L.userdata u).block = some p ∧
    ∃ c ∈ classes, (L.userdata u).metatable = L.classOf c.name ∧ Derives classes c.name tname

/-- An object's pointer comes back under an unchanged stack, and nothing else is taken for an
object. -/
structure ChecksType (call : Nat → LuaValue → LuaValue → Option LuaValue) (L : LuaState)
    (classes : List LuaClass) (index : Int) (tname : List UInt8) (v : LuaValue) : Prop where
  pointer : ∀ p, L.Boxed classes tname v p →
    ∃ fuel, L.checkUserType call fuel index tname = some (.pointer L p)
  typeError : (∀ p, ¬L.Boxed classes tname v p) →
    ∃ fuel, L.checkUserType call fuel index tname = some .typeError

section Check

variable {classes : List LuaClass} {c T : LuaClass} {v : LuaValue} {tname : List UInt8}

theorem checkUserType_eq (h : (L.tables L.registry).metatable = none) (fuel : Nat) :
    L.checkUserType call fuel index tname =
      checkLoop call index fuel ((L.push (L.classField tname)).getmetatable index).1 := by
  rw [checkUserType, ← L.withStack_self, getClass_eq h]
  rfl

theorem Exported.boxed_metatable (hexported : L.Exported classes) {p : Nat}
    (h : L.Boxed classes tname v p) : ∃ c ∈ classes, Derives classes c.name tname ∧
      ∃ m, L.metatable? v = some m ∧ L.classField c.name = .table m := by
  obtain ⟨u, rfl, -, c, hc, hmetatable, hderives⟩ := h
  obtain ⟨m, hm, -⟩ := hexported.metatable c hc
  exact ⟨c, hc, hderives, m, hmetatable.trans hm, classOf_eq_some.mp hm⟩

theorem Boxed.unbox {p : Nat} (h : L.Boxed classes tname v p) (hv : L.value? index = some v) :
    L.unbox index = .pointer L p := by
  obtain ⟨u, rfl, hblock, -⟩ := h
  have haddress : L.touserdata index = some (.block u) := by rw [touserdata, hv]
  rw [LuaState.unbox, haddress]
  simp only [hblock]

theorem stack_ne_nil (hindex : 0 < index) (hv : L.value? index = some v) : L.stack ≠ [] := by
  intro hnil
  rw [value?, if_pos hindex, hnil] at hv
  cases hv

/-- What has a class's metatable is checked as an object of the class. -/
theorem Exported.checkUserType_of_class (hexported : L.Exported classes) {m : Nat}
    (hm : L.metatable? v = some m) (hclass : L.classField c.name = .table m) (hindex : 0 < index)
    (hv : L.value? index = some v) (hderives : Derives classes c.name tname) :
    ∃ fuel, L.checkUserType call fuel index tname = some (L.unbox index) := by
  obtain ⟨fuel, hfuel⟩ := hexported.checkLoop_derives hderives L.stack
  refine ⟨fuel, ?_⟩
  rw [checkUserType_eq hexported.registry,
    getmetatable_of_some _ (value?_push hindex hv (L.classField tname)) hm, ← hclass]
  exact hfuel

theorem Exported.checkUserType_typeError_iff (hexported : L.Exported classes) {m : Nat}
    (hm : L.metatable? v = some m) (hindex : 0 < index) (hv : L.value? index = some v) :
    (∃ fuel, L.checkUserType call fuel index tname = some .typeError) ↔
      EndsApart call L (L.classField tname) (.table m) := by
  simp only [checkUserType_eq hexported.registry]
  rw [getmetatable_of_some _ (value?_push hindex hv (L.classField tname)) hm]
  exact checkLoop_typeError_iff (L := L)

/-- The check is right on objects. On another value it is right just if the walk from its metatable
ends apart from the class's; for a value without a metatable, just if the caller has neither the
class's metatable nor a base's on top of the stack. -/
theorem checks_type_iff (hclasses : IsHierarchy classes) (hexported : L.Exported classes)
    (hT : T ∈ classes) (hindex : 0 < index) (hv : L.value? index = some v) :
    L.ChecksType call classes index T.name v ↔
      (∃ p, L.Boxed classes T.name v p) ∨
      (∃ m, L.metatable? v = some m ∧ EndsApart call L (L.classField T.name) (.table m)) ∨
      (L.metatable? v = none ∧
        ∀ a, Derives classes T.name a → L.stack.head? ≠ some (L.classField a)) := by
  by_cases hboxed : ∃ p, L.Boxed classes T.name v p
  · refine iff_of_true ⟨fun p hp => ?_, fun hnone => absurd hboxed (not_exists.mpr hnone)⟩ (.inl hboxed)
    obtain ⟨c, hc, hderives, m, hm, hfield⟩ := hexported.boxed_metatable hp
    obtain ⟨fuel, hfuel⟩ := hexported.checkUserType_of_class hm hfield hindex hv hderives
    exact ⟨fuel, hfuel.trans (congrArg some (hp.unbox hv))⟩
  · have hiff : L.ChecksType call classes index T.name v ↔
        ∃ fuel, L.checkUserType call fuel index T.name = some .typeError :=
      ⟨fun h => h.typeError (not_exists.mp hboxed),
        fun h => ⟨fun p hp => absurd ⟨p, hp⟩ hboxed, fun _ => h⟩⟩
    rw [hiff, or_iff_right hboxed]
    cases hm : L.metatable? v with
    | some m =>
      rw [hexported.checkUserType_typeError_iff hm hindex hv]
      simp
    | none =>
      have hpushed := value?_push hindex hv (L.classField T.name)
      obtain ⟨x, below, hstack⟩ := List.exists_cons_of_ne_nil (stack_ne_nil hindex hv)
      simp only [checkUserType_eq hexported.registry]
      rw [getmetatable_of_none _ hpushed hm, push, hstack]
      refine checkLoop_typeError_iff.trans ((hexported.endsApart_class hclasses hT).trans ?_)
      simp [eq_comm]

end Check

/-! ## What was pushed -/

/-- Classes and objects as `Init` and `PushUserType` leave them: no object is stored that has no
metatable. -/
structure Served (L : LuaState) (classes : List LuaClass) : Prop where
  kept : L.Kept
  exported : L.Exported classes
  globals : ∀ c ∈ classes, L.classOf c.name ≠ some L.globals
  bare : ∀ p, ¬L.Bare p

section Run

variable {classes : List LuaClass} {c T : LuaClass} {udata : Nat} {L' : LuaState}

theorem Inited.served (h : L.Inited call classes) (hnone : ∀ p, L.stored p = .nil) :
    L.Served classes where
  kept := ⟨h.ready, fun p => .inl (hnone p)⟩
  exported := h.exported
  globals := fun c hc hsame => (outer_table.mp h.closed.globals).2 (.inr ⟨c, hc, hsame⟩)
  bare := by
    rintro p ⟨u, hu, -⟩
    rw [hnone] at hu
    cases hu

theorem Served.withStack (h : L.Served classes) (stack : List LuaValue) :
    (L.withStack stack).Served classes where
  kept := ⟨⟨h.kept.ready.no_metatable, h.kept.ready.apart⟩, h.kept.stored⟩
  exported := ⟨h.exported.registry, h.exported.metatable, h.exported.apart⟩
  globals := h.globals
  bare := h.bare

/-- A push of an exported class changes no table but the globals. -/
theorem Served.step (h : L.Served classes) (hc : c ∈ classes)
    (hstep : L.PushStep L' udata c.name) : L'.Served classes where
  kept := hstep.kept
  exported := by
    have hbase : ∀ base, L'.baseField base = L.baseField base := by
      intro base
      cases base with
      | none => rfl
      | some b => exact hstep.classField b
    refine ⟨?_, fun d hd => ?_, fun d hd e he => ?_⟩
    · rw [hstep.registry, hstep.tables _ h.kept.ready.apart.symm]
      exact h.exported.registry
    · obtain ⟨m, hm, hmetatable, hfield⟩ := h.exported.metatable d hd
      have htable : L'.tables m = L.tables m := hstep.tables m fun hsame =>
        h.globals d hd (hm.trans (congrArg some hsame))
      refine ⟨m, ?_, htable ▸ hmetatable, ?_⟩
      · rw [classOf, hstep.classField]
        exact hm
      · rw [rawget, htable, hbase]
        exact hfield
    · rw [hstep.classField, hstep.classField]
      exact h.exported.apart d hd e he
  globals := by
    intro d hd
    rw [classOf, hstep.classField, hstep.globals]
    exact h.globals d hd
  bare := by
    intro p hp
    rw [hstep.bare] at hp
    split at hp
    · obtain ⟨m, hm, -⟩ := h.exported.metatable c hc
      rw [hm] at hp
      cases hp
    · exact h.bare p hp

/-- The calls, one after the other. -/
def pushCalls (call : Nat → LuaValue → LuaValue → Option LuaValue) :
    LuaState → List PushCall → Option LuaState
  | L, [] => some L
  | L, c :: rest => ((L.withStack c.stack).pushUserType call c.udata c.tname).bind
      fun L => pushCalls call L rest

theorem pushCalls_append (first rest : List PushCall) : LuaState.pushCalls call L (first ++ rest) =
    (LuaState.pushCalls call L first).bind fun L => LuaState.pushCalls call L rest := by
  induction first generalizing L with
  | nil => rfl
  | cons c first ih =>
    rw [List.cons_append, pushCalls, pushCalls, Option.bind_assoc]
    exact congrArg _ (funext fun L' => ih)

theorem Served.push (h : L.Served classes) (call : Nat → LuaValue → LuaValue → Option LuaValue)
    (udata : Nat) (hc : c ∈ classes) : ∃ L' u m,
      L.pushUserType call udata c.name = some L' ∧ L'.Served classes ∧
      L'.stack = .userdata u :: L.stack ∧ (L'.userdata u).block = some udata ∧
      L'.metatable? (.userdata u) = some m ∧ L'.classField c.name = .table m := by
  obtain ⟨m, hm, -⟩ := h.exported.metatable c hc
  obtain ⟨L', u, hpush, hone, hstep⟩ :=
    h.kept.pushes_one call (isMetatable_of_classOf hm) (h.bare udata)
  exact ⟨L', u, m, hpush, h.step hc hstep, hone.stack, hone.block, hone.metatable m hm,
    (hstep.classField c.name).trans (classOf_eq_some.mp hm)⟩

theorem Served.pushCalls (h : L.Served classes)
    (call : Nat → LuaValue → LuaValue → Option LuaValue) (calls : List PushCall)
    (hcalls : ∀ e ∈ calls, ∃ d ∈ classes, d.name = e.tname) :
    ∃ L', LuaState.pushCalls call L calls = some L' ∧ L'.Served classes := by
  induction calls generalizing L with
  | nil => exact ⟨L, rfl, h⟩
  | cons e rest ih =>
    obtain ⟨d, hd, hname⟩ := hcalls e (.head _)
    obtain ⟨L₁, u, m, hpush, hserved, -⟩ := (h.withStack e.stack).push call e.udata hd
    obtain ⟨L', hrest, hserved'⟩ := ih hserved fun f hf => hcalls f (.tail _ hf)
    refine ⟨L', ?_, hserved'⟩
    rw [LuaState.pushCalls, ← hname, hpush]
    exact hrest

/-- A check of what was pushed last ends with the pointer or with a type error. -/
theorem Served.pushed_checks (hclasses : IsHierarchy classes) (h : L.Served classes)
    (call : Nat → LuaValue → LuaValue → Option LuaValue)
    (calls : List PushCall) (hcalls : ∀ e ∈ calls, ∃ d ∈ classes, d.name = e.tname)
    (last : PushCall) (hc : c ∈ classes) (hlast : last.tname = c.name) (hT : T ∈ classes) :
    ∃ L' u, LuaState.pushCalls call L (calls ++ [last]) = some L' ∧
      L'.stack = .userdata u :: last.stack ∧
      (Derives classes c.name T.name → ∃ fuel,
        L'.checkUserType call fuel (last.stack.length + 1) T.name = some (.pointer L' last.udata)) ∧
      (¬Derives classes c.name T.name → ∃ fuel,
        L'.checkUserType call fuel (last.stack.length + 1) T.name = some .typeError) := by
  obtain ⟨L₁, hrun, hserved⟩ := h.pushCalls call calls hcalls
  obtain ⟨L', u, m, hpush, hserved', hstack, hblock, hm, hfield⟩ :=
    (hserved.withStack last.stack).push call last.udata hc
  have hexported := hserved'.exported
  have hindex : (0 : Int) < last.stack.length + 1 := by omega
  have hv : L'.value? (last.stack.length + 1) = some (.userdata u) := by
    rw [value?, if_pos hindex, hstack]
    simp
  refine ⟨L', u, ?_, hstack, fun hderives => ?_, fun hapart => ?_⟩
  · rw [pushCalls_append, hrun, Option.bind_some, LuaState.pushCalls, hlast, hpush]
    rfl
  · obtain ⟨fuel, hfuel⟩ := hexported.checkUserType_of_class hm hfield hindex hv hderives
    refine ⟨fuel, hfuel.trans (congrArg some ?_)⟩
    rw [unbox, touserdata, hv]
    simp only [hblock]
  · rw [hexported.checkUserType_typeError_iff hm hindex hv, ← hfield,
      hexported.endsApart_class hclasses hc]
    intro a hderives hsame
    obtain ⟨d, hd, rfl⟩ := hderives.target_mem
    exact hapart (hexported.apart d hd T hT hsame ▸ hderives)

/-- After `Init` of a hierarchy and pushes of objects of its classes, a check of the last object
against a class gives the pointer that was pushed if the object's class is derived from it, and a type
error if it is not. -/
theorem Inited.objects_checked {before : List LuaClass} {inits : List ClassInit}
    (h : L.Inited call before) (hnone : ∀ p, L.stored p = .nil)
    (hfresh : ∀ i ∈ inits, L.classField i.cls.name = .nil)
    (hclasses : IsHierarchy (exportedAfter inits before)) (hinit : L.initClasses call inits = some L')
    (calls : List PushCall)
    (hcalls : ∀ e ∈ calls, ∃ d ∈ exportedAfter inits before, d.name = e.tname)
    (last : PushCall) (hc : c ∈ exportedAfter inits before) (hlast : last.tname = c.name)
    (hT : T ∈ exportedAfter inits before) :
    ∃ L'' u, LuaState.pushCalls call L' (calls ++ [last]) = some L'' ∧
      L''.stack = .userdata u :: last.stack ∧
      (Derives (exportedAfter inits before) c.name T.name → ∃ fuel,
        L''.checkUserType call fuel (last.stack.length + 1) T.name = some (.pointer L'' last.udata)) ∧
      (¬Derives (exportedAfter inits before) c.name T.name → ∃ fuel,
        L''.checkUserType call fuel (last.stack.length + 1) T.name = some .typeError) := by
  obtain ⟨hinited, hothers⟩ := h.initClasses hfresh hclasses hinit
  have hserved := hinited.served fun p => (hothers.stored p).trans (hnone p)
  exact hserved.pushed_checks hclasses call calls hcalls last hc hlast hT

end Run

/-! ## Two classes -/

theorem user_derives :
    Derives (exportedAfter objectAndUser []) (luaText "ObjUser") (luaText "Obj") :=
  .base ⟨luaText "ObjUser", some (luaText "Obj")⟩ (.head _) (luaText "Obj") (luaText "Obj") rfl
    (.refl ⟨luaText "Obj", none⟩ (.tail _ (.head _)))

theorem openedState_stored (udata : Nat) : openedState.stored udata = .nil := by
  have hglobals : openedState.tables openedState.globals = .empty := openedState_tables (by decide)
  rw [stored, rawget, hglobals]
  rfl

theorem classState_served : classState.Served (exportedAfter objectAndUser []) :=
  classState_inited.1.served classState_stored

/-- A user that was pushed as an object before is checked as an object. -/
theorem user_checks : ∃ L' u, ((openedState.initClasses (fun _ _ _ => none) objectAndUser).bind
      fun L => L.pushCalls (fun _ _ _ => none)
        ([⟨[], 5, luaText "Obj"⟩] ++ [⟨[.nil], 5, luaText "ObjUser"⟩])) = some L' ∧
      L'.stack = [.userdata u, .nil] ∧ ∃ fuel,
        L'.checkUserType (fun _ _ _ => none) fuel 2 (luaText "Obj") = some (.pointer L' 5) := by
  obtain ⟨L', u, hpush, hstack, hpointer, -⟩ := openedState_inited.objects_checked
    openedState_stored (by decide +kernel) objectAndUser_isHierarchy
    (Option.some_get objectAndUser_isSome).symm [⟨[], 5, luaText "Obj"⟩] (by decide)
    ⟨[.nil], 5, luaText "ObjUser"⟩ (c := ⟨luaText "ObjUser", some (luaText "Obj")⟩)
    (T := ⟨luaText "Obj", none⟩) (.head _) rfl (.tail _ (.head _))
  rw [← Option.some_get objectAndUser_isSome, Option.bind_some]
  exact ⟨L', u, hpush, hstack, hpointer user_derives⟩

/-- A user alone on the stack is checked as an object. -/
theorem checks_type_user : ∃ L' u, (classState.withStack []).pushUserType (fun _ _ _ => none) 5
      (luaText "ObjUser") = some L' ∧
      L'.ChecksType (fun _ _ _ => none) (exportedAfter objectAndUser []) 1 (luaText "Obj")
        (.userdata u) := by
  have huser : (⟨luaText "ObjUser", some (luaText "Obj")⟩ : LuaClass) ∈
      exportedAfter objectAndUser [] := .head _
  have hobject : (⟨luaText "Obj", none⟩ : LuaClass) ∈ exportedAfter objectAndUser [] :=
    .tail _ (.head _)
  obtain ⟨L', u, m, hpush, hserved, hstack, hblock, hm, hfield⟩ :=
    (classState_served.withStack []).push (fun _ _ _ => none) 5 huser
  have hv : L'.value? 1 = some (.userdata u) := by
    rw [value?, hstack]
    rfl
  have hboxed : L'.Boxed (exportedAfter objectAndUser []) (luaText "Obj") (.userdata u) 5 :=
    ⟨u, rfl, hblock, _, huser, hm.trans (classOf_eq_some.mpr hfield).symm, user_derives⟩
  exact ⟨L', u, hpush, (checks_type_iff objectAndUser_isHierarchy hserved.exported hobject
    Int.zero_lt_one hv).mpr (.inl ⟨5, hboxed⟩)⟩

end LuaState

end MmDriver

import MmDriver.Laws.Common.LuaClasses

/-!
# Pushing an object

What `PushUserType` leaves depends on what is stored under the pointer. All its outcomes push one
value, but for one: where the userdata that is stored has no metatable, `lua_getmetatable` puts nothing
on the stack, and the `lua_pop` of three takes two values of the caller.
-/

namespace MmDriver

namespace LuaState

variable {call : Nat → LuaValue → LuaValue → Option LuaValue} {L L' : LuaState}
  {udata : Nat} {tname : List UInt8} {below : List LuaValue}

/-! ## What is looked up -/

/-- The registry as a new state has it. -/
structure Ready (L : LuaState) : Prop where
  no_metatable : (L.tables L.registry).metatable = none
  apart : L.globals ≠ L.registry

theorem Inited.ready {classes : List LuaClass} (h : L.Inited call classes) : L.Ready where
  no_metatable := h.exported.registry
  apart := fun hsame => (outer_table.mp h.closed.globals).2 (.inl hsame)

/-- What is stored under a pointer. -/
def stored (L : LuaState) (udata : Nat) : LuaValue := L.rawget L.globals (.lightuserdata udata)

/-- `Init` stores nothing under a pointer. -/
theorem SameOthers.stored (h : L.SameOthers L') (udata : Nat) : L'.stored udata = L.stored udata :=
  h _ fun _ hs => LuaValue.noConfusion hs

/-- What `lua_setmetatable` takes. -/
def IsMetatable (v : LuaValue) : Prop := v = .nil ∨ v.type = .table

instance : DecidablePred IsMetatable := fun _ => inferInstanceAs (Decidable (_ ∨ _))

theorem rawEqual_class (m : Nat) : (L.classField tname).rawEqual (.table m) = true ↔
    L.classOf tname = some m := by
  rw [LuaValue.rawEqual_comm, LuaValue.rawEqual_iff fun _ h => LuaValue.noConfusion h,
    classOf_eq_some, eq_comm]

/-! ## What is left -/

/-- The state after a userdata was made for a pointer and stored under it. -/
def boxed (L : LuaState) (udata : Nat) (tname : List UInt8) (below : List LuaValue) : LuaState :=
  { L with
    stack := .userdata L.userdataCount :: below
    userdata := Function.update L.userdata L.userdataCount ⟨some udata, L.classOf tname⟩
    tables := Function.update L.tables L.globals
      ((L.tables L.globals).set (.lightuserdata udata) (.userdata L.userdataCount))
    userdataCount := L.userdataCount + 1 }

theorem registerLuaObject_eq (h : (L.tables L.registry).metatable = none)
    (hclass : IsMetatable (L.classField tname)) :
    (L.withStack below).registerLuaObject call udata tname false =
      some (L.boxed udata tname below) := by
  have hfield : ((L.withStack below).newuserdata (some udata)).getClass call tname =
      some (((L.withStack below).newuserdata (some udata)).push (L.classField tname)) :=
    getClass_eq (L := (L.withStack below).newuserdata (some udata)) h tname _
  have hupdate : ∀ m, Function.update
      (Function.update L.userdata L.userdataCount ⟨some udata, none⟩) L.userdataCount
      { Function.update L.userdata L.userdataCount ⟨some udata, none⟩ L.userdataCount with
        metatable := m } =
      Function.update L.userdata L.userdataCount ⟨some udata, m⟩ := by
    intro m
    rw [Function.update_idem, Function.update_self]
  have hset : (((L.withStack below).newuserdata (some udata)).push
      (L.classField tname)).setmetatable (-2) =
      some ({ L with
        userdata := Function.update L.userdata L.userdataCount ⟨some udata, L.classOf tname⟩
        userdataCount := L.userdataCount + 1 }.withStack (.userdata L.userdataCount :: below)) := by
    rw [classOf, ← hupdate]
    rcases hclass with hnil | htable
    · rw [hnil]
      rfl
    · cases hfield : L.classField tname with
      | table m => rfl
      | _ => rw [hfield] at htable; cases htable
  have hkey : (LuaValue.lightuserdata udata).IsKey :=
    ⟨LuaValue.noConfusion, (LuaValue.rawEqual_iff fun _ h => LuaValue.noConfusion h).mpr rfl⟩
  rw [registerLuaObject]
  simp only [Bool.false_eq_true, if_false, Option.bind_eq_bind, Option.bind_some, hfield, hset]
  exact if_pos hkey

/-- Another value than a table ends in `lua_setmetatable`. -/
theorem registerLuaObject_eq_none (h : (L.tables L.registry).metatable = none)
    (hclass : ¬IsMetatable (L.classField tname)) :
    (L.withStack below).registerLuaObject call udata tname false = none := by
  have hfield : ((L.withStack below).newuserdata (some udata)).getClass call tname =
      some (((L.withStack below).newuserdata (some udata)).push (L.classField tname)) :=
    getClass_eq (L := (L.withStack below).newuserdata (some udata)) h tname _
  have hset : (((L.withStack below).newuserdata (some udata)).push
      (L.classField tname)).setmetatable (-2) = none := by
    cases hvalue : L.classField tname with
    | nil => exact absurd (.inl hvalue) hclass
    | table m => exact absurd (.inr (congrArg LuaValue.type hvalue)) hclass
    | _ => rfl
  rw [registerLuaObject]
  simp only [Bool.false_eq_true, if_false, Option.bind_eq_bind, Option.bind_some, hfield, hset,
    Option.bind_none]

/-- The new userdata is the one value that was pushed. -/
structure PushedOne (L L' : LuaState) (udata : Nat) (tname : List UInt8) (u : Nat) : Prop where
  stack : L'.stack = .userdata u :: L.stack
  block : (L'.userdata u).block = some udata
  metatable : ∀ m, L.classOf tname = some m → (L'.userdata u).metatable = some m

/-- A stored userdata without a metatable. -/
def Bare (L : LuaState) (udata : Nat) : Prop :=
  ∃ u, L.stored udata = .userdata u ∧ (L.userdata u).metatable = none

/-- What earlier calls leave: under a pointer is a userdata that holds it, or nothing. -/
structure Kept (L : LuaState) : Prop where
  ready : L.Ready
  stored : ∀ p, L.stored p = .nil ∨ ∃ u, L.stored p = .userdata u ∧ u < L.userdataCount ∧
    (L.userdata u).block = some p

theorem stored_boxed (p : Nat) : (L.boxed udata tname below).stored p =
    if p = udata then .userdata L.userdataCount else L.stored p := by
  have hget : (L.boxed udata tname below).stored p =
      (L.rawset L.globals (.lightuserdata udata) (.userdata L.userdataCount)).rawget L.globals
        (.lightuserdata p) := rfl
  rw [hget, rawget_rawset L (fun _ h => LuaValue.noConfusion h) LuaValue.noConfusion]
  simp only [true_and, LuaValue.lightuserdata.injEq]
  rfl

theorem userdata_boxed_new : (L.boxed udata tname below).userdata L.userdataCount =
    ⟨some udata, L.classOf tname⟩ :=
  Function.update_self _ _ _

theorem userdata_boxed_of_lt {u : Nat} (h : u < L.userdataCount) :
    (L.boxed udata tname below).userdata u = L.userdata u :=
  Function.update_of_ne (Nat.ne_of_lt h) _ _

theorem classField_boxed (h : L.Ready) (name : List UInt8) :
    (L.boxed udata tname below).classField name = L.classField name := by
  rw [classField, rawget, boxed]
  exact congrArg (LuaTable.get · _) (Function.update_of_ne h.apart.symm _ _)

theorem Kept.boxed (h : L.Kept) : (L.boxed udata tname below).Kept where
  ready :=
    { no_metatable := by
        have hsame : (L.boxed udata tname below).tables L.registry = L.tables L.registry :=
          Function.update_of_ne h.ready.apart.symm _ _
        exact (congrArg LuaTable.metatable hsame).trans h.ready.no_metatable
      apart := h.ready.apart }
  stored := by
    intro p
    rw [stored_boxed]
    split
    · next hp =>
      refine .inr ⟨_, rfl, Nat.lt_succ_self _, ?_⟩
      rw [userdata_boxed_new, hp]
    · refine (h.stored p).imp_right fun ⟨u, hu, hlt, hblock⟩ => ⟨u, hu, Nat.lt_succ_of_lt hlt, ?_⟩
      rw [userdata_boxed_of_lt hlt, hblock]

/-- The userdata of an exported class is not bare, and the others stay as they are. -/
theorem Kept.bare_boxed (h : L.Kept) (p : Nat) : (L.boxed udata tname below).Bare p ↔
    if p = udata then L.classOf tname = none else L.Bare p := by
  rw [Bare, stored_boxed]
  split
  · constructor
    · rintro ⟨u, hu, hbare⟩
      rw [← LuaValue.userdata.inj hu, userdata_boxed_new] at hbare
      exact hbare
    · intro hclass
      refine ⟨_, rfl, ?_⟩
      rw [userdata_boxed_new, hclass]
  · have hsame : ∀ u, L.stored p = .userdata u →
        ((L.boxed udata tname below).userdata u).metatable = (L.userdata u).metatable := by
      intro u hu
      rcases h.stored p with hnil | ⟨u', hu', hlt, -⟩
      · rw [hnil] at hu
        cases hu
      · rw [hu'] at hu
        rw [← LuaValue.userdata.inj hu, userdata_boxed_of_lt hlt]
    exact exists_congr fun u => and_congr_right fun hu => by rw [hsame u hu]

/-! ## One call -/

/-- Nothing is stored yet. -/
theorem pushUserType_of_nil (h : L.Ready) (hclass : IsMetatable (L.classField tname))
    (hstored : L.stored udata = .nil) :
    L.pushUserType call udata tname = some (L.boxed udata tname L.stack) := by
  have hget : (L.push (.lightuserdata udata)).rawgetAt L.globals = some (L.push (L.stored udata)) :=
    rfl
  rw [pushUserType, hget, hstored]
  exact registerLuaObject_eq h.no_metatable hclass

/-- Only the stored userdata is pushed without a look at what the registry has. -/
theorem isMetatable_of_classOf {m : Nat} (h : L.classOf tname = some m) :
    IsMetatable (L.classField tname) := by
  rw [classOf_eq_some.mp h]
  exact .inr rfl

theorem getmetatable_userdata {u m : Nat} (h : (L.userdata u).metatable = some m) :
    (L.push (.userdata u)).getmetatable (-1) =
      (L.withStack (.table m :: .userdata u :: L.stack), true) :=
  getmetatable_of_some _ (value?_neg_one L (.userdata u) L.stack) h

section Userdata

variable {u : Nat} (hstored : L.stored udata = .userdata u)

include hstored

theorem pushUserType_of_userdata : L.pushUserType call udata tname =
    ((L.push (.userdata u)).checkStored call tname).bind fun r =>
      if r.2 then some r.1
      else (r.1.pop 3).bind fun L => L.registerLuaObject call udata tname false := by
  have hget : (L.push (.lightuserdata udata)).rawgetAt L.globals = some (L.push (L.stored udata)) :=
    rfl
  rw [pushUserType, hget, hstored]
  rfl

/-- Without a metatable, the `lua_pop` takes two values that the caller had. -/
theorem pushUserType_of_bare (hbare : (L.userdata u).metatable = none) :
    L.pushUserType call udata tname =
      ((L.push (.userdata u)).pop 3).bind fun L => L.registerLuaObject call udata tname false := by
  have hcheck : (L.push (.userdata u)).checkStored call tname = some (L.push (.userdata u), false) := by
    have hget : (L.push (.userdata u)).getmetatable (-1) = (L.push (.userdata u), false) :=
      getmetatable_of_none _ (value?_neg_one L (.userdata u) L.stack) hbare
    rw [checkStored, hget]
    rfl
  rw [pushUserType_of_userdata hstored, hcheck]
  rfl

/-- With the class's metatable, the stored userdata stays. -/
theorem pushUserType_of_right {m : Nat} (h : L.Ready) (hmetatable : (L.userdata u).metatable = some m)
    (hclass : L.classOf tname = some m) :
    L.pushUserType call udata tname = some (L.push (.userdata u)) := by
  have hcheck : (L.push (.userdata u)).checkStored call tname = some (L.push (.userdata u), true) := by
    rw [checkStored, getmetatable_userdata hmetatable]
    dsimp only
    rw [getClass_eq h.no_metatable]
    exact if_pos ((rawEqual_class m).mpr hclass)
  rw [pushUserType_of_userdata hstored, hcheck]
  rfl

/-- With another metatable, there are three values to pop. -/
theorem pushUserType_of_wrong {m : Nat} (h : L.Ready) (hmetatable : (L.userdata u).metatable = some m)
    (hwrong : L.classOf tname ≠ some m) :
    L.pushUserType call udata tname = (L.withStack L.stack).registerLuaObject call udata tname false := by
  have hcheck : (L.push (.userdata u)).checkStored call tname = some
      (L.withStack (L.classField tname :: .table m :: .userdata u :: L.stack), false) := by
    rw [checkStored, getmetatable_userdata hmetatable]
    dsimp only
    rw [getClass_eq h.no_metatable]
    exact if_neg fun hequal => hwrong ((rawEqual_class m).mp hequal)
  rw [pushUserType_of_userdata hstored, hcheck]
  rfl

end Userdata

/-! ## Every call of a run -/

/-- What a call that pushes one value leaves for those after it. -/
structure PushStep (L L' : LuaState) (udata : Nat) (tname : List UInt8) : Prop where
  kept : L'.Kept
  registry : L'.registry = L.registry
  globals : L'.globals = L.globals
  tables : ∀ t, t ≠ L.globals → L'.tables t = L.tables t
  classField : ∀ name, L'.classField name = L.classField name
  bare : ∀ p, L'.Bare p ↔ if p = udata then L.classOf tname = none else L.Bare p

theorem Kept.pushStep_boxed (h : L.Kept) : L.PushStep (L.boxed udata tname below) udata tname where
  kept := h.boxed
  registry := rfl
  globals := rfl
  tables := fun _ ht => Function.update_of_ne ht _ _
  classField := classField_boxed h.ready
  bare := h.bare_boxed

theorem pushedOne_boxed :
    L.PushedOne (L.boxed udata tname L.stack) udata tname L.userdataCount where
  stack := rfl
  block := by rw [userdata_boxed_new]
  metatable := by
    intro m hm
    rw [userdata_boxed_new, hm]

/-- Where no bare userdata is stored under the pointer, one value is pushed. -/
theorem Kept.pushes_one (h : L.Kept) (call : Nat → LuaValue → LuaValue → Option LuaValue)
    (hclass : IsMetatable (L.classField tname)) (hbare : ¬L.Bare udata) :
    ∃ L' u, L.pushUserType call udata tname = some L' ∧ L.PushedOne L' udata tname u ∧
      L.PushStep L' udata tname := by
  rcases h.stored udata with hnil | ⟨u, hu, -, hblock⟩
  · exact ⟨_, _, pushUserType_of_nil h.ready hclass hnil, pushedOne_boxed, h.pushStep_boxed⟩
  · cases hmetatable : (L.userdata u).metatable with
    | none => exact absurd ⟨u, hu, hmetatable⟩ hbare
    | some m =>
      by_cases hright : L.classOf tname = some m
      · refine ⟨_, u, pushUserType_of_right hu h.ready hmetatable hright, ⟨rfl, hblock, ?_⟩, ?_⟩
        · intro m' hm'
          exact hmetatable.trans (hright.symm.trans hm')
        · refine ⟨⟨⟨h.ready.no_metatable, h.ready.apart⟩, h.stored⟩, rfl, rfl, fun _ _ => rfl,
            fun _ => rfl, fun p => ?_⟩
          split
          · next hp =>
            rw [hp, hright]
            exact iff_of_false hbare (Option.some_ne_none m)
          · exact Iff.rfl
      · refine ⟨_, _, ?_, pushedOne_boxed, h.pushStep_boxed⟩
        rw [pushUserType_of_wrong hu h.ready hmetatable hright]
        exact registerLuaObject_eq h.ready.no_metatable hclass

/-- And only then, with nothing but a class's table or nothing at all under the name. -/
theorem Kept.of_pushedOne (h : L.Kept) {u : Nat} (hpush : L.pushUserType call udata tname = some L')
    (hone : L.PushedOne L' udata tname u) : IsMetatable (L.classField tname) ∧ ¬L.Bare udata := by
  have hregister : ∀ {below}, (L.withStack below).registerLuaObject call udata tname false = some L' →
      IsMetatable (L.classField tname) ∧ L' = L.boxed udata tname below := by
    intro below hsome
    by_cases hclass : IsMetatable (L.classField tname)
    · rw [registerLuaObject_eq h.ready.no_metatable hclass] at hsome
      exact ⟨hclass, (Option.some.inj hsome).symm⟩
    · rw [registerLuaObject_eq_none h.ready.no_metatable hclass] at hsome
      cases hsome
  have hbare : ¬L.Bare udata := by
    rintro ⟨w, hw, hnone⟩
    rw [pushUserType_of_bare hw hnone, pop] at hpush
    split at hpush
    · obtain ⟨-, rfl⟩ := @hregister (L.stack.drop 2) hpush
      have hlength := congrArg List.length hone.stack
      have hpop : L.stack.length - 2 + 1 = L.stack.length + 1 := by
        rw [← List.length_drop]
        exact hlength
      have hthree : 3 ≤ L.stack.length + 1 := by assumption
      omega
    · cases hpush
  refine ⟨?_, hbare⟩
  rcases h.stored udata with hnil | ⟨w, hw, -, -⟩
  · have hget : (L.push (.lightuserdata udata)).rawgetAt L.globals = some (L.push .nil) :=
      congrArg (fun v => some (L.push v)) hnil
    rw [pushUserType, hget] at hpush
    exact (@hregister L.stack hpush).1
  · cases hmetatable : (L.userdata w).metatable with
    | none => exact absurd ⟨w, hw, hmetatable⟩ hbare
    | some m =>
      by_cases hright : L.classOf tname = some m
      · exact isMetatable_of_classOf hright
      · rw [pushUserType_of_wrong hw h.ready hmetatable hright] at hpush
        exact (hregister hpush).1

/-- A call, with the stack on which it is made. -/
structure PushCall where
  stack : List LuaValue
  udata : Nat
  tname : List UInt8

/-- Every one of the calls, which are made one after another, pushes one value. -/
def AllPushOne (call : Nat → LuaValue → LuaValue → Option LuaValue) : LuaState → List PushCall → Prop
  | _, [] => True
  | L, c :: rest => ∃ L' u, (L.withStack c.stack).pushUserType call c.udata c.tname = some L' ∧
      (L.withStack c.stack).PushedOne L' c.udata c.tname u ∧ AllPushOne call L' rest

/-- A pointer that was pushed for a class that is not exported is not pushed again. -/
def ExportedBefore (L : LuaState) (a b : PushCall) : Prop :=
  a.udata = b.udata → (L.classOf a.tname).isSome

instance : DecidableRel L.ExportedBefore := fun _ _ => inferInstanceAs (Decidable (_ → _))

/-- A call that can push one value as things are stored. -/
def CanPush (L : LuaState) (c : PushCall) : Prop :=
  IsMetatable (L.classField c.tname) ∧ ¬L.Bare c.udata

/-- After a call, another one can push where it could before, unless it is for the same pointer and
the class was not exported. -/
theorem PushStep.canPush_iff {c d : PushCall} (hstep : L.PushStep L' c.udata c.tname)
    (hc : ¬L.Bare c.udata) : L'.CanPush d ↔ L.CanPush d ∧ L.ExportedBefore c d := by
  rw [CanPush, CanPush, ExportedBefore, hstep.classField, hstep.bare, and_assoc]
  refine and_congr_right fun _ => ?_
  rw [← Option.ne_none_iff_isSome]
  split
  · next hsame =>
    rw [hsame]
    exact ⟨fun hclass => ⟨hc, fun _ => hclass⟩, fun h => h.2 rfl⟩
  · next hother => exact ⟨fun hbare => ⟨hbare, fun h => absurd h.symm hother⟩, And.left⟩

theorem PushStep.exportedBefore_iff {c a b : PushCall} (hstep : L.PushStep L' c.udata c.tname) :
    L'.ExportedBefore a b ↔ L.ExportedBefore a b := by
  rw [ExportedBefore, classOf, hstep.classField]
  exact Iff.rfl

theorem Kept.allPushOne_iff (h : L.Kept) (call : Nat → LuaValue → LuaValue → Option LuaValue)
    (calls : List PushCall) :
    L.AllPushOne call calls ↔ (∀ c ∈ calls, L.CanPush c) ∧ calls.Pairwise L.ExportedBefore := by
  induction calls generalizing L with
  | nil => exact iff_of_true trivial ⟨List.forall_mem_nil _, .nil⟩
  | cons c rest ih =>
    have hkept : (L.withStack c.stack).Kept := ⟨⟨h.ready.no_metatable, h.ready.apart⟩, h.stored⟩
    have hrest : ∀ {L'}, (L.withStack c.stack).PushStep L' c.udata c.tname → ¬L.Bare c.udata →
        (L'.AllPushOne call rest ↔ (∀ d ∈ rest, L.CanPush d ∧ L.ExportedBefore c d) ∧
          rest.Pairwise L.ExportedBefore) := by
      intro L' hstep hbare
      have hcan : ∀ d, L'.CanPush d ↔ L.CanPush d ∧ L.ExportedBefore c d :=
        fun d => hstep.canPush_iff hbare
      have hexported : ∀ a b, L'.ExportedBefore a b ↔ L.ExportedBefore a b :=
        fun a b => hstep.exportedBefore_iff
      rw [ih hstep.kept, forall₂_congr fun d _ => hcan d, List.Pairwise.iff hexported]
    rw [List.forall_mem_cons, List.pairwise_cons]
    constructor
    · rintro ⟨L', u, hpush, hone, hall⟩
      obtain ⟨hclass, hbare⟩ := hkept.of_pushedOne hpush hone
      obtain ⟨L'', u', hpush', -, hstep⟩ := hkept.pushes_one call hclass hbare
      rw [hpush'] at hpush
      rw [← Option.some.inj hpush] at hall
      obtain ⟨hboth, hpairwise⟩ := (hrest hstep hbare).mp hall
      exact ⟨⟨⟨hclass, hbare⟩, fun d hd => (hboth d hd).1⟩, fun d hd => (hboth d hd).2, hpairwise⟩
    · rintro ⟨⟨hc, hcan⟩, hexported, hpairwise⟩
      obtain ⟨L', u, hpush, hone, hstep⟩ := hkept.pushes_one call hc.1 hc.2
      exact ⟨L', u, hpush, hone, (hrest hstep hc.2).mpr
        ⟨fun d hd => ⟨hcan d hd, hexported d hd⟩, hpairwise⟩⟩

/-- Where nothing is stored yet, all calls push one value just if no name has anything but a class's
table in the registry, and no pointer is pushed again that was pushed for a class that is not
exported. -/
theorem pushes_one_iff (call : Nat → LuaValue → LuaValue → Option LuaValue) (hready : L.Ready)
    (hnone : ∀ p, L.stored p = .nil) (calls : List PushCall) :
    L.AllPushOne call calls ↔
      (∀ c ∈ calls, IsMetatable (L.classField c.tname)) ∧ calls.Pairwise L.ExportedBefore := by
  have hkept : L.Kept := ⟨hready, fun p => .inl (hnone p)⟩
  have hbare : ∀ p, ¬L.Bare p := by
    rintro p ⟨u, hu, -⟩
    rw [hnone] at hu
    cases hu
  rw [hkept.allPushOne_iff call calls]
  exact and_congr_left fun _ => forall₂_congr fun c _ => and_iff_left (hbare c.udata)

theorem classState_stored (udata : Nat) : classState.stored udata = .nil := by
  rw [classState_inited.2.stored, stored, rawget]
  exact congrArg (LuaTable.get · _) (openedState_tables (by decide))

/-- An object can be pushed as what it is after it was pushed as what it is derived from. -/
theorem pushes_one_user : classState.AllPushOne (fun _ _ _ => none)
    [⟨[], 5, luaText "Obj"⟩, ⟨[.nil], 5, luaText "ObjUser"⟩, ⟨[], 6, luaText "X"⟩] :=
  (pushes_one_iff _ classState_inited.1.ready classState_stored _).mpr
    ⟨by decide +kernel, by decide +kernel⟩

/-- Of two values of the caller, none is left after the second call. -/
theorem unexported_stack :
    (((classState.withStack [.nil, .nil]).pushUserType (fun _ _ _ => none) 5 (luaText "X")).bind
      fun L => (L.withStack [.nil, .nil]).pushUserType (fun _ _ _ => none) 5 (luaText "X")).map
        LuaState.stack = some [.userdata 1] := by
  decide +kernel

theorem unexported_pushed_twice : ¬classState.AllPushOne (fun _ _ _ => none)
    [⟨[.nil, .nil], 5, luaText "X"⟩, ⟨[.nil, .nil], 5, luaText "X"⟩] := by
  rintro ⟨L₁, u, hfirst, -, L₂, v, hsecond, hone, -⟩
  have hstack := unexported_stack
  rw [hfirst, Option.bind_some, hsecond, Option.map_some, hone.stack] at hstack
  cases hstack

end LuaState

end MmDriver

import Mathlib.Data.List.Perm.Basic
import MmDriver.Laws.Common.LuaCopy

/-!
# When the copy does not depend on the order of the entries

Two entries of one table can have one name, and a key without a name ends the reading. The copy is
the same in every order exactly where the names decide what is found: the values that the same names
lead to are alike, and no table holds such a key beside an entry that gives an object.
-/

namespace MmDriver

/-- An order in which `lua_next` may give the entries of every table. -/
structure LuaOrder (L : LuaState) where
  entries : Nat → List LuaEntry
  perm : ∀ t, (entries t).Perm (L.tables t).entries

namespace LuaOrder

variable {L : LuaState}

/-- The state with its entries in that order. -/
def state (o : LuaOrder L) : LuaState :=
  { L with
    tables := fun t =>
      { entries := o.entries t
        metatable := (L.tables t).metatable
        valid := fun e he => (L.tables t).valid e ((o.perm t).mem_iff.mp he)
        apart :=
          ((o.perm t).pairwise_iff fun h => (LuaValue.rawEqual_comm _ _).trans h).mpr
            (L.tables t).apart } }

/-- The order of the state itself. -/
def self (L : LuaState) : LuaOrder L := ⟨fun t => (L.tables t).entries, fun _ => .refl _⟩

/-- The order with other entries first in one table. -/
def update (o : LuaOrder L) (t : Nat) (entries : List LuaEntry)
    (hperm : entries.Perm (L.tables t).entries) : LuaOrder L where
  entries := Function.update o.entries t entries
  perm s := by
    by_cases h : s = t
    · rw [h, Function.update_self]
      exact hperm
    · rw [Function.update_of_ne h]
      exact o.perm s

theorem update_self (o : LuaOrder L) (t : Nat) (entries : List LuaEntry)
    (hperm : entries.Perm (L.tables t).entries) : (o.update t entries hperm).entries t = entries :=
  Function.update_self ..

theorem update_of_ne (o : LuaOrder L) {s t : Nat} (h : s ≠ t) (entries : List LuaEntry)
    (hperm : entries.Perm (L.tables t).entries) :
    (o.update t entries hperm).entries s = o.entries s := Function.update_of_ne h ..

theorem mem_iff (o : LuaOrder L) {t : Nat} {e : LuaEntry} :
    e ∈ (o.state.tables t).entries ↔ e ∈ (L.tables t).entries := (o.perm t).mem_iff

end LuaOrder

namespace LuaState

variable {L : LuaState} {v w u : LuaValue} {t s : Nat} {name : LuaName}

/-! ## What does not depend on the order -/

theorem isObject_state_iff (o : LuaOrder L) : o.state.IsObject v ↔ L.IsObject v := by
  cases v with
  | table t =>
    rw [IsObject, IsObject, rawget_eq_nil_iff, rawget_eq_nil_iff]
    simp only [o.mem_iff]
  | _ => exact Iff.rfl

theorem Acyclic.state (h : L.Acyclic v) (o : LuaOrder L) : o.state.Acyclic v := by
  induction h with
  | intro v _ ih => exact ⟨v, fun t ht e he => ih t ht e (o.mem_iff.mp he)⟩

theorem Depth.state {depth : Nat} (h : L.Depth depth v) (o : LuaOrder L) :
    o.state.Depth depth v := by
  induction depth generalizing v with
  | zero => exact h
  | succ depth ih => exact fun t ht e he => ih (h t ht e (o.mem_iff.mp he))

/-! ## Names that lead to values -/

/-- An entry of that name, with a value that gives an object. -/
def Entry (L : LuaState) (t : Nat) (name : LuaName) (w : LuaValue) : Prop :=
  L.IsObject w ∧ ∃ e ∈ (L.tables t).entries, keyName e.1 = some name ∧ e.2 = w

/-- The names lead from a value to another, through the entries of tables. -/
def Leads (L : LuaState) : LuaValue → List LuaName → LuaValue → Prop
  | v, [], w => v = w
  | v, name :: path, w => ∃ t u, v = .table t ∧ L.Entry t name u ∧ L.Leads u path w

/-- Two values look the same, less what stands under the names. -/
def Same (L : LuaState) : LuaValue → LuaValue → Prop
  | .number x, .number y => x = y
  | .string s, .string s' => cText s = cText s'
  | .table t, .table t' => ∀ name, (∃ u, L.Entry t name u) ↔ ∃ u, L.Entry t' name u
  | _, _ => False

/-- A table with a key that gives no name has no entry that gives an object. -/
def Clean (L : LuaState) (t : Nat) : Prop :=
  (∃ e ∈ (L.tables t).entries, keyName e.1 = none) → ∀ name w, ¬L.Entry t name w

/-- The names decide what is found in a table. -/
structure Agrees (L : LuaState) (t : Nat) : Prop where
  clean : ∀ path t', L.Leads (.table t) path (.table t') → L.Clean t'
  same : ∀ path v w, L.Leads (.table t) path v → L.Leads (.table t) path w → L.Same v w

theorem Acyclic.entry (h : L.Acyclic (.table t)) (hentry : L.Entry t name w) : L.Acyclic w := by
  obtain ⟨-, e, he, -, rfl⟩ := hentry
  exact h.value he

theorem Clean.keyName_ne_none (h : L.Clean t) (hentry : L.Entry t name w) :
    ∀ e ∈ (L.tables t).entries, keyName e.1 ≠ none :=
  fun e he hnone => h ⟨e, he, hnone⟩ name w hentry

theorem entry_of_children_eq_some (o : LuaOrder L) (h : L.Acyclic (.table t)) {a : LuaObject}
    (hname : o.state.children t name = some a) :
    ∃ w b, L.Entry t name w ∧ o.state.copy w = some b ∧ a = b.setName name := by
  rcases copyEntries_eq_some hname with hnone | ⟨e, he, b, ⟨hkey, hcopy⟩, ha⟩
  · cases hnone
  · have hmem := o.mem_iff.mp he
    refine ⟨e.2, b, ⟨?_, e, hmem, hkey, rfl⟩, hcopy, ha⟩
    have hsome : (o.state.copy e.2).isSome := by rw [hcopy, Option.isSome_some]
    exact (isObject_state_iff o).mp ((copy_isSome_iff ((h.value hmem).state o)).mp hsome)

theorem exists_copy (o : LuaOrder L) (h : L.Acyclic w) (hobject : L.IsObject w) :
    ∃ b, o.state.copy w = some b :=
  Option.isSome_iff_exists.mp
    ((copy_isSome_iff (h.state o)).mpr ((isObject_state_iff o).mpr hobject))

theorem children_isSome (o : LuaOrder L) (h : L.Acyclic (.table t)) (hclean : L.Clean t)
    (hentry : L.Entry t name w) : (o.state.children t name).isSome := by
  obtain ⟨b, hcopy⟩ := exists_copy o (h.entry hentry) hentry.1
  have hkeys : ∀ e ∈ (o.state.tables t).entries, keyName e.1 ≠ none :=
    fun e he => hclean.keyName_ne_none hentry e (o.mem_iff.mp he)
  obtain ⟨-, e, he, hkey, hvalue⟩ := hentry
  exact copyEntries_isSome hkeys (o.mem_iff.mpr he) ⟨hkey, hvalue ▸ hcopy⟩

/-! ## From the names to the copy -/

section Copies

variable {o o' : LuaOrder L} {t' : Nat}

/-- One inclusion between the copies of two tables. -/
theorem children_le (h : L.Acyclic (.table t)) (h' : L.Acyclic (.table t')) (hclean' : L.Clean t')
    (hsame : ∀ name, (∃ u, L.Entry t name u) → ∃ u, L.Entry t' name u)
    (hcopy : ∀ name u u', L.Entry t name u → L.Entry t' name u' → o.state.copy u = o'.state.copy u')
    {a : LuaObject} (hname : o.state.children t name = some a) :
    o'.state.children t' name = some a := by
  obtain ⟨u, b, hentry, hb, rfl⟩ := entry_of_children_eq_some o h hname
  obtain ⟨u', hentry'⟩ := hsame name ⟨u, hentry⟩
  obtain ⟨a', ha'⟩ := Option.isSome_iff_exists.mp (children_isSome o' h' hclean' hentry')
  obtain ⟨u'', b', hentry'', hb', rfl⟩ := entry_of_children_eq_some o' h' ha'
  rw [← hcopy name u u'' hentry hentry'', hb] at hb'
  rw [ha', Option.some.inj hb']

theorem children_eq (h : L.Acyclic (.table t)) (h' : L.Acyclic (.table t')) (hclean : L.Clean t)
    (hclean' : L.Clean t') (hsame : L.Same (.table t) (.table t'))
    (hcopy : ∀ name u u', L.Entry t name u → L.Entry t' name u' →
      o.state.copy u = o'.state.copy u') : o.state.children t = o'.state.children t' := by
  funext name
  refine Option.ext fun a => ⟨fun hname => ?_, fun hname => ?_⟩
  · exact children_le h h' hclean' (fun name => (hsame name).mp) hcopy hname
  · exact children_le h' h hclean (fun name => (hsame name).mpr)
      (fun name u u' hu hu' => (hcopy name u' u hu' hu).symm) hname

end Copies

/-- What the names lead to from two values is alike. -/
structure Coherent (L : LuaState) (v w : LuaValue) : Prop where
  clean_left : ∀ path t, L.Leads v path (.table t) → L.Clean t
  clean_right : ∀ path t, L.Leads w path (.table t) → L.Clean t
  same : ∀ path u u', L.Leads v path u → L.Leads w path u' → L.Same u u'

theorem Coherent.entry {t' : Nat} (h : L.Coherent (.table t) (.table t')) {u' : LuaValue}
    (hu : L.Entry t name u) (hu' : L.Entry t' name u') : L.Coherent u u' where
  clean_left path s hleads := h.clean_left (name :: path) s ⟨t, u, rfl, hu, hleads⟩
  clean_right path s hleads := h.clean_right (name :: path) s ⟨t', u', rfl, hu', hleads⟩
  same path x x' hleads hleads' :=
    h.same (name :: path) x x' ⟨t, u, rfl, hu, hleads⟩ ⟨t', u', rfl, hu', hleads'⟩

/-- Coherent values have one copy, in any two orders. -/
theorem Coherent.copy_eq (hacyclic : L.Acyclic v) (hacyclic' : L.Acyclic w) (hobject : L.IsObject v)
    (hobject' : L.IsObject w) (h : L.Coherent v w) (o o' : LuaOrder L) :
    o.state.copy v = o'.state.copy w := by
  induction hacyclic generalizing w with
  | intro v hvalues ih =>
    have hsame := h.same [] v w rfl rfl
    cases v with
    | number x =>
      cases w with
      | number y => rw [copy_number, copy_number, show x = y from hsame]
      | _ => cases hsame
    | string x =>
      cases w with
      | string y => rw [copy_string, copy_string, show cText x = cText y from hsame]
      | _ => cases hsame
    | table t =>
      cases w with
      | table t' =>
        have hacyclic : L.Acyclic (.table t) := ⟨_, hvalues⟩
        have hchildren : o.state.children t = o'.state.children t' := by
          refine children_eq hacyclic hacyclic' (h.clean_left [] t rfl) (h.clean_right [] t' rfl)
            hsame fun name u u' hu hu' => ?_
          obtain ⟨hobj, e, he, hkey, rfl⟩ := hu
          exact ih t rfl e he (hacyclic'.entry hu') hobj hu'.1
            (h.entry ⟨hobj, e, he, hkey, rfl⟩ hu')
        rw [copy_object (hacyclic.state o) ((isObject_state_iff o).mpr hobject),
          copy_object (hacyclic'.state o') ((isObject_state_iff o').mpr hobject'), hchildren]
      | _ => cases hsame
    | _ => cases hobject

theorem Agrees.coherent (h : L.Agrees t) : L.Coherent (.table t) (.table t) where
  clean_left := h.clean
  clean_right := h.clean
  same := h.same

theorem Agrees.children_eq (hacyclic : L.Acyclic (.table t)) (h : L.Agrees t) (o o' : LuaOrder L) :
    o.state.children t = o'.state.children t := by
  have hclean := h.clean [] t rfl
  refine LuaState.children_eq hacyclic hacyclic hclean hclean (h.same [] _ _ rfl rfl)
    fun name u u' hu hu' => ?_
  exact (h.coherent.entry hu hu').copy_eq (hacyclic.entry hu) (hacyclic.entry hu') hu.1 hu'.1 o o'

/-! ## From the copy to the names -/

/-- A table stands in a value, or is it. -/
inductive Under (L : LuaState) : LuaValue → Nat → Prop
  | self (t : Nat) : Under L (.table t) t
  | nested {t s : Nat} {e : LuaEntry} (he : e ∈ (L.tables t).entries) (h : Under L e.2 s) :
      Under L (.table t) s

theorem Under.trans {r : Nat} (h : L.Under v s) (h' : L.Under (.table s) r) : L.Under v r := by
  induction h with
  | self t => exact h'
  | nested he _ ih => exact .nested he (ih h')

theorem Under.exists_table (h : L.Under v s) : ∃ t, v = .table t := by
  cases h with
  | self => exact ⟨s, rfl⟩
  | nested he h => exact ⟨_, rfl⟩

/-- An acyclic table does not stand in its values. -/
theorem Acyclic.not_under (h : L.Acyclic v) :
    ∀ t, v = .table t → ∀ e ∈ (L.tables t).entries, ¬L.Under e.2 t := by
  induction h with
  | intro v _ ih =>
    intro t ht e he hunder
    obtain ⟨t', ht'⟩ := hunder.exists_table
    have hnot := ih t ht e he t' ht'
    rw [ht'] at hunder
    have hinner : L.Under (.table t) t' := by
      refine .nested he ?_
      rw [ht']
      exact .self t'
    cases hunder with
    | self => exact hnot e he (ht' ▸ .self t)
    | nested hf h => exact hnot _ hf (h.trans hinner)

/-- The copy depends on the order of what stands in the value only. -/
theorem copy_congr {o o' : LuaOrder L} (hacyclic : L.Acyclic v)
    (h : ∀ s, L.Under v s → o.entries s = o'.entries s) : o.state.copy v = o'.state.copy v := by
  induction hacyclic with
  | intro v hvalues ih =>
    cases v with
    | number x => rw [copy_number, copy_number]
    | string x => rw [copy_string, copy_string]
    | table t =>
      have hacyclic : L.Acyclic (.table t) := ⟨_, hvalues⟩
      have hentries : (o.state.tables t).entries = (o'.state.tables t).entries := h t (.self t)
      have hchildren : o.state.children t = o'.state.children t := by
        rw [children, children, hentries]
        refine copyEntries_congr (fun e he => ?_) _
        have hmem := o'.mem_iff.mp he
        exact ih t rfl e hmem fun s hs => h s (.nested hmem hs)
      rw [copy_table (hacyclic.state o), copy_table (hacyclic.state o'), hchildren, rawget, rawget,
        LuaTable.get, LuaTable.get, hentries]
    | _ => rw [copy_of_depth (depth_zero LuaType.noConfusion),
        copy_of_depth (depth_zero LuaType.noConfusion)]; rfl

/-- The object of a value; that of a table also where `GetLuaObjectFromStack` makes none, as the
table has a field 1. -/
noncomputable def object (L : LuaState) : LuaValue → Option LuaObject
  | .table t => some (.luatable [] (L.children t))
  | v => L.copy v

theorem object_of_isObject (h : L.Acyclic v) (hobject : L.IsObject v) : L.object v = L.copy v := by
  cases v with
  | table t => rw [object, copy_object h hobject]
  | _ => rfl

end LuaState

/-- What the names lead to from an object. -/
def LuaObject.descend : LuaObject → List LuaName → Option LuaObject
  | a, [] => some a
  | .luatable _ keyObjs, name :: path => (keyObjs name).bind fun a => a.descend path
  | _, _ :: _ => none

namespace LuaObject

theorem setName_setName (a : LuaObject) (name name' : LuaName) :
    (a.setName name).setName name' = a.setName name' := by
  cases a <;> rfl

theorem descend_setName (a : LuaObject) (name : LuaName) (path : List LuaName) :
    ((a.setName name).descend path).map (setName []) = (a.descend path).map (setName []) := by
  cases path with
  | nil => exact congrArg some (setName_setName a name [])
  | cons n path => cases a <;> rfl

end LuaObject

namespace LuaState

variable {L : LuaState} {v w u : LuaValue} {t s : Nat} {name : LuaName}

theorem object_number (x : LuaNumber) : L.object (.number x) = some (.luanumber [] x) :=
  copy_number x

theorem object_string (x : List UInt8) : L.object (.string x) = some (.luastring [] (cText x)) :=
  copy_string x

theorem object_table (t : Nat) : L.object (.table t) = some (.luatable [] (L.children t)) := rfl

theorem object_rest (h : v.type ≠ .number ∧ v.type ≠ .string ∧ v.type ≠ .table) :
    L.object v = none := by
  cases v with
  | number x => exact absurd rfl h.1
  | string x => exact absurd rfl h.2.1
  | table t => exact absurd rfl h.2.2
  | _ => exact copy_of_depth (depth_zero LuaType.noConfusion)

/-- An object is copied without a name. -/
theorem setName_of_object {a : LuaObject} (h : L.object v = some a) : a.setName [] = a := by
  cases v with
  | table t =>
    rw [← Option.some.inj h]
    rfl
  | number x =>
    rw [object_number] at h
    rw [← Option.some.inj h]
    rfl
  | string x =>
    rw [object_string] at h
    rw [← Option.some.inj h]
    rfl
  | _ =>
    rw [object_rest (by simp [LuaValue.type])] at h
    cases h

/-- There is an order in which an entry's object is what stands under its name. -/
theorem exists_order_of_entry (hacyclic : L.Acyclic (.table t)) (o : LuaOrder L)
    (hentry : L.Entry t name w) :
    ∃ o' : LuaOrder L, (∀ s, s ≠ t → o'.entries s = o.entries s) ∧
      o'.state.children t name = (o.state.copy w).map (LuaObject.setName name) := by
  obtain ⟨hobject, e, he, hkey, rfl⟩ := hentry
  obtain ⟨b, hb⟩ := exists_copy o (hacyclic.value he) hobject
  -- The copies of the entries do not change where the order changes in their table only.
  have hcopies : ∀ (o' : LuaOrder L), (∀ s, s ≠ t → o'.entries s = o.entries s) →
      Gives o'.state.copy name e b := by
    intro o' hothers
    refine ⟨hkey, ?_⟩
    rw [← hb]
    refine copy_congr (hacyclic.value he) fun s hs => hothers s ?_
    rintro rfl
    exact hacyclic.not_under s rfl e he hs
  by_cases hnone : ∃ f ∈ (L.tables t).entries, keyName f.1 = none
  · obtain ⟨f, hf, hfnone⟩ := hnone
    have hne : f ≠ e := by
      rintro rfl
      rw [hkey] at hfnone
      cases hfnone
    have hperm : (e :: f :: ((L.tables t).entries.erase e).erase f).Perm (L.tables t).entries :=
      ((List.perm_cons_erase ((List.mem_erase_of_ne hne).mpr hf)).symm.cons e).trans
        (List.perm_cons_erase he).symm
    have hothers : ∀ s, s ≠ t → (o.update t _ hperm).entries s = o.entries s :=
      fun s hs => o.update_of_ne hs _ hperm
    refine ⟨o.update t _ hperm, hothers, ?_⟩
    have hentries : ((o.update t _ hperm).state.tables t).entries = _ := o.update_self t _ hperm
    rw [hb, children, hentries]
    exact copyEntries_before_none (hcopies _ hothers) hfnone
  · have hperm : ((L.tables t).entries.erase e ++ [e]).Perm (L.tables t).entries :=
      (List.perm_append_singleton e _).trans (List.perm_cons_erase he).symm
    have hothers : ∀ s, s ≠ t → (o.update t _ hperm).entries s = o.entries s :=
      fun s hs => o.update_of_ne hs _ hperm
    refine ⟨o.update t _ hperm, hothers, ?_⟩
    have hentries : ((o.update t _ hperm).state.tables t).entries = _ := o.update_self t _ hperm
    rw [hb, children, hentries]
    exact copyEntries_last (fun f hf hfnone => hnone ⟨f, List.mem_of_mem_erase hf, hfnone⟩)
      (hcopies _ hothers)

theorem Leads.under {path : List LuaName} (h : L.Leads v path w) (hs : L.Under w s) :
    L.Under v s := by
  induction path generalizing v with
  | nil =>
    rw [show v = w from h]
    exact hs
  | cons name path ih =>
    obtain ⟨t, u, rfl, ⟨-, e, he, -, rfl⟩, hleads⟩ := h
    exact .nested he (ih hleads)

/-- There is an order in which the object of a value that the names lead to is what they lead to in
the copy. In the value itself the order can be given before. -/
theorem exists_order_of_leads (hacyclic : L.Acyclic v) (o : LuaOrder L) {path : List LuaName}
    (hleads : L.Leads v path w) :
    ∃ o' : LuaOrder L, (∀ s, L.Under w s → o'.entries s = o.entries s) ∧
      ((o'.state.object v).bind fun a => a.descend path).map (LuaObject.setName []) =
        o.state.object w := by
  induction path generalizing v with
  | nil =>
    refine ⟨o, fun _ _ => rfl, ?_⟩
    rw [show v = w from hleads]
    cases hobject : o.state.object w with
    | none => rfl
    | some a => exact congrArg some (setName_of_object hobject)
  | cons name path ih =>
    obtain ⟨t, u, rfl, hentry, hleads⟩ := hleads
    obtain ⟨o₁, hunder, hdescend⟩ := ih (hacyclic.entry hentry) hleads
    obtain ⟨o₂, hothers, hname⟩ := exists_order_of_entry hacyclic o₁ hentry
    refine ⟨o₂, fun s hs => ?_, ?_⟩
    · rw [hothers s ?_, hunder s hs]
      rintro rfl
      obtain ⟨-, e, he, -, rfl⟩ := hentry
      exact hacyclic.not_under s rfl e he (hleads.under hs)
    · rw [object_of_isObject ((hacyclic.entry hentry).state o₁)
        ((isObject_state_iff o₁).mpr hentry.1)] at hdescend
      rw [object, Option.bind_some, LuaObject.descend, hname, ← hdescend]
      cases o₁.state.copy u with
      | none => rfl
      | some b => exact LuaObject.descend_setName b name path

/-! ## Both directions -/

/-- The children do not depend on the order. -/
def Settled (L : LuaState) (t : Nat) : Prop :=
  ∀ o o' : LuaOrder L, o.state.children t = o'.state.children t

/-- In a table that is not clean the order decides whether a name is there. -/
theorem exists_orders_of_not_clean (hacyclic : L.Acyclic (.table t)) (h : ¬L.Clean t) :
    ∃ o o' : LuaOrder L, o.state.children t ≠ o'.state.children t := by
  obtain ⟨⟨f, hf, hnone⟩, hentries⟩ := Classical.not_imp.mp h
  obtain ⟨name, w, hentry⟩ : ∃ name w, L.Entry t name w := by
    by_contra hall
    exact hentries fun name w hentry => hall ⟨name, w, hentry⟩
  obtain ⟨b, hb⟩ := exists_copy (.self L) (hacyclic.entry hentry) hentry.1
  obtain ⟨o, -, hname⟩ := exists_order_of_entry hacyclic (.self L) hentry
  have hperm : (f :: (L.tables t).entries.erase f).Perm (L.tables t).entries :=
    (List.perm_cons_erase hf).symm
  refine ⟨o, o.update t _ hperm, fun heq => ?_⟩
  have hfirst : ((o.update t _ hperm).state.tables t).entries = _ := o.update_self t _ hperm
  have hempty : (o.update t _ hperm).state.children t name = none := by
    rw [children, hfirst, copyEntries_of_none hnone]
  rw [← heq, hname, hb] at hempty
  cases hempty

/-- What the names lead to has one object, in the order that is chosen for it. -/
theorem Settled.object_eq (hacyclic : L.Acyclic (.table t)) (h : L.Settled t) {path : List LuaName}
    (hv : L.Leads (.table t) path v) (hw : L.Leads (.table t) path w) (o o' : LuaOrder L) :
    o.state.object v = o'.state.object w := by
  obtain ⟨o₁, -, hdescend⟩ := exists_order_of_leads hacyclic o hv
  obtain ⟨o₂, -, hdescend'⟩ := exists_order_of_leads hacyclic o' hw
  rw [← hdescend, ← hdescend', object, object, h o₁ o₂]

theorem Leads.acyclic {path : List LuaName} (h : L.Leads v path w) (hacyclic : L.Acyclic v) :
    L.Acyclic w := by
  induction path generalizing v with
  | nil =>
    rw [← show v = w from h]
    exact hacyclic
  | cons name path ih =>
    obtain ⟨t, u, rfl, hentry, hleads⟩ := h
    exact ih hleads (hacyclic.entry hentry)

theorem Leads.isObject_or_eq {path : List LuaName} (h : L.Leads v path w) :
    L.IsObject w ∨ w = v := by
  induction path generalizing v with
  | nil => exact .inr (show v = w from h).symm
  | cons name path ih =>
    obtain ⟨t, u, rfl, hentry, hleads⟩ := h
    rcases ih hleads with hobject | rfl
    · exact .inl hobject
    · exact .inl hentry.1

/-- A name of a clean table is one of its copy, and the other way round. -/
theorem exists_entry_iff (o : LuaOrder L) (hacyclic : L.Acyclic (.table t)) (hclean : L.Clean t) :
    (∃ u, L.Entry t name u) ↔ (o.state.children t name).isSome := by
  constructor
  · rintro ⟨u, hentry⟩
    exact children_isSome o hacyclic hclean hentry
  · intro hsome
    obtain ⟨a, ha⟩ := Option.isSome_iff_exists.mp hsome
    obtain ⟨u, b, hentry, -, -⟩ := entry_of_children_eq_some o hacyclic ha
    exact ⟨u, hentry⟩

/-- Values of one object look the same. -/
theorem same_of_object_eq (o : LuaOrder L) (hv : L.Acyclic v) (hw : L.Acyclic w)
    (hcleanv : ∀ t, v = .table t → L.Clean t) (hcleanw : ∀ t, w = .table t → L.Clean t)
    (hkind : L.IsObject v ∨ v.type = .table) (h : o.state.object v = o.state.object w) :
    L.Same v w := by
  cases v with
  | number x =>
    rw [object_number] at h
    cases w with
    | number y =>
      rw [object_number] at h
      exact (LuaObject.luanumber.inj (Option.some.inj h)).2
    | string y =>
      rw [object_string] at h
      cases h
    | table t => cases h
    | _ =>
      rw [object_rest (by simp [LuaValue.type])] at h
      cases h
  | string x =>
    rw [object_string] at h
    cases w with
    | number y =>
      rw [object_number] at h
      cases h
    | string y =>
      rw [object_string] at h
      exact (LuaObject.luastring.inj (Option.some.inj h)).2
    | table t => cases h
    | _ =>
      rw [object_rest (by simp [LuaValue.type])] at h
      cases h
  | table t =>
    rw [object_table] at h
    cases w with
    | number y =>
      rw [object_number] at h
      cases h
    | string y =>
      rw [object_string] at h
      cases h
    | table t' =>
      intro name
      have hchildren : o.state.children t = o.state.children t' :=
        (LuaObject.luatable.inj (Option.some.inj h)).2
      rw [exists_entry_iff o hv (hcleanv t rfl), exists_entry_iff o hw (hcleanw t' rfl), hchildren]
    | _ =>
      rw [object_rest (by simp [LuaValue.type])] at h
      cases h
  | _ =>
    rcases hkind with hobject | htable
    · cases hobject
    · cases htable

theorem Settled.agrees (hacyclic : L.Acyclic (.table t)) (h : L.Settled t) : L.Agrees t := by
  have hclean : ∀ path t', L.Leads (.table t) path (.table t') → L.Clean t' := by
    intro path t' hleads
    by_contra hnot
    obtain ⟨o, o', hne⟩ := exists_orders_of_not_clean (hleads.acyclic hacyclic) hnot
    exact hne (LuaObject.luatable.inj (Option.some.inj (h.object_eq hacyclic hleads hleads o o'))).2
  refine ⟨hclean, fun path v w hv hw => ?_⟩
  refine same_of_object_eq (.self L) (hv.acyclic hacyclic) (hw.acyclic hacyclic) ?_ ?_ ?_
    (h.object_eq hacyclic hv hw _ _)
  · rintro t' rfl
    exact hclean path t' hv
  · rintro t' rfl
    exact hclean path t' hw
  · rcases hv.isObject_or_eq with hobject | rfl
    · exact .inl hobject
    · exact .inr rfl

/-- In any two orders `luatable::GetFromStack` returns with one map of names to values, and leaves
the stack. -/
def OrderFree (L : LuaState) (t : Nat) (below : List LuaValue) : Prop :=
  ∀ o o' : LuaOrder L, ∃ least keyObjs S S', ∀ fuel, least ≤ fuel →
    getFromStack fuel (o.state.withStack (.table t :: below)) (fun _ => none) =
        some ((o.state.withSize S).withStack (.table t :: below), keyObjs) ∧
      getFromStack fuel (o'.state.withStack (.table t :: below)) (fun _ => none) =
        some ((o'.state.withSize S').withStack (.table t :: below), keyObjs)

section Bounded

variable {depth : Nat} {below : List LuaValue}

theorem orderFree_iff_settled (hdepth : L.Depth depth (.table t))
    (hin : L.base + below.length + 3 ≤ L.stacksize)
    (hlimit : below.length + 1 + 2 * depth ≤ luaiMaxCStack) :
    L.OrderFree t below ↔ L.Settled t := by
  have hreads : ∀ o : LuaOrder L, ∃ least S, ∀ fuel, least ≤ fuel →
      getFromStack fuel (o.state.withStack (.table t :: below)) (fun _ => none) =
        some ((o.state.withSize S).withStack (.table t :: below), o.state.children t) :=
    fun o => getFromStack_children (hdepth.state o) hin hlimit
  constructor
  · intro h o o'
    obtain ⟨least, keyObjs, S, S', hfree⟩ := h o o'
    obtain ⟨least₁, S₁, hread⟩ := hreads o
    obtain ⟨least₂, S₂, hread'⟩ := hreads o'
    obtain ⟨hfirst, hsecond⟩ := hfree (least + least₁ + least₂) (by omega)
    rw [hread _ (by omega)] at hfirst
    rw [hread' _ (by omega)] at hsecond
    rw [(Prod.mk.inj (Option.some.inj hfirst)).2, (Prod.mk.inj (Option.some.inj hsecond)).2]
  · intro h o o'
    obtain ⟨least₁, S, hread⟩ := hreads o
    obtain ⟨least₂, S', hread'⟩ := hreads o'
    refine ⟨least₁ + least₂, o.state.children t, S, S', fun fuel hfuel =>
      ⟨hread fuel (by omega), ?_⟩⟩
    rw [h o o']
    exact hread' fuel (by omega)

end Bounded

/-- The copy of an acyclic table is the same in every order of the entries, of its own and of those
nested in it, exactly if the names decide what is found. The tables are nested as deep as Lua's
stack allows. -/
theorem orderFree_iff_agrees (L : LuaState) (t depth : Nat) (below : List LuaValue)
    (hdepth : L.Depth depth (.table t)) (hin : L.base + below.length + 3 ≤ L.stacksize)
    (hlimit : below.length + 1 + 2 * depth ≤ luaiMaxCStack) :
    L.OrderFree t below ↔ L.Agrees t := by
  rw [orderFree_iff_settled hdepth hin hlimit]
  exact ⟨fun h => h.agrees hdepth.acyclic, fun h => h.children_eq hdepth.acyclic⟩

/-- A key that gives no name, beside entries that give objects. -/
theorem orderFree_iff_agrees_nested : ¬nestedState.OrderFree 0 [] := by
  intro hfree
  have hagrees := (orderFree_iff_agrees nestedState 0 2 [] nestedState_depth (by decide)
    (by decide)).mp hfree
  have hentry : nestedState.Entry 0 [97] (.table 1) :=
    ⟨rfl, (.string [97], .table 1), .head _, by decide, rfl⟩
  exact hagrees.clean [] 0 rfl ⟨(.boolean true, .number 0), .tail _ (.head _), rfl⟩ _ _ hentry

/-- The number 2. -/
def two : LuaNumber := 0x4000000000000000#64

/-- A table with the text 2 and the number 2 as keys, and the values 1 and 2. -/
def twoTwos : LuaState where
  stack := []
  tables _ :=
    { entries := [(.string [50], .number LuaNumber.one), (.number two, .number two)]
      metatable := none
      valid := by decide
      apart := by decide }
  userdata _ := ⟨none, none⟩
  typeMetatable _ := none
  globals := 1
  registry := 2
  tableCount := 3
  userdataCount := 0

/-- Both keys give one name, so the order decides which value is under it. -/
theorem two_twos_not_orderFree : twoTwos.Acyclic (.table 0) ∧ ¬twoTwos.OrderFree 0 [] := by
  have hdepth : twoTwos.Depth 1 (.table 0) := by
    intro t ht e he t' ht'
    have hnumber : ∀ e ∈ [(LuaValue.string [50], LuaValue.number LuaNumber.one),
        (.number two, .number two)], e.2.type = .number := by decide
    have htype := hnumber e he
    rw [ht'] at htype
    cases htype
  refine ⟨hdepth.acyclic, fun hfree => ?_⟩
  have hsettled := (orderFree_iff_settled hdepth (by decide) (by decide)).mp hfree
  have hagrees := hsettled.agrees hdepth.acyclic
  have htext : twoTwos.Entry 0 [50] (.number LuaNumber.one) :=
    ⟨trivial, (.string [50], .number LuaNumber.one), .head _, by decide, rfl⟩
  have hnumber : twoTwos.Entry 0 [50] (.number two) :=
    ⟨trivial, (.number two, .number two), .tail _ (.head _), by decide, rfl⟩
  have hsame : LuaNumber.one = two :=
    hagrees.same [[50]] _ _ ⟨0, _, rfl, htext, rfl⟩ ⟨0, _, rfl, hnumber, rfl⟩
  exact absurd hsame (by decide)

end LuaState

end MmDriver

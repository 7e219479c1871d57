import MmDriver.Laws.Common.LuaStack

/-!
# The copy of an acyclic value

What is read from an acyclic value, without a bound on how deep it is nested, and what stands under
a name in the copy of a table.
-/

namespace MmDriver

namespace LuaState

variable {L : LuaState} {v : LuaValue} {t : Nat}

/-! ## The copy of a value -/

theorem copyEntries_congr {copy copy' : LuaValue → Option LuaObject} {entries : List LuaEntry}
    (h : ∀ e ∈ entries, copy e.2 = copy' e.2) (keyObjs : LuaObjectMap) :
    copyEntries copy entries keyObjs = copyEntries copy' entries keyObjs := by
  induction entries generalizing keyObjs with
  | nil => rfl
  | cons e rest ih =>
    rw [copyEntries, copyEntries]
    cases keyName e.1 with
    | none => rfl
    | some pname =>
      dsimp only
      rw [h e (.head _)]
      exact ih (fun f hf => h f (.tail _ hf)) _

/-- The bound does not matter, where it is one. -/
theorem copyTo_stable {depth depth' : Nat} (h : L.Depth depth v) (h' : L.Depth depth' v) :
    L.copyTo depth v = L.copyTo depth' v := by
  induction depth generalizing depth' v with
  | zero =>
    cases v with
    | table t => exact absurd rfl (h t)
    | _ => cases depth' <;> rfl
  | succ depth ih =>
    cases v with
    | table t =>
      cases depth' with
      | zero => exact absurd rfl (h' t)
      | succ depth' =>
        rw [copyTo, copyTo,
          copyEntries_congr fun e he => ih (h t rfl e he) (h' t rfl e he)]
    | _ => cases depth' <;> rfl

open Classical in
/-- What is read from a value. -/
noncomputable def copy (L : LuaState) (v : LuaValue) : Option LuaObject :=
  if h : ∃ depth, L.Depth depth v then L.copyTo h.choose v else none

theorem copy_of_depth {depth : Nat} (h : L.Depth depth v) : L.copy v = L.copyTo depth v := by
  have hexists : ∃ depth, L.Depth depth v := ⟨depth, h⟩
  rw [copy, dif_pos hexists]
  exact copyTo_stable hexists.choose_spec h

theorem reads_copy (h : L.Acyclic v) : L.Reads v (L.copy v) := by
  obtain ⟨depth, hdepth⟩ := h.exists_depth
  rw [copy_of_depth hdepth]
  exact reads_copyTo hdepth

/-- The children that `luatable::GetFromStack` copies. -/
noncomputable def children (L : LuaState) (t : Nat) : LuaObjectMap :=
  copyEntries L.copy (L.tables t).entries fun _ => none

theorem depth_zero (h : v.type ≠ .table) : L.Depth 0 v := by
  rintro t rfl
  exact h rfl

theorem copy_number (x : LuaNumber) : L.copy (.number x) = some (.luanumber [] x) :=
  copy_of_depth (depth_zero LuaType.noConfusion)

theorem copy_string (s : List UInt8) : L.copy (.string s) = some (.luastring [] (cText s)) :=
  copy_of_depth (depth_zero LuaType.noConfusion)

theorem Acyclic.value (h : L.Acyclic (.table t)) {e : LuaEntry}
    (he : e ∈ (L.tables t).entries) : L.Acyclic e.2 := by
  cases h with
  | intro _ h => exact h t rfl e he

theorem copy_table (h : L.Acyclic (.table t)) :
    L.copy (.table t) =
      if L.rawget t (.number LuaNumber.one) = .nil then some (.luatable [] (L.children t))
      else none := by
  obtain ⟨depth, hdepth⟩ := exists_depth_of_entries fun e he => (h.value he).exists_depth
  have hsucc : L.Depth (depth + 1) (.table t) :=
    fun t' ht' => LuaValue.table.inj ht' ▸ hdepth
  rw [copy_of_depth hsucc, copyTo, children,
    copyEntries_congr fun e he => (copy_of_depth (hdepth e he)).symm]

/-- `GetLuaObjectFromStack` makes an object of a value. -/
def IsObject (L : LuaState) : LuaValue → Prop
  | .number _ | .string _ => True
  | .table t => L.rawget t (.number LuaNumber.one) = .nil
  | _ => False

theorem copy_object (h : L.Acyclic (.table t)) (hobject : L.IsObject (.table t)) :
    L.copy (.table t) = some (.luatable [] (L.children t)) := by
  rw [copy_table h]
  exact if_pos hobject

theorem copy_isSome_iff (h : L.Acyclic v) : (L.copy v).isSome ↔ L.IsObject v := by
  cases v with
  | number x => simp [copy_number, IsObject]
  | string s => simp [copy_string, IsObject]
  | table t =>
    rw [copy_table h, IsObject]
    split <;> simp_all
  | _ =>
    rw [copy_of_depth (depth_zero LuaType.noConfusion)]
    simp [copyTo, IsObject]

theorem getFromStack_children {depth : Nat} {below : List LuaValue} (h : L.Depth depth (.table t))
    (hin : L.base + below.length + 3 ≤ L.stacksize)
    (hlimit : below.length + 1 + 2 * depth ≤ luaiMaxCStack) :
    ∃ least S', ∀ fuel, least ≤ fuel →
      getFromStack fuel (L.withStack (.table t :: below)) (fun _ => none) =
        some ((L.withSize S').withStack (.table t :: below), L.children t) := by
  cases depth with
  | zero => exact absurd rfl (h t)
  | succ depth =>
    obtain ⟨least, hread⟩ := getFromStack_reads fun e he => reads_copy (h.acyclic.value he)
    exact ⟨least, hread below L.stacksize _ (by omega) (fun _ => hin) fun e he =>
      hasSlots_of_depth (h t rfl e (mem_of_named he)) (by omega) (by omega) (by omega)⟩

/-! ## What stands under a name -/

/-- Nothing stands under a key that no entry has. -/
theorem rawget_eq_nil_iff {key : LuaValue} :
    L.rawget t key = .nil ↔ ∀ e ∈ (L.tables t).entries, e.1.rawEqual key = false := by
  rw [rawget, LuaTable.get, LuaTable.find]
  cases hfind : (L.tables t).entries.find? fun e => e.1.rawEqual key with
  | none =>
    have hnone := List.find?_eq_none.mp hfind
    simp only [Option.map_none, Option.getD_none, true_iff]
    exact fun e he => Bool.eq_false_iff.mpr (hnone e he)
  | some e =>
    have hmem := List.mem_of_find?_eq_some hfind
    have hkey := List.find?_some hfind
    simp only [Option.map_some, Option.getD_some]
    refine ⟨fun hnil => absurd hnil ((L.tables t).valid e hmem).2, fun hall => ?_⟩
    exact absurd hkey (Bool.eq_false_iff.mp (hall e hmem))

/-- An entry is named so, and its value gives that object. -/
def Gives (copy : LuaValue → Option LuaObject) (name : LuaName) (e : LuaEntry) (a : LuaObject) :
    Prop := keyName e.1 = some name ∧ copy e.2 = some a

section Entries

variable {copy : LuaValue → Option LuaObject} {entries before rest : List LuaEntry} {e : LuaEntry}
  {name : LuaName} {a : LuaObject} {keyObjs : LuaObjectMap}

theorem insertObject_self (keyObjs : LuaObjectMap) (name : LuaName) (a : LuaObject) :
    insertObject keyObjs name (some a) name = some (a.setName name) :=
  Function.update_self ..

theorem insertObject_of_ne {name' : LuaName} (h : name ≠ name') (pvar : Option LuaObject) :
    insertObject keyObjs name' pvar name = keyObjs name := by
  cases pvar with
  | none => rfl
  | some a => exact Function.update_of_ne h ..

/-- An object under a name was there before, or comes from an entry. -/
theorem copyEntries_eq_some (h : copyEntries copy entries keyObjs name = some a) :
    keyObjs name = some a ∨ ∃ e ∈ entries, ∃ b, Gives copy name e b ∧ a = b.setName name := by
  induction entries generalizing keyObjs with
  | nil => exact .inl h
  | cons e rest ih =>
    rw [copyEntries] at h
    cases hname : keyName e.1 with
    | none =>
      rw [hname] at h
      exact .inl h
    | some pname =>
      rw [hname] at h
      rcases ih h with hbefore | ⟨f, hf, b, hgives, hb⟩
      · by_cases hsame : name = pname
        · cases hcopy : copy e.2 with
          | none =>
            rw [hcopy] at hbefore
            exact .inl hbefore
          | some b =>
            rw [hcopy, hsame, insertObject_self] at hbefore
            exact .inr ⟨e, .head _, b, ⟨hsame ▸ hname, hcopy⟩, hsame ▸ (Option.some.inj hbefore).symm⟩
        · rw [insertObject_of_ne hsame] at hbefore
          exact .inl hbefore
      · exact .inr ⟨f, .tail _ hf, b, hgives, hb⟩

/-- A name is not lost again. -/
theorem copyEntries_isSome_of_isSome (h : (keyObjs name).isSome) :
    (copyEntries copy entries keyObjs name).isSome := by
  induction entries generalizing keyObjs with
  | nil => exact h
  | cons e rest ih =>
    rw [copyEntries]
    cases keyName e.1 with
    | none => exact h
    | some pname =>
      refine ih ?_
      by_cases hsame : name = pname
      · cases hcopy : copy e.2 with
        | none => exact h
        | some b => rw [hsame, insertObject_self, Option.isSome_some]
      · rw [insertObject_of_ne hsame]
        exact h

/-- Where every key gives a name, the entries' names are all there. -/
theorem copyEntries_isSome (hkeys : ∀ e ∈ entries, keyName e.1 ≠ none) (he : e ∈ entries)
    (hgives : Gives copy name e a) : (copyEntries copy entries keyObjs name).isSome := by
  induction entries generalizing keyObjs with
  | nil => cases he
  | cons f rest ih =>
    rw [copyEntries]
    obtain ⟨pname, hname⟩ := Option.ne_none_iff_exists'.mp (hkeys f (.head _))
    rw [hname]
    rcases List.mem_cons.mp he with rfl | he
    · rw [hgives.1] at hname
      rw [← Option.some.inj hname, hgives.2]
      refine copyEntries_isSome_of_isSome ?_
      rw [insertObject_self, Option.isSome_some]
    · exact ih (fun g hg => hkeys g (.tail _ hg)) he

/-- The last entry stays. -/
theorem copyEntries_last (hkeys : ∀ e ∈ before, keyName e.1 ≠ none) (hgives : Gives copy name e a) :
    copyEntries copy (before ++ [e]) keyObjs name = some (a.setName name) := by
  induction before generalizing keyObjs with
  | nil =>
    rw [List.nil_append, copyEntries, hgives.1, hgives.2]
    exact insertObject_self keyObjs name a
  | cons f before ih =>
    obtain ⟨pname, hname⟩ := Option.ne_none_iff_exists'.mp (hkeys f (.head _))
    rw [List.cons_append, copyEntries, hname]
    exact ih fun g hg => hkeys g (.tail _ hg)

/-- A key that gives no name ends the reading. -/
theorem copyEntries_of_none (h : keyName e.1 = none) :
    copyEntries copy (e :: rest) keyObjs = keyObjs := by
  rw [copyEntries, h]

/-- The entry before such a key is the last. -/
theorem copyEntries_before_none {f : LuaEntry} (hgives : Gives copy name e a)
    (hnone : keyName f.1 = none) :
    copyEntries copy (e :: f :: rest) keyObjs name = some (a.setName name) := by
  rw [copyEntries, hgives.1, hgives.2]
  dsimp only
  rw [copyEntries_of_none hnone]
  exact insertObject_self keyObjs name a

end Entries

end LuaState

end MmDriver

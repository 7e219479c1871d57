import Mathlib.Data.List.Pairwise
import Mathlib.Data.List.TakeWhile
import MmDriver.Common.LuaCache
import MmDriver.Laws.Common.LuaCopy
import MmDriver.Laws.Common.StringUtility

/-!
# Looking a dotted path up

Where the globals are a configuration, an object that was read gives for every list of names what
indexing the value gives. A lookup's result is a function of the objects that are kept, and these
stay, so a path keeps its object.
-/

namespace MmDriver

open LuaObject (walk)

namespace LuaState

variable {L : LuaState} {v w : LuaValue} {t : Nat} {name : LuaName}

/-! ## A configuration -/

/-- 1 to 255 bytes, without a dot and a NUL. -/
def IsConfigKey (k : LuaName) : Prop := k ≠ [] ∧ k.length ≤ 255 ∧ 46 ∉ k ∧ 0 ∉ k

/-- A number, a string without a NUL, or a table of such under configuration keys. As it is built up
from such values, it is acyclic. -/
inductive IsConfig (L : LuaState) : LuaValue → Prop
  | number (x : LuaNumber) : IsConfig L (.number x)
  | string (s : List UInt8) (hs : 0 ∉ s) : IsConfig L (.string s)
  | table (t : Nat)
      (hkeys : ∀ e ∈ (L.tables t).entries, ∃ k, e.1 = .string k ∧ IsConfigKey k)
      (hvalues : ∀ e ∈ (L.tables t).entries, IsConfig L e.2) : IsConfig L (.table t)

/-- The globals hold a configuration. -/
structure Configured (L : LuaState) : Prop where
  no_metatable : (L.tables L.globals).metatable = none
  values : ∀ e ∈ (L.tables L.globals).entries, L.IsConfig e.2

/-- The stack has room for what is read from the globals. -/
structure HasRoom (L : LuaState) (depth : Nat) : Prop where
  slot : L.base + L.stack.length + 1 ≤ L.stacksize
  values : ∀ e ∈ (L.tables L.globals).entries, L.Depth depth e.2
  limit : L.stack.length + 1 + 2 * depth ≤ luaiMaxCStack

/-- The value that the names lead to, one index after another. Nothing is there where a field does
not exist, or where what is indexed is not a table. -/
def indexed (L : LuaState) : LuaValue → List LuaName → Option LuaValue
  | .nil, _ => none
  | v, [] => some v
  | .table t, k :: rest => L.indexed (L.rawget t (.string k)) rest
  | _, _ :: _ => none

theorem IsConfig.acyclic (h : L.IsConfig v) : L.Acyclic v := by
  induction h with
  | number x => exact ⟨_, fun t ht => by cases ht⟩
  | string s hs => exact ⟨_, fun t ht => by cases ht⟩
  | table t _ _ ih => exact ⟨_, fun t' ht' => LuaValue.table.inj ht' ▸ ih⟩

theorem IsConfig.isObject (h : L.IsConfig v) : L.IsObject v := by
  cases h with
  | number x => trivial
  | string s hs => trivial
  | table t hkeys hvalues =>
    refine rawget_eq_nil_iff.mpr fun e he => ?_
    obtain ⟨k, hk, -⟩ := hkeys e he
    rw [hk]
    rfl

theorem cText_of_no_nul {s : List UInt8} (h : 0 ∉ s) : cText s = s :=
  List.takeWhile_eq_self_iff.mpr fun c hc => decide_eq_true fun hzero : c = 0 => h (hzero ▸ hc)

/-- A configuration key is the name of its entry. -/
theorem keyName_of_isConfigKey {k : LuaName} (h : IsConfigKey k) : keyName (.string k) = some k := by
  rw [keyName, strncpyText, cText_of_no_nul h.2.2.2, List.take_of_length_le h.2.1]

/-- What `lua_rawget` gives is the value of an entry, if it is not nil. -/
theorem exists_entry_of_rawget {key : LuaValue} (h : L.rawget t key ≠ .nil) :
    ∃ e ∈ (L.tables t).entries, e.1.rawEqual key = true ∧ e.2 = L.rawget t key := by
  rw [rawget, LuaTable.get, LuaTable.find] at h ⊢
  cases hfind : (L.tables t).entries.find? fun e => e.1.rawEqual key with
  | none =>
    rw [hfind] at h
    exact absurd rfl h
  | some e =>
    have hkey := List.find?_some hfind
    exact ⟨e, List.mem_of_find?_eq_some hfind, hkey, rfl⟩

/-- Two entries of one key are one. -/
theorem entry_unique {e f : LuaEntry} {k : LuaName} (he : e ∈ (L.tables t).entries)
    (hf : f ∈ (L.tables t).entries) (hek : e.1 = .string k) (hfk : f.1 = .string k) : e = f := by
  by_contra hne
  have hsymm : Std.Symm fun e f : LuaEntry => e.1.rawEqual f.1 = false :=
    ⟨fun _ _ h => (LuaValue.rawEqual_comm _ _).trans h⟩
  have hapart : e.1.rawEqual f.1 = false := (L.tables t).apart.forall he hf hne
  rw [hek, hfk, (LuaValue.rawEqual_iff (fun x h => LuaValue.noConfusion h)).mpr rfl] at hapart
  cases hapart

/-! ## What is read from it -/

/-- A child of a table's object is what was read from the field. -/
theorem children_of_config (h : L.IsConfig (.table t)) (k : LuaName) :
    L.children t k = (L.copy (L.rawget t (.string k))).map (LuaObject.setName k) := by
  cases h with
  | table t hkeys hvalues =>
    have hnamed : ∀ e ∈ (L.tables t).entries, keyName e.1 ≠ none := by
      intro e he
      obtain ⟨k', hk', hkey⟩ := hkeys e he
      rw [hk', keyName_of_isConfigKey hkey]
      exact Option.some_ne_none k'
    have hfound : ∀ e ∈ (L.tables t).entries, keyName e.1 = some k → e.1 = .string k := by
      intro e he hname
      obtain ⟨k', hk', hkey⟩ := hkeys e he
      rw [hk', keyName_of_isConfigKey hkey] at hname
      rw [hk', Option.some.inj hname]
    cases hchild : L.children t k with
    | none =>
      by_cases hnil : L.rawget t (.string k) = .nil
      · rw [hnil, copy_of_depth (depth_zero LuaType.noConfusion)]
        rfl
      · obtain ⟨e, he, hkey, hvalue⟩ := exists_entry_of_rawget hnil
        obtain ⟨k', hk', hconfig⟩ := hkeys e he
        have hsame : k' = k := by
          rw [hk', LuaValue.rawEqual_iff fun x h => LuaValue.noConfusion h] at hkey
          exact LuaValue.string.inj hkey
        have hcopy := (copy_isSome_iff (hvalues e he).acyclic).mpr (hvalues e he).isObject
        obtain ⟨a, ha⟩ := Option.isSome_iff_exists.mp hcopy
        have hsome : (L.children t k).isSome := copyEntries_isSome hnamed he
          ⟨by rw [hk', keyName_of_isConfigKey hconfig, hsame], ha⟩
        rw [hchild] at hsome
        cases hsome
    | some a =>
      rcases copyEntries_eq_some hchild with hnone | ⟨e, he, b, ⟨hname, hcopy⟩, rfl⟩
      · cases hnone
      · have hek := hfound e he hname
        have hne : L.rawget t (.string k) ≠ .nil := by
          intro hnil
          have hall := rawget_eq_nil_iff.mp hnil e he
          rw [hek, (LuaValue.rawEqual_iff (fun x h => LuaValue.noConfusion h)).mpr rfl] at hall
          cases hall
        obtain ⟨f, hf, hkey, hvalue⟩ := exists_entry_of_rawget hne
        obtain ⟨k', hk', -⟩ := hkeys f hf
        rw [hk', LuaValue.rawEqual_iff fun x h => LuaValue.noConfusion h] at hkey
        rw [← hvalue, ← entry_unique he hf hek (hk'.trans hkey), hcopy, Option.map_some]

/-- An object of the right kind, with the number or the text. -/
def Holds : Option LuaObject → Option LuaValue → Prop
  | some (.luanumber _ x), some (.number y) => x = y
  | some (.luastring _ s), some (.string s') => s = s'
  | some (.luatable _ _), some (.table _) => True
  | none, none => True
  | _, _ => False

theorem walk_none (path : List LuaName) : walk none path = none := by
  cases path <;> rfl

theorem IsConfig.rawget (h : L.IsConfig (.table t)) (k : LuaName) :
    L.rawget t (.string k) = .nil ∨ L.IsConfig (L.rawget t (.string k)) := by
  by_cases hnil : L.rawget t (.string k) = .nil
  · exact .inl hnil
  · obtain ⟨e, he, -, hvalue⟩ := exists_entry_of_rawget hnil
    rw [← hvalue]
    cases h with
    | table t _ hvalues => exact .inr (hvalues e he)

/-- The names lead in what was read to what they lead to in the value. -/
theorem holds_walk (h : v = .nil ∨ L.IsConfig v) (name : LuaName) (path : List LuaName) :
    Holds (walk ((L.copy v).map (LuaObject.setName name)) path) (L.indexed v path) := by
  induction path generalizing v name with
  | nil =>
    rcases h with rfl | h
    · rw [copy_of_depth (depth_zero LuaType.noConfusion)]
      trivial
    · cases h with
      | number x =>
        rw [copy_number]
        rfl
      | string s hs =>
        rw [copy_string, cText_of_no_nul hs]
        rfl
      | table t hkeys hvalues =>
        have hconfig : L.IsConfig (.table t) := .table t hkeys hvalues
        rw [copy_object hconfig.acyclic hconfig.isObject]
        trivial
  | cons k rest ih =>
    rcases h with rfl | h
    · rw [copy_of_depth (depth_zero LuaType.noConfusion)]
      trivial
    · cases h with
      | number x =>
        rw [copy_number]
        trivial
      | string s hs =>
        rw [copy_string]
        trivial
      | table t hkeys hvalues =>
        have hconfig : L.IsConfig (.table t) := .table t hkeys hvalues
        rw [copy_object hconfig.acyclic hconfig.isObject]
        have hchild : walk (some (LuaObject.luatable name (L.children t))) (k :: rest) =
            walk (L.children t k) rest := rfl
        have hstep : L.indexed (.table t) (k :: rest) =
            L.indexed (L.rawget t (.string k)) rest := rfl
        rw [Option.map_some, LuaObject.setName, hchild, hstep, children_of_config hconfig k]
        exact ih (hconfig.rawget k) k

/-- A global without a metatable on the globals is a field of their table. -/
theorem Configured.global (h : L.Configured) (call : Nat → LuaValue → LuaValue → Option LuaValue)
    (key : LuaValue) :
    L.gettable call key 100 (.table L.globals) = some (L.rawget L.globals key) :=
  L.gettable_of_no_metatable h.no_metatable call key 99

theorem Configured.value (h : L.Configured) (k : LuaName) :
    L.rawget L.globals (.string k) = .nil ∨ L.IsConfig (L.rawget L.globals (.string k)) := by
  by_cases hnil : L.rawget L.globals (.string k) = .nil
  · exact .inl hnil
  · obtain ⟨e, he, -, hvalue⟩ := exists_entry_of_rawget hnil
    rw [← hvalue]
    exact .inr (h.values e he)

theorem HasRoom.global {depth : Nat} (h : L.HasRoom depth) (key : LuaValue) :
    L.Depth depth (L.rawget L.globals key) := by
  by_cases hnil : L.rawget L.globals key = .nil
  · rw [hnil]
    exact (depth_zero LuaType.noConfusion).mono (Nat.zero_le depth)
  · obtain ⟨e, he, -, hvalue⟩ := exists_entry_of_rawget hnil
    rw [← hvalue]
    exact h.values e he

end LuaState

namespace LuaCache

open StringUtility (join)

variable {L : LuaState} {s s' : LuaCache} {strRoot : LuaName} {luaVec path : List LuaName}
  {depth : Nat}

/-! ## What is kept -/

/-- The value of a global. -/
def global (L : LuaState) (strRoot : LuaName) : LuaValue :=
  L.rawget L.globals (.string (cText strRoot))

/-- The objects that are kept are what the globals give, and of the state the array of the stack
has grown only. -/
structure Sound (L : LuaState) (s : LuaCache) : Prop where
  state : s.state = L.withSize s.state.stacksize
  size : L.stacksize ≤ s.state.stacksize
  cached : ∀ strRoot root, s.cacheObjs strRoot = some root →
    (L.copy (global L strRoot)).map (LuaObject.setName strRoot) = some root.2

/-- What is kept stays. -/
def Extends (s s' : LuaCache) : Prop :=
  ∀ strRoot root, s.cacheObjs strRoot = some root → s'.cacheObjs strRoot = some root

/-- A global that was looked up is kept, or there is nothing to keep. -/
def Tried (L : LuaState) (s : LuaCache) (strRoot : LuaName) : Prop :=
  s.cacheObjs strRoot ≠ none ∨ L.copy (global L strRoot) = none

/-- What the kept objects give for a path. -/
def view (s : LuaCache) : List LuaName → LuaFound
  | [] => none
  | strRoot :: luaVec => (s.cacheObjs strRoot).bind fun root => found root luaVec

theorem Tried.view_eq (h : Tried L s strRoot) (hsound : Sound L s') (hextends : Extends s s')
    (hsound₀ : Sound L s) (luaVec : List LuaName) :
    s'.view (strRoot :: luaVec) = s.view (strRoot :: luaVec) := by
  rcases h with hkept | hnone
  · obtain ⟨root, hroot⟩ := Option.ne_none_iff_exists'.mp hkept
    rw [view, view, hroot, hextends strRoot root hroot]
  · have hnot : ∀ {s : LuaCache}, Sound L s → s.cacheObjs strRoot = none := by
      intro s hsound
      cases hroot : s.cacheObjs strRoot with
      | none => rfl
      | some root =>
        have hcached := hsound.cached strRoot root hroot
        rw [hnone] at hcached
        cases hcached
    rw [view, view, hnot hsound, hnot hsound₀]

theorem Tried.extends (h : Tried L s strRoot) (hextends : Extends s s') : Tried L s' strRoot := by
  rcases h with hkept | hnone
  · obtain ⟨root, hroot⟩ := Option.ne_none_iff_exists'.mp hkept
    left
    rw [hextends strRoot root hroot]
    exact Option.some_ne_none root
  · exact .inr hnone

/-- The object of what is found is where the names lead to. -/
theorem found_object (root : Nat × LuaObject) (luaVec : List LuaName) :
    (found root luaVec).map Prod.snd = walk (some root.2) luaVec := by
  cases luaVec with
  | nil => rfl
  | cons name rest =>
    obtain ⟨reading, obj⟩ := root
    cases obj with
    | luatable n keyObjs =>
      have hfound : found (reading, .luatable n keyObjs) (name :: rest) =
          (walk (some (.luatable n keyObjs)) (name :: rest)).map
            fun obj => (⟨reading, name :: rest⟩, obj) := rfl
      rw [hfound, Option.map_map]
      exact Option.map_id'
    | _ => rfl

/-! ## One lookup -/

/-- A path of names that are not empty and have no dot; the first is the name of a global, a C
string. -/
structure IsPath (path : List LuaName) : Prop where
  ne_nil : path ≠ []
  names : ∀ k ∈ path, k ≠ [] ∧ 46 ∉ k
  first : ∀ k ∈ path.head?, 0 ∉ k

theorem splitString_path (hne : path ≠ []) (hnames : ∀ k ∈ path, k ≠ [] ∧ 46 ∉ k) :
    StringUtility.splitString (join 46 path) 46 = path := by
  have hlast : path.getLast? = some (path.getLast hne) := List.getLast?_eq_some_getLast hne
  rw [StringUtility.splitString_eq]
  exact StringUtility.pieces_join (fun k hk => (hnames k hk).2) hlast
    (hnames _ (List.getLast_mem hne)).1

/-- The object of a global is kept. -/
def keep (s : LuaCache) (L : LuaState) (strRoot : LuaName) (obj : LuaObject) : LuaCache where
  state := L
  cacheObjs := Function.update s.cacheObjs strRoot (some (s.readings + 1, obj))
  readings := s.readings + 1

theorem keep_self (s : LuaCache) (L : LuaState) (strRoot : LuaName) (obj : LuaObject) :
    (s.keep L strRoot obj).cacheObjs strRoot = some (s.readings + 1, obj) :=
  Function.update_self ..

theorem keep_of_ne {k : LuaName} (h : k ≠ strRoot) (s : LuaCache) (L : LuaState) (obj : LuaObject) :
    (s.keep L strRoot obj).cacheObjs k = s.cacheObjs k := Function.update_of_ne h ..

/-- A lookup gives what the kept objects give behind it. -/
theorem Sound.lookup (hsound : Sound L s) (hconfig : L.Configured) (hroom : L.HasRoom depth)
    (call : Nat → LuaValue → LuaValue → Option LuaValue)
    (hsplit : StringUtility.splitString (join 46 (strRoot :: luaVec)) 46 = strRoot :: luaVec) :
    ∃ s', Sound L s' ∧ Extends s s' ∧ Tried L s' strRoot ∧ ∃ least, ∀ fuel, least ≤ fuel →
      s.getLuaObjectFromCache call fuel (join 46 (strRoot :: luaVec)) =
        some (s', s'.view (strRoot :: luaVec)) := by
  cases hcached : s.cacheObjs strRoot with
  | some root =>
    refine ⟨s, hsound, fun _ _ h => h, .inl ?_, 0, fun fuel _ => ?_⟩
    · rw [hcached]
      exact Option.some_ne_none root
    · rw [getLuaObjectFromCache, hsplit]
      dsimp only
      rw [hcached, view, hcached]
      rfl
  | none =>
    have hacyclic : L.Acyclic (global L strRoot) := by
      rcases hconfig.value (cText strRoot) with hnil | hvalue
      · rw [global, hnil]
        exact ⟨_, fun t ht => by cases ht⟩
      · exact hvalue.acyclic
    have hslot := hroom.slot
    have hsize := hsound.size
    have hin : L.base + L.stack.length + 1 ≤ s.state.stacksize := Nat.le_trans hslot hsize
    obtain ⟨least, hreads⟩ := LuaState.reads_copy hacyclic
    obtain ⟨S, hgrown, hread⟩ := hreads L.stack s.state.stacksize hin
      (LuaState.hasSlots_of_depth (hroom.global _) hin (Nat.succ_pos _) hroom.limit)
    have hleft : L.stacksize ≤ S := Nat.le_trans hsize hgrown.le
    have hobject : ∀ fuel, least ≤ fuel → s.state.getLuaObject call fuel strRoot =
        some (L.withSize S, (L.copy (global L strRoot)).map (LuaObject.setName strRoot)) := by
      intro fuel hfuel
      have hfound : ((L.withSize s.state.stacksize).withStack L.stack).getLuaObject call fuel
          strRoot = some ((L.withSize S).withStack L.stack,
            (L.copy (global L strRoot)).map (LuaObject.setName strRoot)) :=
        LuaState.getLuaObject_eq hin (hconfig.global call _) (hread fuel hfuel)
      rw [hsound.state]
      exact hfound
    cases hcopy : L.copy (global L strRoot) with
    | none =>
      refine ⟨{ s with state := L.withSize S, readings := s.readings + 1 },
        ⟨rfl, hleft, hsound.cached⟩, fun _ _ h => h, .inr hcopy, least, fun fuel hfuel => ?_⟩
      rw [getLuaObjectFromCache, hsplit]
      dsimp only
      rw [hcached, hobject fuel hfuel, hcopy, view, hcached]
      rfl
    | some a =>
      refine ⟨s.keep (L.withSize S) strRoot (a.setName strRoot),
        ⟨rfl, hleft, fun k root hroot => ?_⟩, fun k root hroot => ?_, .inl ?_, least,
        fun fuel hfuel => ?_⟩
      · by_cases hk : k = strRoot
        · rw [hk, keep_self] at hroot
          rw [hk, hcopy, ← Option.some.inj hroot, Option.map_some]
        · rw [keep_of_ne hk] at hroot
          exact hsound.cached k root hroot
      · have hk : k ≠ strRoot := by
          rintro rfl
          rw [hcached] at hroot
          cases hroot
        rw [keep_of_ne hk]
        exact hroot
      · rw [keep_self]
        exact Option.some_ne_none _
      · rw [getLuaObjectFromCache, hsplit]
        dsimp only
        rw [hcached, hobject fuel hfuel, hcopy, view, keep_self]
        rfl

/-! ## A sequence of lookups -/

theorem Sound.run (hsound : Sound L s) (hconfig : L.Configured) (hroom : L.HasRoom depth)
    (call : Nat → LuaValue → LuaValue → Option LuaValue) {paths : List (List LuaName)}
    (hpaths : ∀ path ∈ paths, IsPath path) :
    ∃ s', Sound L s' ∧ Extends s s' ∧
      (∀ strRoot luaVec, strRoot :: luaVec ∈ paths → Tried L s' strRoot) ∧
      ∃ least, ∀ fuel, least ≤ fuel →
        s.lookups call fuel (paths.map (join 46)) = some (s', paths.map s'.view) := by
  induction paths generalizing s with
  | nil =>
    refine ⟨s, hsound, fun _ _ h => h, fun _ _ h => ?_, 0, fun fuel _ => rfl⟩
    cases h
  | cons path paths ih =>
    have hpath := hpaths path (.head _)
    obtain ⟨strRoot, luaVec, rfl⟩ := List.exists_cons_of_ne_nil hpath.ne_nil
    obtain ⟨s₁, hsound₁, hextends₁, htried₁, least₁, hfirst⟩ := hsound.lookup hconfig hroom call
      (splitString_path hpath.ne_nil hpath.names)
    obtain ⟨s₂, hsound₂, hextends₂, htried₂, least₂, hrest⟩ :=
      ih hsound₁ fun p hp => hpaths p (.tail _ hp)
    refine ⟨s₂, hsound₂, fun k root h => hextends₂ k root (hextends₁ k root h), ?_,
      max least₁ least₂, fun fuel hfuel => ?_⟩
    · intro k rest hmem
      rcases List.mem_cons.mp hmem with heq | hmem
      · rw [(List.cons.inj heq).1]
        exact htried₁.extends hextends₂
      · exact htried₂ k rest hmem
    · rw [List.map_cons, lookups, hfirst fuel (by omega), Option.bind_eq_bind, Option.bind_some]
      dsimp only
      rw [hrest fuel (by omega), Option.bind_eq_bind, Option.bind_some, List.map_cons,
        htried₁.view_eq hsound₂ hextends₂ hsound₁]

theorem walk_append (obj : Option LuaObject) (path inner : List LuaName) :
    walk obj (path ++ inner) = walk (walk obj path) inner := by
  induction path generalizing obj with
  | nil => rfl
  | cons k rest ih =>
    cases obj with
    | none => rw [LuaState.walk_none, LuaState.walk_none, LuaState.walk_none]
    | some obj =>
      rw [List.cons_append, walk, walk]
      split
      · exact ih _
      · rw [LuaState.walk_none]

theorem Sound.holds (hsound : Sound L s) (hconfig : L.Configured) (hpath : IsPath path)
    (htried : ∀ strRoot luaVec, path = strRoot :: luaVec → Tried L s strRoot)
    (inner : List LuaName) :
    LuaState.Holds (walk ((s.view path).map Prod.snd) inner)
      (L.indexed (.table L.globals) (path ++ inner)) := by
  obtain ⟨strRoot, luaVec, rfl⟩ := List.exists_cons_of_ne_nil hpath.ne_nil
  have hname : cText strRoot = strRoot := LuaState.cText_of_no_nul (hpath.first strRoot rfl)
  have hkept : (s.view (strRoot :: luaVec)).map Prod.snd =
      walk ((L.copy (global L strRoot)).map (LuaObject.setName strRoot)) luaVec := by
    rw [view]
    cases hroot : s.cacheObjs strRoot with
    | some root =>
      rw [hsound.cached strRoot root hroot]
      exact found_object root luaVec
    | none =>
      have hnone := (htried strRoot luaVec rfl).resolve_left fun hne => hne hroot
      rw [hnone, Option.map_none, LuaState.walk_none]
      rfl
  have hindexed : L.indexed (.table L.globals) (strRoot :: luaVec ++ inner) =
      L.indexed (global L strRoot) (luaVec ++ inner) := by
    rw [global, hname]
    rfl
  rw [hkept, hindexed, ← walk_append]
  exact LuaState.holds_walk (hconfig.value (cText strRoot)) strRoot (luaVec ++ inner)

theorem sound_new (L : LuaState) : Sound L (new L) :=
  ⟨rfl, Nat.le_refl _, fun _ _ h => by cases h⟩

/-- Every sequence of lookups in a configuration, nested as deep as the stack has room for, returns
and leaves the state, less the size of the stack's array. A lookup gives an
object of what its path leads to, with all that is in it, and null exactly where there is nothing;
and a path that is looked up again gives the same object. -/
theorem lookups_correct (L : LuaState) (depth : Nat) (hconfig : L.Configured)
    (hroom : L.HasRoom depth) (call : Nat → LuaValue → LuaValue → Option LuaValue)
    (paths : List (List LuaName)) (hpaths : ∀ path ∈ paths, IsPath path) :
    ∃ least s results, (∀ fuel, least ≤ fuel →
        (new L).lookups call fuel (paths.map (join 46)) = some (s, results)) ∧
      s.state = L.withSize s.state.stacksize ∧ results.length = paths.length ∧
      ∀ (i : Nat) (path : List LuaName) (r : LuaFound), paths[i]? = some path → results[i]? = some r →
        (∀ inner, LuaState.Holds (walk (r.map Prod.snd) inner)
          (L.indexed (.table L.globals) (path ++ inner))) ∧
        ∀ (j : Nat) (r' : LuaFound), paths[j]? = some path → results[j]? = some r' → r' = r := by
  obtain ⟨s, hsound, -, htried, least, hrun⟩ := (sound_new L).run hconfig hroom call hpaths
  refine ⟨least, s, paths.map s.view, hrun, hsound.state, List.length_map _, ?_⟩
  have hresult : ∀ (i : Nat) path r, paths[i]? = some path → (paths.map s.view)[i]? = some r →
      r = s.view path := by
    intro i path r hpath hr
    rw [List.getElem?_map, hpath] at hr
    exact (Option.some.inj hr).symm
  intro i path r hpath hr
  have hmem := List.mem_of_getElem? hpath
  rw [hresult i path r hpath hr]
  refine ⟨fun inner => ?_, fun j r' hpath' hr' => hresult j path r' hpath' hr'⟩
  exact hsound.holds hconfig (hpaths path hmem) (fun k rest heq => htried k rest (heq ▸ hmem)) inner

/-- The global `s` is a table with a number under `n`. -/
def serviceState : LuaState where
  stack := []
  tables t :=
    if t = 0 then ⟨[(.string [110], .number LuaNumber.one)], none, by decide, by decide⟩
    else if t = 1 then ⟨[(.string [115], .table 0)], none, by decide, by decide⟩
    else .empty
  userdata _ := ⟨none, none⟩
  typeMetatable _ := none
  globals := 1
  registry := 2
  tableCount := 3
  userdataCount := 0

theorem serviceState_configured : serviceState.Configured := by
  refine ⟨rfl, fun e he => ?_⟩
  rw [List.mem_singleton.mp he]
  refine .table 0 (fun e he => ?_) fun e he => ?_
  · rw [List.mem_singleton.mp he]
    exact ⟨[110], rfl, by decide, by decide, by decide, by decide⟩
  · rw [List.mem_singleton.mp he]
    exact .number LuaNumber.one

theorem serviceState_hasRoom : serviceState.HasRoom 1 := by
  refine ⟨by decide, fun e he t ht f hf => ?_, by decide⟩
  rw [List.mem_singleton.mp he] at ht
  rw [← LuaValue.table.inj ht] at hf
  rw [List.mem_singleton.mp hf]
  exact LuaState.depth_zero LuaType.noConfusion

theorem lookups_correct_service : ∃ least s r, (∀ fuel, least ≤ fuel →
      (new serviceState).lookups (fun _ _ _ => none) fuel [join 46 [[115], [110]]] =
        some (s, [r])) ∧
    LuaState.Holds (r.map Prod.snd) (some (.number LuaNumber.one)) := by
  obtain ⟨least, s, results, hrun, -, hlength, hresults⟩ := lookups_correct serviceState 1
    serviceState_configured serviceState_hasRoom (fun _ _ _ => none) [[[115], [110]]] fun path hpath => by
      rw [List.mem_singleton.mp hpath]
      exact ⟨by decide, by decide, by decide⟩
  obtain ⟨r, rfl⟩ := List.length_eq_one_iff.mp hlength
  exact ⟨least, s, r, hrun, (hresults 0 _ r rfl rfl).1 []⟩

/-- A name with a NUL is cut there before the global is looked up. -/
theorem nul_name_found : serviceState.Configured ∧
    (∀ k ∈ [[115, 0]], k ≠ [] ∧ (46 : UInt8) ∉ k) ∧
    serviceState.indexed (.table serviceState.globals) [[115, 0]] = none ∧
    ∃ least s r, ∀ fuel, least ≤ fuel →
      (new serviceState).getLuaObjectFromCache (fun _ _ _ => none) fuel (join 46 [[115, 0]]) =
        some (s, some r) := by
  refine ⟨serviceState_configured, by decide, rfl, ?_⟩
  have hsplit : StringUtility.splitString (join 46 [[115, 0]]) 46 = [[115, (0 : UInt8)]] :=
    splitString_path (by decide) (by decide)
  obtain ⟨s, -, -, htried, least, hlookup⟩ :=
    (sound_new serviceState).lookup serviceState_configured serviceState_hasRoom
      (fun _ _ _ => none) hsplit
  have hglobal : global serviceState [115, 0] = .table 0 := rfl
  have hconfig : serviceState.IsConfig (.table 0) :=
    serviceState_configured.values (.string [115], .table 0) (.head _)
  have hkept : s.cacheObjs [115, 0] ≠ none := by
    refine htried.resolve_right fun hnone => ?_
    rw [hglobal, LuaState.copy_object hconfig.acyclic hconfig.isObject] at hnone
    cases hnone
  obtain ⟨root, hroot⟩ := Option.ne_none_iff_exists'.mp hkept
  refine ⟨least, s, (⟨root.1, []⟩, root.2), fun fuel hfuel => ?_⟩
  rw [hlookup fuel hfuel, view, hroot]
  rfl

end LuaCache

end MmDriver

import Mathlib.Algebra.Group.Int.Defs
import Mathlib.Algebra.Group.Nat.Defs
import Mathlib.Data.List.Basic

/-!
# Lua 5.1, as a C program sees it

Values, tables, and the functions of the API on a stack. The heap grows as far as it has to.

The stack stands in an array. `lua_checkstack` makes the array larger; what pushes a value does not
look at its end, and writes over other memory where it is reached. `inSlots` says that it is not. The
functions here leave it to their callers, as Lua does.

A table's entries stand in the order in which `lua_next` gives them. No two keys are equal, no key is
nil or not a number, and no value is nil.
-/

namespace MmDriver

/-! ## Numbers -/

/-- `lua_Number`, a double, as its 64 bits. -/
abbrev LuaNumber := BitVec 64

namespace LuaNumber

/-- The exponent's bits. -/
def exponent (x : LuaNumber) : Nat := x.toNat / 2 ^ 52 % 2 ^ 11

/-- The fraction's bits. -/
def fraction (x : LuaNumber) : Nat := x.toNat % 2 ^ 52

/-- Not a number. -/
def isNaN (x : LuaNumber) : Bool := x.exponent = 2047 ∧ x.fraction ≠ 0

/-- Zero, of either sign. -/
def isZero (x : LuaNumber) : Bool := x.toNat % 2 ^ 63 = 0

/-- `==` of two doubles. -/
def eq (x y : LuaNumber) : Bool := !x.isNaN && (x == y || x.isZero && y.isZero)

theorem isNaN_of_isZero {x : LuaNumber} (h : x.isZero = true) : x.isNaN = false := by
  have hzero : x.toNat % 2 ^ 63 = 0 := of_decide_eq_true h
  have hexponent : x.exponent ≠ 2047 := by
    rw [exponent]
    omega
  exact decide_eq_false fun hnan => hexponent hnan.1

theorem eq_comm (x y : LuaNumber) : x.eq y = y.eq x := by
  have hone : ∀ {x y : LuaNumber}, x.eq y = true → y.eq x = true := by
    intro x y h
    rw [eq, Bool.and_eq_true, Bool.or_eq_true, Bool.and_eq_true, beq_iff_eq] at h
    rcases h with ⟨hnan, rfl | ⟨hx, hy⟩⟩
    · rw [eq, hnan, beq_self_eq_true]
      rfl
    · rw [eq, isNaN_of_isZero hy, hx, hy, Bool.and_self, Bool.or_true]
      rfl
  exact Bool.eq_iff_iff.mpr ⟨hone, hone⟩

/-- The double less its sign, cut to a whole number. -/
def magnitude (x : LuaNumber) : Nat :=
  if x.exponent = 0 then 0
  else
    let mantissa := 2 ^ 52 + x.fraction
    if x.exponent < 1075 then mantissa / 2 ^ (1075 - x.exponent)
    else mantissa * 2 ^ (x.exponent - 1075)

/-- `int(x)`. Where the number does not fit, C++ leaves the result open; it is what x86 gives. -/
def toInt (x : LuaNumber) : Int :=
  let i : Int := if x.toNat < 2 ^ 63 then x.magnitude else -x.magnitude
  if x.exponent ≠ 2047 ∧ -2 ^ 31 ≤ i ∧ i < 2 ^ 31 then i else -2 ^ 31

/-- The number 1. -/
def one : LuaNumber := 0x3ff0000000000000#64

end LuaNumber

/-! ## Values and tables -/

/-- A value. Tables, functions, userdata and threads are numbered. -/
inductive LuaValue where
  | nil
  | boolean (b : Bool)
  | lightuserdata (p : Nat)
  | number (x : LuaNumber)
  | string (s : List UInt8)
  | table (t : Nat)
  | function (f : Nat)
  | userdata (u : Nat)
  | thread (i : Nat)
deriving DecidableEq, Repr

/-- What `lua_type` gives. -/
inductive LuaType where
  | none
  | nil
  | boolean
  | lightuserdata
  | number
  | string
  | table
  | function
  | userdata
  | thread
deriving DecidableEq, Repr

namespace LuaValue

/-- The type of a value. -/
def type : LuaValue → LuaType
  | nil => .nil
  | boolean _ => .boolean
  | lightuserdata _ => .lightuserdata
  | number _ => .number
  | string _ => .string
  | table _ => .table
  | function _ => .function
  | userdata _ => .userdata
  | thread _ => .thread

/-- `luaO_rawequalObj`. -/
def rawEqual : LuaValue → LuaValue → Bool
  | number x, number y => x.eq y
  | v, w => v == w

theorem rawEqual_comm (v w : LuaValue) : v.rawEqual w = w.rawEqual v := by
  cases v <;> cases w <;> simp [rawEqual, LuaNumber.eq_comm, Bool.beq_comm]

/-- A value that a table can have as a key. -/
def IsKey (v : LuaValue) : Prop := v ≠ nil ∧ v.rawEqual v = true

instance : DecidablePred IsKey := fun v => inferInstanceAs (Decidable (v ≠ nil ∧ _))

/-- Where the first value is not a number, equality is identity. -/
theorem rawEqual_iff {v w : LuaValue} (h : ∀ x, v ≠ number x) : v.rawEqual w = true ↔ v = w := by
  cases v with
  | number x => exact absurd rfl (h x)
  | _ => simp [rawEqual]

end LuaValue

/-- An entry of a table. -/
abbrev LuaEntry := LuaValue × LuaValue

/-- A table. -/
structure LuaTable where
  entries : List LuaEntry
  metatable : Option Nat
  valid : ∀ e ∈ entries, e.1.IsKey ∧ e.2 ≠ .nil
  apart : entries.Pairwise fun e f => e.1.rawEqual f.1 = false

namespace LuaTable

/-- A new table. -/
def empty : LuaTable where
  entries := []
  metatable := none
  valid := List.forall_mem_nil _
  apart := .nil

/-- The value of the first entry with a key. -/
def find (key : LuaValue) (entries : List LuaEntry) : LuaValue :=
  ((entries.find? fun e => e.1.rawEqual key).map Prod.snd).getD .nil

/-- `lua_rawget`. -/
def get (t : LuaTable) (key : LuaValue) : LuaValue := find key t.entries

/-- The entries with a value under a key, in its old place if there is one. -/
def put (key value : LuaValue) : List LuaEntry → List LuaEntry
  | [] => [(key, value)]
  | e :: rest => if e.1.rawEqual key then (e.1, value) :: rest else e :: put key value rest

theorem mem_put {key value : LuaValue} {entries : List LuaEntry} {e : LuaEntry}
    (h : e ∈ put key value entries) :
    e ∈ entries ∨ (e.1 = key ∨ ∃ f ∈ entries, e.1 = f.1) ∧ e.2 = value := by
  induction entries with
  | nil =>
    rw [List.mem_singleton.mp h]
    exact .inr ⟨.inl rfl, rfl⟩
  | cons f rest ih =>
    rw [put] at h
    split at h
    · rcases List.mem_cons.mp h with rfl | hmem
      · exact .inr ⟨.inr ⟨f, .head _, rfl⟩, rfl⟩
      · exact .inl (.tail _ hmem)
    · rcases List.mem_cons.mp h with rfl | hmem
      · exact .inl (.head _)
      · rcases ih hmem with hrest | ⟨hkey | ⟨g, hg, hkey⟩, hvalue⟩
        · exact .inl (.tail _ hrest)
        · exact .inr ⟨.inl hkey, hvalue⟩
        · exact .inr ⟨.inr ⟨g, .tail _ hg, hkey⟩, hvalue⟩

theorem put_valid {key value : LuaValue} {entries : List LuaEntry} (hkey : key.IsKey)
    (hvalue : value ≠ .nil) (h : ∀ e ∈ entries, e.1.IsKey ∧ e.2 ≠ .nil) :
    ∀ e ∈ put key value entries, e.1.IsKey ∧ e.2 ≠ .nil := by
  intro e he
  rcases mem_put he with hold | ⟨hnew | ⟨f, hf, hnew⟩, rfl⟩
  · exact h e hold
  · exact ⟨hnew ▸ hkey, hvalue⟩
  · exact ⟨hnew ▸ (h f hf).1, hvalue⟩

theorem put_apart {key value : LuaValue} {entries : List LuaEntry}
    (h : entries.Pairwise fun e f => e.1.rawEqual f.1 = false) :
    (put key value entries).Pairwise fun e f => e.1.rawEqual f.1 = false := by
  induction entries with
  | nil => exact List.pairwise_singleton _ _
  | cons e rest ih =>
    obtain ⟨hfirst, hrest⟩ := List.pairwise_cons.mp h
    rw [put]
    split
    · exact List.pairwise_cons.mpr ⟨hfirst, hrest⟩
    · next hne =>
      refine List.pairwise_cons.mpr ⟨fun f hf => ?_, ih hrest⟩
      rcases mem_put hf with hold | ⟨hnew | ⟨g, hg, hnew⟩, -⟩
      · exact hfirst f hold
      · rw [hnew]
        exact Bool.eq_false_iff.mpr hne
      · rw [hnew]
        exact hfirst g hg

/-- `lua_rawset`. A nil takes the entry away. -/
def set (t : LuaTable) (key value : LuaValue) : LuaTable :=
  if h : key.IsKey ∧ value ≠ .nil then
    { entries := put key value t.entries
      metatable := t.metatable
      valid := put_valid h.1 h.2 t.valid
      apart := put_apart t.apart }
  else
    { entries := t.entries.filter fun e => !e.1.rawEqual key
      metatable := t.metatable
      valid := fun e he => t.valid e (List.mem_of_mem_filter he)
      apart := t.apart.filter _ }

@[simp] theorem set_metatable (t : LuaTable) (key value : LuaValue) :
    (t.set key value).metatable = t.metatable := by
  rw [set]
  split
  · rfl
  · rfl

theorem find_cons (key : LuaValue) (e : LuaEntry) (rest : List LuaEntry) :
    find key (e :: rest) = if e.1.rawEqual key then e.2 else find key rest := by
  rw [find, List.find?_cons]
  cases e.1.rawEqual key with
  | true => rfl
  | false => rfl

section NotNumber

variable {key : LuaValue} (hnumber : ∀ x, key ≠ .number x)

include hnumber

theorem rawEqual_key_iff (v : LuaValue) : v.rawEqual key = true ↔ v = key := by
  rw [LuaValue.rawEqual_comm, LuaValue.rawEqual_iff hnumber, eq_comm]

theorem find_put (value key' : LuaValue) (entries : List LuaEntry) :
    find key' (put key value entries) = if key' = key then value else find key' entries := by
  have hkey : key.rawEqual key' = true ↔ key' = key := by
    rw [LuaValue.rawEqual_iff hnumber, eq_comm]
  induction entries with
  | nil => simp only [put, find_cons, hkey]
  | cons e rest ih =>
    rw [put]
    by_cases he : e.1.rawEqual key = true
    · rw [if_pos he, find_cons, find_cons, (rawEqual_key_iff hnumber e.1).mp he]
      simp only [hkey]
      split
      · rfl
      · rfl
    · rw [if_neg he, find_cons, find_cons, ih]
      by_cases hsame : key' = key
      · rw [hsame, if_neg he, if_pos rfl, if_pos rfl]
      · rw [if_neg hsame, if_neg hsame]

theorem find_filter (key' : LuaValue) (entries : List LuaEntry) :
    find key' (entries.filter fun e => !e.1.rawEqual key) =
      if key' = key then .nil else find key' entries := by
  induction entries with
  | nil =>
    split
    · rfl
    · rfl
  | cons e rest ih =>
    rw [List.filter_cons, find_cons]
    by_cases he : e.1.rawEqual key = true
    · rw [he, if_neg (by simp), ih, (rawEqual_key_iff hnumber e.1).mp he]
      by_cases hsame : key' = key
      · rw [if_pos hsame, if_pos hsame]
      · have hne : ¬key.rawEqual key' = true :=
          fun heq => hsame ((LuaValue.rawEqual_iff hnumber).mp heq).symm
        rw [if_neg hsame, if_neg hsame, if_neg hne]
    · rw [Bool.eq_false_iff.mpr he, if_pos (by rfl), find_cons, ih]
      by_cases hsame : key' = key
      · rw [hsame, if_neg he, if_pos rfl, if_pos rfl]
      · rw [if_neg hsame, if_neg hsame]

/-- What is found under a key is what was put there last. -/
theorem get_set (t : LuaTable) (hnil : key ≠ .nil) (value key' : LuaValue) :
    (t.set key value).get key' = if key' = key then value else t.get key' := by
  rw [set]
  split
  · exact find_put hnumber value key' t.entries
  · next h =>
    have hvalue : value = .nil := by
      by_contra hne
      exact h ⟨⟨hnil, (LuaValue.rawEqual_iff hnumber).mpr rfl⟩, hne⟩
    rw [hvalue]
    exact find_filter hnumber key' t.entries

end NotNumber

/-- What stands behind the entry of a key; nothing where there is no such entry. -/
def behind (key : LuaValue) : List LuaEntry → Option (List LuaEntry)
  | [] => none
  | e :: rest => if e.1.rawEqual key then some rest else behind key rest

/-- `luaH_next`: the entry behind that of the key, if there is one. It raises an error where no
entry has the key. -/
def next (t : LuaTable) (key : LuaValue) : Option (Option LuaEntry) :=
  if key = .nil then some t.entries.head? else (behind key t.entries).map List.head?

/-- The first step of an iteration. -/
theorem next_nil (t : LuaTable) : t.next .nil = some t.entries.head? := by
  rw [next, if_pos rfl]

theorem behind_append {key value : LuaValue} {before rest : List LuaEntry}
    (hkey : key.rawEqual key = true)
    (hbefore : ∀ e ∈ before, e.1.rawEqual key = false) :
    behind key (before ++ (key, value) :: rest) = some rest := by
  induction before with
  | nil => rw [List.nil_append, behind, if_pos hkey]
  | cons e before ih =>
    rw [List.cons_append, behind, if_neg (Bool.eq_false_iff.mp (hbefore e (.head _)))]
    exact ih fun f hf => hbefore f (.tail _ hf)

/-- Every step goes from an entry to the one behind it. -/
theorem next_of_entries {t : LuaTable} {key value : LuaValue} {before rest : List LuaEntry}
    (hentries : t.entries = before ++ (key, value) :: rest) : t.next key = some rest.head? := by
  have hkey : key.IsKey := (t.valid (key, value) (by simp [hentries])).1
  have hapart := t.apart
  rw [hentries, List.pairwise_append] at hapart
  have hbefore : ∀ e ∈ before, e.1.rawEqual key = false :=
    fun e he => hapart.2.2 e he (key, value) (.head _)
  rw [next, if_neg hkey.1, hentries, behind_append hkey.2 hbefore, Option.map_some]

end LuaTable

/-! ## The state -/

/-- A full userdata: the pointer in its block, if it holds one, and its metatable. -/
structure LuaUserdata where
  block : Option Nat
  metatable : Option Nat
deriving DecidableEq, Repr

/-- The state, as far as the functions here look at it. The top of the stack is its first value. -/
structure LuaState where
  stack : List LuaValue
  tables : Nat → LuaTable
  userdata : Nat → LuaUserdata
  /-- The metatable that all values of another type share. -/
  typeMetatable : LuaType → Option Nat
  globals : Nat
  registry : Nat
  /-- The numbers from here on are not used yet. -/
  tableCount : Nat
  userdataCount : Nat
  /-- The slot of the function that was called: its stack begins behind it. -/
  func : Nat := 0
  /-- The slots of the array, with those that `lua_checkstack` keeps for errors. -/
  stacksize : Nat := 45

/-- `LUAI_MAXCSTACK`. -/
def luaiMaxCStack : Nat := 8000

/-- `EXTRA_STACK`. -/
def extraStack : Nat := 5

/-- The text of a field's name. -/
def luaText (s : String) : List UInt8 := s.toList.map fun c => UInt8.ofNat c.toNat

namespace LuaState

variable (L : LuaState)

/-- The same heap under another stack. -/
def withStack (stack : List LuaValue) : LuaState := { L with stack := stack }

/-- What stands at an index, which counts from the bottom from 1 on, or from the top from -1 on. -/
def value? (index : Int) : Option LuaValue :=
  if 0 < index then L.stack.reverse[index.toNat - 1]?
  else if index < 0 then L.stack[(-index).toNat - 1]?
  else none

/-- `lua_type`. -/
def type (index : Int) : LuaType :=
  match L.value? index with
  | some v => v.type
  | none => .none

/-- A value on top of the stack. -/
def push (v : LuaValue) : LuaState := L.withStack (v :: L.stack)

/-- `lua_pop`: the stack must hold what is taken off. -/
def pop (n : Nat) : Option LuaState :=
  if n ≤ L.stack.length then some (L.withStack (L.stack.drop n)) else none

@[simp] theorem withStack_stack (L : LuaState) (stack : List LuaValue) :
    (L.withStack stack).stack = stack := rfl

@[simp] theorem withStack_tables (L : LuaState) (stack : List LuaValue) :
    (L.withStack stack).tables = L.tables := rfl

@[simp] theorem withStack_withStack (L : LuaState) (stack stack' : List LuaValue) :
    (L.withStack stack).withStack stack' = L.withStack stack' := rfl

@[simp] theorem withStack_self (L : LuaState) : L.withStack L.stack = L := rfl

@[simp] theorem push_withStack (L : LuaState) (stack : List LuaValue) (v : LuaValue) :
    (L.withStack stack).push v = L.withStack (v :: stack) := rfl

/-! ### Its array -/

/-- The same state over an array of that size. -/
def withSize (stacksize : Nat) : LuaState := { L with stacksize := stacksize }

/-- Where the stack begins in its array. -/
def base : Nat := L.func + 1

theorem base_pos : 1 ≤ L.base := Nat.le_add_left 1 L.func

/-- The stack is inside its array: what was pushed last has a slot. -/
def inSlots : Option LuaState :=
  if L.base + L.stack.length ≤ L.stacksize then some L else none

/-- `luaD_reallocstack`. -/
def reallocstack (newsize : Nat) : LuaState := L.withSize (newsize + 1 + extraStack)

/-- `luaD_growstack`. -/
def growstack (n : Nat) : LuaState :=
  if n ≤ L.stacksize then L.reallocstack (2 * L.stacksize) else L.reallocstack (L.stacksize + n)

/-- `lua_checkstack`, with its answer. -/
def checkstack (size : Nat) : LuaState × Bool :=
  if size > luaiMaxCStack ∨ L.stack.length + size > luaiMaxCStack then (L, false)
  else if 0 < size ∧ L.stacksize ≤ L.base + L.stack.length + size + (extraStack + 1) then
    (L.growstack size, true)
  else (L, true)

@[simp] theorem withSize_stack (L : LuaState) (S : Nat) : (L.withSize S).stack = L.stack := rfl

@[simp] theorem withSize_tables (L : LuaState) (S : Nat) : (L.withSize S).tables = L.tables := rfl

@[simp] theorem withSize_base (L : LuaState) (S : Nat) : (L.withSize S).base = L.base := rfl

@[simp] theorem withSize_stacksize (L : LuaState) (S : Nat) : (L.withSize S).stacksize = S := rfl

@[simp] theorem withSize_withSize (L : LuaState) (S S' : Nat) :
    (L.withSize S).withSize S' = L.withSize S' := rfl

@[simp] theorem withSize_self (L : LuaState) : L.withSize L.stacksize = L := rfl

@[simp] theorem withStack_base (L : LuaState) (stack : List LuaValue) :
    (L.withStack stack).base = L.base := rfl

@[simp] theorem withStack_stacksize (L : LuaState) (stack : List LuaValue) :
    (L.withStack stack).stacksize = L.stacksize := rfl

theorem inSlots_of_le {L : LuaState} {S : Nat} {stack : List LuaValue} (h : L.base + stack.length ≤ S) :
    ((L.withSize S).withStack stack).inSlots = some ((L.withSize S).withStack stack) := if_pos h

theorem inSlots_of_lt {L : LuaState} {S : Nat} {stack : List LuaValue} (h : S < L.base + stack.length) :
    ((L.withSize S).withStack stack).inSlots = none := if_neg (Nat.not_le_of_lt h)

/-! ### Indices -/

theorem value?_neg_one (L : LuaState) (v : LuaValue) (below : List LuaValue) :
    (L.withStack (v :: below)).value? (-1) = some v := rfl

theorem value?_neg_two (L : LuaState) (v w : LuaValue) (below : List LuaValue) :
    (L.withStack (v :: w :: below)).value? (-2) = some w := rfl

/-- What is pushed does not move what an index counts from the bottom. -/
theorem value?_push {L : LuaState} {index : Int} {v : LuaValue} (hindex : 0 < index)
    (hv : L.value? index = some v) (w : LuaValue) : (L.push w).value? index = some v := by
  rw [value?, if_pos hindex] at hv ⊢
  have hlt := (List.getElem?_eq_some_iff.mp hv).1
  rw [push, withStack_stack, List.reverse_cons, List.getElem?_append_left hlt]
  exact hv

theorem type_neg_one (L : LuaState) (v : LuaValue) (below : List LuaValue) :
    (L.withStack (v :: below)).type (-1) = v.type := rfl

theorem pop_one (L : LuaState) (v : LuaValue) (below : List LuaValue) :
    (L.withStack (v :: below)).pop 1 = some (L.withStack below) :=
  if_pos (Nat.le_add_left 1 _)

theorem pop_two (L : LuaState) (v w : LuaValue) (below : List LuaValue) :
    (L.withStack (v :: w :: below)).pop 2 = some (L.withStack below) :=
  if_pos (Nat.le_add_left 2 _)

/-- `lua_tonumber`, of a number. -/
def toNumber (index : Int) : LuaNumber :=
  match L.value? index with
  | some (.number x) => x
  | _ => 0

/-- `lua_tostring`, of a string. -/
def toString (index : Int) : List UInt8 :=
  match L.value? index with
  | some (.string s) => s
  | _ => []

/-- `lua_rawget` of the table itself. -/
def rawget (t : Nat) (key : LuaValue) : LuaValue := (L.tables t).get key

/-- `lua_rawgeti` of 1. Only a table has fields. -/
def rawgetOne (index : Int) : Option LuaState :=
  match L.value? index with
  | some (.table t) => some (L.push (L.rawget t (.number LuaNumber.one)))
  | _ => none

/-- `lua_next`, which returns whether there was an entry. -/
def next (index : Int) : Option (LuaState × Bool) :=
  match L.value? index, L.stack with
  | some (.table t), key :: below =>
    match (L.tables t).next key with
    | some (some e) => some (L.withStack (e.2 :: e.1 :: below), true)
    | some none => some (L.withStack below, false)
    | none => none
  | _, _ => none

/-- The metatable of a value. -/
def metatable? : LuaValue → Option Nat
  | .table t => (L.tables t).metatable
  | .userdata u => (L.userdata u).metatable
  | v => L.typeMetatable v.type

/-- `luaT_gettmbyobj` of `__index`. -/
def indexMethod (v : LuaValue) : LuaValue :=
  match L.metatable? v with
  | some m => L.rawget m (.string (luaText "__index"))
  | none => .nil

/-- `luaV_gettable`, in at most that many turns. What a function returns that is called for `__index`
is a parameter. There is no value where an error is raised. -/
def gettable (call : Nat → LuaValue → LuaValue → Option LuaValue) (key : LuaValue) :
    Nat → LuaValue → Option LuaValue
  | 0, _ => none
  | loop + 1, v =>
    let res := match v with
      | .table t => L.rawget t key
      | _ => .nil
    if res ≠ .nil then some res
    else
      match L.indexMethod v with
      | .nil => if v.type = .table then some .nil else none
      | .function f => call f v key
      | tm => gettable call key loop tm

/-- Where there is no metatable, a field is what is in the table. -/
theorem gettable_of_no_metatable {t : Nat} (h : (L.tables t).metatable = none)
    (call : Nat → LuaValue → LuaValue → Option LuaValue) (key : LuaValue) (loop : Nat) :
    L.gettable call key (loop + 1) (.table t) = some (L.rawget t key) := by
  have hmethod : L.indexMethod (.table t) = .nil := by
    rw [indexMethod, metatable?, h]
  rw [gettable, hmethod]
  dsimp only
  split
  · rfl
  · next hnil =>
    rw [of_not_not hnil]
    rfl

theorem gettable_withStack (call : Nat → LuaValue → LuaValue → Option LuaValue) (key : LuaValue)
    (loop : Nat) (stack : List LuaValue) (v : LuaValue) :
    (L.withStack stack).gettable call key loop v = L.gettable call key loop v := by
  induction loop generalizing v with
  | zero => rfl
  | succ loop ih =>
    unfold gettable
    simp only [ih]
    rfl

theorem gettable_withSize (call : Nat → LuaValue → LuaValue → Option LuaValue) (key : LuaValue)
    (loop S : Nat) (v : LuaValue) :
    (L.withSize S).gettable call key loop v = L.gettable call key loop v := by
  induction loop generalizing v with
  | zero => rfl
  | succ loop ih =>
    unfold gettable
    simp only [ih]
    rfl

/-- `lua_getfield`. -/
def getfield (call : Nat → LuaValue → LuaValue → Option LuaValue) (v : LuaValue) (k : List UInt8) :
    Option LuaState :=
  (L.gettable call (.string k) 100 v).map L.push

/-! ## Writing -/

/-- `lua_rawset` of the table itself. -/
def rawset (t : Nat) (key value : LuaValue) : LuaState :=
  { L with tables := Function.update L.tables t ((L.tables t).set key value) }

theorem rawget_rawset {key : LuaValue} (hnumber : ∀ x, key ≠ .number x) (hnil : key ≠ .nil)
    (t : Nat) (value : LuaValue) (t' : Nat) (key' : LuaValue) :
    (L.rawset t key value).rawget t' key' =
      if t' = t ∧ key' = key then value else L.rawget t' key' := by
  rw [rawget, rawset, rawget]
  dsimp only
  by_cases ht : t' = t
  · rw [ht, Function.update_self, LuaTable.get_set hnumber _ hnil]
    simp only [true_and]
  · rw [Function.update_of_ne ht, if_neg fun h => ht h.1]

theorem rawset_metatable (t : Nat) (key value : LuaValue) (t' : Nat) :
    ((L.rawset t key value).tables t').metatable = (L.tables t').metatable := by
  rw [rawset]
  dsimp only
  by_cases ht : t' = t
  · rw [ht, Function.update_self, LuaTable.set_metatable]
  · rw [Function.update_of_ne ht]

/-- `luaT_gettmbyobj` of `__newindex`, of a table. -/
def newindexMethod (t : Nat) : LuaValue :=
  match (L.tables t).metatable with
  | some m => L.rawget m (.string (luaText "__newindex"))
  | none => .nil

/-- `luaV_settable` of a table, where it is the table that is written to: it has the field, or there
is no `__newindex`. Otherwise nothing is given back. -/
def settable (t : Nat) (key value : LuaValue) : Option LuaState :=
  if L.rawget t key ≠ .nil ∨ L.newindexMethod t = .nil then some (L.rawset t key value) else none

theorem settable_of_no_metatable {t : Nat} (h : (L.tables t).metatable = none)
    (key value : LuaValue) : L.settable t key value = some (L.rawset t key value) := by
  have hmethod : L.newindexMethod t = .nil := by
    rw [newindexMethod, h]
  rw [settable, if_pos (.inr hmethod)]

theorem eq_rawset_of_settable {t : Nat} {key value : LuaValue} {L' : LuaState}
    (h : L.settable t key value = some L') : L' = L.rawset t key value := by
  rw [settable] at h
  split at h
  · exact (Option.some.inj h).symm
  · cases h

/-- A value with another metatable. -/
def withMetatable (v : LuaValue) (m : Option Nat) : LuaState :=
  match v with
  | .table t => { L with tables := Function.update L.tables t { L.tables t with metatable := m } }
  | .userdata u =>
    { L with userdata := Function.update L.userdata u { L.userdata u with metatable := m } }
  | v => { L with typeMetatable := Function.update L.typeMetatable v.type m }

/-- `lua_newtable`. -/
def newtable : LuaState :=
  { L with
    stack := .table L.tableCount :: L.stack
    tables := Function.update L.tables L.tableCount .empty
    tableCount := L.tableCount + 1 }

/-- `lua_newuserdata`, with the pointer that is put in its block. -/
def newuserdata (block : Option Nat) : LuaState :=
  { L with
    stack := .userdata L.userdataCount :: L.stack
    userdata := Function.update L.userdata L.userdataCount ⟨block, none⟩
    userdataCount := L.userdataCount + 1 }

/-- `lua_pushvalue`. -/
def pushvalue (index : Int) : Option LuaState := (L.value? index).map L.push

/-- `lua_setfield`, of a table. -/
def setfield (index : Int) (k : List UInt8) : Option LuaState :=
  match L.value? index, L.stack with
  | some (.table t), value :: below =>
    (L.settable t (.string k) value).map fun L => L.withStack below
  | _, _ => none

/-- What `lua_setfield` leaves where it writes. -/
theorem of_setfield {index : Int} {k : List UInt8} {t : Nat} {v : LuaValue} {below : List LuaValue}
    {f : LuaState → Option LuaState} {L' : LuaState} (htable : L.value? index = some (.table t))
    (htop : L.stack = v :: below) (h : (L.setfield index k).bind f = some L') :
    f ((L.rawset t (.string k) v).withStack below) = some L' := by
  obtain ⟨M, hset, h⟩ := Option.bind_eq_some_iff.mp h
  rw [setfield, htable, htop] at hset
  obtain ⟨N, hwritten, rfl⟩ := Option.map_eq_some_iff.mp hset
  rw [L.eq_rawset_of_settable hwritten] at h
  exact h

/-- `lua_rawget`, of a table that is not on the stack. -/
def rawgetAt (t : Nat) : Option LuaState :=
  match L.stack with
  | key :: below => some (L.withStack (L.rawget t key :: below))
  | [] => none

/-- `lua_rawset`, of a table that is not on the stack. -/
def rawsetAt (t : Nat) : Option LuaState :=
  match L.stack with
  | value :: key :: below =>
    if key.IsKey then some ((L.rawset t key value).withStack below) else none
  | _ => none

/-- `lua_getmetatable`, which puts nothing on the stack where there is none. -/
def getmetatable (index : Int) : LuaState × Bool :=
  match (L.value? index).bind L.metatable? with
  | some m => (L.push (.table m), true)
  | none => (L, false)

theorem getmetatable_of_some {index : Int} {v : LuaValue} {m : Nat} (hv : L.value? index = some v)
    (hm : L.metatable? v = some m) : L.getmetatable index = (L.push (.table m), true) := by
  rw [getmetatable, hv, Option.bind_some, hm]

theorem getmetatable_of_none {index : Int} {v : LuaValue} (hv : L.value? index = some v)
    (hm : L.metatable? v = none) : L.getmetatable index = (L, false) := by
  rw [getmetatable, hv, Option.bind_some, hm]

/-- `lua_setmetatable`. -/
def setmetatable (index : Int) : Option LuaState :=
  match L.value? index, L.stack with
  | some v, .nil :: below => some ((L.withMetatable v none).withStack below)
  | some v, .table m :: below => some ((L.withMetatable v (some m)).withStack below)
  | _, _ => none

/-- `lua_rawequal`. -/
def rawequal (index₁ index₂ : Int) : Bool :=
  match L.value? index₁, L.value? index₂ with
  | some v, some w => v.rawEqual w
  | _, _ => false

/-- `lua_replace` of the value under the top. -/
def replaceSecond : Option LuaState :=
  match L.stack with
  | v :: _ :: below => some (L.withStack (v :: below))
  | _ => none

/-- `lua_remove` of the value under the top. -/
def removeSecond : Option LuaState := L.replaceSecond

/-- What `lua_touserdata` points to, unless it is null. -/
inductive Address where
  | block (u : Nat)
  | memory (p : Nat)
deriving DecidableEq, Repr

/-- `lua_touserdata`. -/
def touserdata (index : Int) : Option Address :=
  match L.value? index with
  | some (.userdata u) => some (.block u)
  | some (.lightuserdata p) => if p = 0 then none else some (.memory p)
  | _ => none

section Top

variable (v w : LuaValue) (t : Nat) (k : List UInt8) (below : List LuaValue)

theorem pushvalue_neg_one :
    (L.withStack (v :: below)).pushvalue (-1) = some (L.withStack (v :: v :: below)) := rfl

theorem pushvalue_neg_two :
    (L.withStack (v :: w :: below)).pushvalue (-2) = some (L.withStack (w :: v :: w :: below)) := rfl

theorem of_setfield_neg_two {v : LuaValue} {t : Nat} {k : List UInt8} {below : List LuaValue}
    {f : LuaState → Option LuaState} {L' : LuaState}
    (h : ((L.withStack (v :: .table t :: below)).setfield (-2) k).bind f = some L') :
    f ((L.rawset t (.string k) v).withStack (.table t :: below)) = some L' :=
  of_setfield (L.withStack (v :: .table t :: below)) rfl rfl h

theorem of_setfield_neg_three {v w : LuaValue} {t : Nat} {k : List UInt8} {below : List LuaValue}
    {f : LuaState → Option LuaState} {L' : LuaState}
    (h : ((L.withStack (v :: w :: .table t :: below)).setfield (-3) k).bind f = some L') :
    f ((L.rawset t (.string k) v).withStack (w :: .table t :: below)) = some L' :=
  of_setfield (L.withStack (v :: w :: .table t :: below)) rfl rfl h

theorem setmetatable_neg_two : (L.withStack (.table t :: v :: below)).setmetatable (-2) =
    some ((L.withMetatable v (some t)).withStack (v :: below)) := by
  cases v with
  | _ => rfl

end Top

/-! ## `lauxlib` -/

/-- `luaL_newmetatable`. -/
def newmetatable (call : Nat → LuaValue → LuaValue → Option LuaValue) (tname : List UInt8) :
    Option LuaState := do
  let L ← L.getfield call (.table L.registry) tname
  if L.type (-1) ≠ .nil then some L
  else
    let L ← L.pop 1
    let L ← L.newtable.pushvalue (-1)
    match L.stack with
    | mt :: below =>
      (L.settable L.registry (.string tname) mt).map fun L => L.withStack below
    | [] => none

/-- The loop of `luaL_findtable`: the table that the parts of a name lead to, made where there is
nothing. It is put on the stack, unless a part leads to another value. -/
def findtable (L : LuaState) (t : Nat) : List (List UInt8) → Option LuaState
  | [] => some (L.push (.table t))
  | part :: rest =>
    match L.rawget t (.string part) with
    | .nil =>
      let made := L.tableCount
      let L := L.newtable.withStack L.stack
      (L.settable t (.string part) (.table made)).bind fun L => findtable L made rest
    | .table t' => findtable L t' rest
    | _ => none

/-- The functions of a list, put into the table on top of the stack. -/
def setfuncs (L : LuaState) : List (List UInt8 × Nat) → Option LuaState
  | [] => some L
  | (name, func) :: rest => do
    let L ← (L.push (.function func)).setfield (-2) name
    setfuncs L rest

/-- `luaL_register` with a name. An error is raised where the name has another value. -/
def register (call : Nat → LuaValue → LuaValue → Option LuaValue) (libname : List UInt8)
    (flist : List (List UInt8 × Nat)) : Option LuaState := do
  let L ← L.findtable L.registry [luaText "_LOADED"]
  let loaded ← L.value? (-1)
  let L ← L.getfield call loaded libname
  let L ← if L.type (-1) = .table then some L
    else do
      let L ← L.pop 1
      let L ← L.findtable L.globals (libname.splitOn 46)
      let L ← L.pushvalue (-1)
      L.setfield (-3) libname
  let L ← L.removeSecond
  L.setfuncs flist

end LuaState

end MmDriver

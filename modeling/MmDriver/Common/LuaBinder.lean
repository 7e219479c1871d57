import MmDriver.Lib.Lua

/-!
# `luabinder`

`include/common/luabinder.h` and `src/common/luabinder.cpp`: classes of C++ as metatables of Lua, and
their objects as userdata that hold a pointer. What a function returns that Lua calls for `__index`
is a parameter.

The environments of functions are left out: nothing here looks at them. The slots of the stack are not
counted: that there are enough is up to the caller, as nothing here calls `lua_checkstack`. Nothing is
given back where `__newindex` would be looked at.
-/

namespace MmDriver

namespace LuaState

variable (call : Nat → LuaValue → LuaValue → Option LuaValue) (L : LuaState)

/-! ## Classes -/

/-- `luaL_getmetatable`. -/
def getClass (tname : List UInt8) : Option LuaState := L.getfield call (.table L.registry) tname

/-- The table that `Init` makes the environment, which is taken off the stack then. -/
def initEnvironment : Option LuaState := do
  let L ← (L.newtable.push (.string (luaText "v"))).setfield (-2) (luaText "__mode")
  let L ← L.pushvalue (-1)
  let L ← L.setmetatable (-2)
  L.pop 1

/-- `Init`. The `lua_pop` takes the metatable off, so the last part is about the methods' table. -/
def initClass (tname : List UInt8) (bname : Option (List UInt8)) (flist : List (List UInt8 × Nat))
    (destroy : Nat) : Option LuaState := do
  let L ← L.initEnvironment
  let L ← L.register call tname flist
  let L ← L.newmetatable call tname
  let L ← L.pushvalue (-2)
  let L ← L.setfield (-2) (luaText "__index")
  let L ← (L.push (.function destroy)).setfield (-2) (luaText "__gc")
  match bname with
  | some bname =>
    let L ← L.getClass call bname
    let L ← L.setfield (-2) (luaText "_base")
    let L ← L.pop 1
    let L ← L.getfield call (.table L.globals) bname
    let L ← L.setfield (-2) (luaText "__index")
    let L ← L.pushvalue (-1)
    L.setmetatable (-2)
  | none => L.pop 1

/-! ## Objects -/

/-- `_register_lua_object`. -/
def registerLuaObject (udata : Nat) (tname : List UInt8) (bPop : Bool) : Option LuaState := do
  let L ← if bPop then L.pop 1 else some L
  let L ← (L.newuserdata (some udata)).getClass call tname
  let L ← L.setmetatable (-2)
  let L ← (L.push (.lightuserdata udata)).pushvalue (-2)
  L.rawsetAt L.globals

/-- The check of an object that is stored already, which leaves what it put on the stack where it
fails. -/
def checkStored (tname : List UInt8) : Option (LuaState × Bool) :=
  if (L.touserdata (-1)).isSome then
    let r := L.getmetatable (-1)
    if r.2 then do
      let L ← r.1.getClass call tname
      if L.rawequal (-1) (-2) then
        let L ← L.pop 2
        some (L, true)
      else some (L, false)
    else some (r.1, false)
  else some (L, false)

/-- `PushUserType`. -/
def pushUserType (udata : Nat) (tname : List UInt8) : Option LuaState := do
  let L ← (L.push (.lightuserdata udata)).rawgetAt L.globals
  if L.type (-1) = .nil then L.registerLuaObject call udata tname true
  else
    let (L, bValid) ← L.checkStored call tname
    if bValid then some L
    else
      let L ← L.pop 3
      L.registerLuaObject call udata tname false

/-! ## Checks -/

/-- How `CheckUserType` ends. -/
inductive Checked where
  | pointer (L : LuaState) (p : Nat)
  /-- `luaL_typerror`. -/
  | typeError
  /-- An error that `lua_getfield` raises. -/
  | otherError
  /-- Null is read, or memory that holds no pointer of `PushUserType`. -/
  | badRead

/-- `*((void**)lua_touserdata(...))`. -/
def unbox (index : Int) : Checked :=
  match L.touserdata index with
  | some (.block u) =>
    match (L.userdata u).block with
    | some p => .pointer L p
    | none => .badRead
  | _ => .badRead

/-- The loop of `CheckUserType`, as long as the fuel lasts. -/
def checkLoop (index : Int) : Nat → LuaState → Option Checked
  | 0, _ => none
  | fuel + 1, L =>
    if L.type (-1) = .table then
      if L.rawequal (-1) (-2) then (L.pop 2).map fun L => L.unbox index
      else
        match (L.value? (-1)).map fun mt => L.getfield call mt (luaText "_base") with
        | some (some L) => L.replaceSecond.bind (checkLoop index fuel)
        | _ => some .otherError
    else some .typeError

/-- `CheckUserType`. -/
def checkUserType (fuel : Nat) (index : Int) (tname : List UInt8) : Option Checked :=
  match L.getClass call tname with
  | some L => checkLoop call index fuel (L.getmetatable index).1
  | none => some .otherError

end LuaState

end MmDriver

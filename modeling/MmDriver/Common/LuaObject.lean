import MmDriver.Lib.Lua

/-!
# `luaobject` and the values read from a Lua state

`include/common/luaobject.h` and `src/common/luaobject.cpp`, with `GetLuaObjectType`,
`GetLuaObjectFromStack` and `GetLuaObject` of `src/common/luabinder.cpp`. A table is read with
indices that count from the top of the stack.

The array of the stack is made larger by the `lua_checkstack` of `GetLuaObjectType` only, for one
slot, and its answer is not looked at. A function that Lua calls for `__index` leaves the array.

Nothing is given back where an error is raised, where a value is pushed behind the array's end, where
the manual of Lua forbids the call, or where the fuel ends.
-/

namespace MmDriver

/-- `tstring`. -/
abbrev LuaName := List UInt8

/-- The text of a C string: what stands before its end. -/
def cText (s : List UInt8) : List UInt8 := s.takeWhile (· ≠ 0)

/-- `STRNCPY`, read as a C string. -/
def strncpyText (size : Nat) (s : List UInt8) : List UInt8 := (cText s).take (size - 1)

/-- `%d`. -/
def intText (i : Int) : List UInt8 :=
  ((if i < 0 then ['-'] else []) ++ Nat.toDigits 10 i.natAbs).map fun c => UInt8.ofNat c.toNat

/-- A `luaobject`, of one of its classes, with the name it was given. -/
inductive LuaObject where
  | luanumber (name : LuaName) (value : LuaNumber)
  | luastring (name : LuaName) (value : List UInt8)
  | luatable (name : LuaName) (keyObjs : LuaName → Option LuaObject)

/-- `LuaObjectMap`. -/
abbrev LuaObjectMap := LuaName → Option LuaObject

namespace LuaObject

/-- `SetName`. -/
def setName (name : LuaName) : LuaObject → LuaObject
  | luanumber _ value => luanumber name value
  | luastring _ value => luastring name value
  | luatable _ keyObjs => luatable name keyObjs

/-- `GetName`. -/
def getName : LuaObject → LuaName
  | luanumber name _ => name
  | luastring name _ => name
  | luatable name _ => name

end LuaObject

/-- What `GetLuaObjectType` gives: a type of Lua, or `LUA_TARRAY`. -/
inductive LuaObjectType where
  | lua (type : LuaType)
  | array
deriving DecidableEq, Repr

namespace LuaState

/-- `GetLuaObjectType`. A table is looked for on top of the stack, whatever the index. -/
def getLuaObjectType (L : LuaState) (index : Int) : Option (LuaState × LuaObjectType) :=
  if L.type index = .table then do
    let (L, _) := L.checkstack 1
    let L ← L.rawgetOne (-1)
    let L ← L.inSlots
    let type := L.type (-1)
    let L ← L.pop 1
    some (L, if type = .nil then .lua .table else .array)
  else some (L, .lua (L.type index))

/-- `pname` of the loop in `luatable::GetFromStack`; there is none where the key is neither a string
nor a number. -/
def pname (L : LuaState) : Option LuaName :=
  match L.type (-2) with
  | .string => some (strncpyText 256 (L.toString (-2)))
  | .number => some (intText (L.toNumber (-2)).toInt)
  | _ => none

/-- `m_KeyObjs` with the object of an entry: an object of the same name is deleted before. -/
def insertObject (keyObjs : LuaObjectMap) (pname : LuaName) : Option LuaObject → LuaObjectMap
  | some pvar => Function.update keyObjs pname (some (pvar.setName pname))
  | none => keyObjs

mutual

/-- `GetLuaObjectFromStack`. -/
def getLuaObjectFromStack : Nat → LuaState → Int → Option (LuaState × Option LuaObject)
  | 0, _, _ => none
  | fuel + 1, L, index => do
    let (L, type) ← L.getLuaObjectType index
    match type with
    | .lua .number => some (L, some (.luanumber [] (L.toNumber index)))
    | .lua .table =>
      let L ← (L.push .nil).inSlots
      let (L, keyObjs) ← getFromStackLoop fuel L fun _ => none
      some (L, some (.luatable [] keyObjs))
    | .lua .string => some (L, some (.luastring [] (cText (L.toString index))))
    | _ => some (L, none)

/-- The loop of `luatable::GetFromStack`. -/
def getFromStackLoop : Nat → LuaState → LuaObjectMap → Option (LuaState × LuaObjectMap)
  | 0, _, _ => none
  | fuel + 1, L, keyObjs => do
    let (L, more) ← L.next (-2)
    if more then
      let L ← L.inSlots
      match L.pname with
      | some pname =>
        let (L, pvar) ← getLuaObjectFromStack fuel L (-1)
        let L ← L.pop 1
        getFromStackLoop fuel L (insertObject keyObjs pname pvar)
      | none =>
        let L ← L.pop 2
        some (L, keyObjs)
    else some (L, keyObjs)

end

/-- `luatable::GetFromStack`, of an object with those children. -/
def getFromStack (fuel : Nat) (L : LuaState) (keyObjs : LuaObjectMap) :
    Option (LuaState × LuaObjectMap) := do
  let L ← (L.push .nil).inSlots
  getFromStackLoop fuel L keyObjs

/-- `luastate::GetLuaObject`, with its check of the stack. -/
def getLuaObject (call : Nat → LuaValue → LuaValue → Option LuaValue) (fuel : Nat) (L : LuaState)
    (strName : LuaName) : Option (LuaState × Option LuaObject) := do
  let luaStartSize := L.stack.length
  let L ← L.getfield call (.table L.globals) (cText strName)
  let L ← L.inSlots
  let (L, pkNewObj) ← getLuaObjectFromStack fuel L (-1)
  let pkNewObj := pkNewObj.map (LuaObject.setName strName)
  let L ← L.pop 1
  if L.stack.length = luaStartSize then some (L, pkNewObj) else none

end LuaState

end MmDriver

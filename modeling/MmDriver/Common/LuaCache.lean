import MmDriver.Common.LuaObject
import MmDriver.Common.StringUtility

/-!
# `GetLuaObjectFromCache`

`luatable::GetLuaObject` and `GetChild` of `src/common/luaobject.cpp`, and
`luastate::GetLuaObjectFromCache` of `src/common/luabinder.cpp`. The objects of the globals that
were found are kept, with all that was read with them.
-/

namespace MmDriver

namespace LuaObject

/-- `IsTable`. -/
def isTable : LuaObject → Bool
  | luatable _ _ => true
  | _ => false

/-- `GetChild`, of a table. -/
def getChild (name : LuaName) : LuaObject → Option LuaObject
  | luatable _ keyObjs => keyObjs name
  | _ => none

/-- The loop of `luatable::GetLuaObject`. -/
def walk : Option LuaObject → List LuaName → Option LuaObject
  | obj, [] => obj
  | none, _ :: _ => none
  | some obj, name :: rest => if obj.isTable then walk (obj.getChild name) rest else none

/-- `luatable::GetLuaObject`. -/
def getLuaObject (obj : LuaObject) (strVec : List LuaName) : Option LuaObject :=
  if strVec.isEmpty then none else walk (some obj) strVec

end LuaObject

/-- A pointer to an object: the number of the reading that made it, and the names that lead to it in
what was read then. -/
structure LuaPointer where
  reading : Nat
  path : List LuaName
deriving DecidableEq, Repr

/-- What a lookup gives: null, or a pointer and the object there. -/
abbrev LuaFound := Option (LuaPointer × LuaObject)

/-- `luastate`, with the number of readings so far. -/
structure LuaCache where
  state : LuaState
  cacheObjs : LuaName → Option (Nat × LuaObject)
  readings : Nat

namespace LuaCache

/-- No object is kept yet. -/
def new (L : LuaState) : LuaCache := ⟨L, fun _ => none, 0⟩

/-- What a kept object, or a new one, gives for the names behind the first. -/
def found (root : Nat × LuaObject) (luaVec : List LuaName) : LuaFound :=
  if luaVec.isEmpty then some (⟨root.1, []⟩, root.2)
  else if root.2.isTable then
    (root.2.getLuaObject luaVec).map fun obj => (⟨root.1, luaVec⟩, obj)
  else none

/-- `GetLuaObjectFromCache`. -/
def getLuaObjectFromCache (call : Nat → LuaValue → LuaValue → Option LuaValue) (fuel : Nat)
    (s : LuaCache) (strName : LuaName) : Option (LuaCache × LuaFound) :=
  match StringUtility.splitString strName 46 with
  | [] => some (s, none)
  | strRoot :: luaVec =>
    match s.cacheObjs strRoot with
    | some root => some (s, found root luaVec)
    | none => do
      let (L, pluaObj) ← s.state.getLuaObject call fuel strRoot
      let s := { s with state := L, readings := s.readings + 1 }
      match pluaObj with
      | some pluaObj =>
        let root := (s.readings, pluaObj)
        let s := { s with cacheObjs := Function.update s.cacheObjs strRoot (some root) }
        some (s, found root luaVec)
      | none => some (s, none)

/-- The calls one after another, with what each gives. -/
def lookups (call : Nat → LuaValue → LuaValue → Option LuaValue) (fuel : Nat) (s : LuaCache) :
    List LuaName → Option (LuaCache × List LuaFound)
  | [] => some (s, [])
  | strName :: strNames => do
    let (s, r) ← s.getLuaObjectFromCache call fuel strName
    let (s, rs) ← lookups call fuel s strNames
    some (s, r :: rs)

end LuaCache

end MmDriver

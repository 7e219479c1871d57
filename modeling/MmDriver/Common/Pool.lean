import MmDriver.Common.Exception
import MmDriver.Common.Types

/-!
# `Pool`, a cache of an object's memory

`include/common/pool.h` and `src/common/pool.cpp`. The memory of an object that is deleted is kept,
and is the next object's.

A pointer is a number. What `operator new` answers, if it does not throw, is given to each
allocation, which asks for it only when nothing is cached.
-/

namespace MmDriver

/-- `Pool`, less its name; `memCache` is a vector whose back is its last element. The counters are
`tint32`. -/
structure Pool where
  memCache : List Nat
  allocCount : Int
  poolSize : Int
  poolUsed : Int
deriving DecidableEq, Repr

namespace Pool

/-- The constructor. -/
def new : Pool := ⟨[], 0, 0, 0⟩

/-- `pool_obj_size`, where `sizeof(Obj)` is `objSize`. -/
def poolObjSize (objSize : Nat) : Int := TInt32.ofNat objSize

/-- `_alloc`. -/
def alloc (objSize size : Nat) (operatorNew : Option Nat) : Throwing Thrown Pool Nat := do
  assertEx (SizeT.ofInt (poolObjSize objSize) == size)
  modify fun s => { s with allocCount := TInt32.ofInt (s.allocCount + 1) }
  match (← MonadState.get).memCache.getLast? with
  | some p =>
    modify fun s => { s with memCache := s.memCache.dropLast }
    modify fun s => { s with poolUsed := TInt32.ofInt (s.poolUsed + 1) }
    return p
  | none =>
    match operatorNew with
    | none => throw (.stdException "std::bad_alloc")
    | some p =>
      modify fun s => { s with poolUsed := TInt32.ofInt (s.poolUsed + 1) }
      modify fun s => { s with poolSize := TInt32.ofInt (s.poolSize + 1) }
      return p

/-- `_free`. -/
def free (s : Pool) (p : Nat) : Pool :=
  { s with memCache := s.memCache ++ [p], poolUsed := TInt32.ofInt (s.poolUsed - 1) }

end Pool

/-! ## Its users -/

/-- A pool, and the pointers that are handed out. -/
structure PoolUse where
  pool : Pool
  inUse : List Nat
deriving DecidableEq, Repr

namespace PoolUse

/-- A call of a user: for memory, with what `operator new` answers, or with a pointer to give
back. -/
inductive Action where
  | alloc (size : Nat) (operatorNew : Option Nat)
  | free (p : Nat)
deriving DecidableEq, Repr

/-- `operator new` answers with memory that nobody has. -/
def Fresh (w : PoolUse) (operatorNew : Option Nat) : Prop :=
  ∀ p, operatorNew = some p → p ∉ w.pool.memCache ∧ p ∉ w.inUse

instance (w : PoolUse) : (operatorNew : Option Nat) → Decidable (w.Fresh operatorNew)
  | none => .isTrue fun _ h => by cases h
  | some p => decidable_of_iff (p ∉ w.pool.memCache ∧ p ∉ w.inUse)
    ⟨fun h _ hp => by cases hp; exact h, fun h => h p rfl⟩

/-- The pointers that are handed out after an allocation. -/
def handOut (r : Except Thrown Nat) (inUse : List Nat) : List Nat :=
  match r with
  | .ok p => p :: inUse
  | .error _ => inUse

/-- A call. Only a pointer that is handed out is given back. -/
def act (objSize : Nat) (w : PoolUse) : Action → Option PoolUse
  | .alloc size operatorNew =>
    if w.Fresh operatorNew then
      let r := Throwing.exec (Pool.alloc objSize size operatorNew) w.pool
      some ⟨r.2, handOut r.1 w.inUse⟩
    else none
  | .free p => if p ∈ w.inUse then some ⟨w.pool.free p, w.inUse.erase p⟩ else none

/-- Nothing is handed out. -/
def start : PoolUse := ⟨.new, []⟩

end PoolUse

end MmDriver

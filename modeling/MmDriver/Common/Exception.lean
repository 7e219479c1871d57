import Mathlib.Tactic.SplitIfs
import MmDriver.Lib.Throwing

/-!
# Assertions, and the macros around a function's body

`include/common/exception.h`, `src/common/exception.cpp` and `include/common/std_ex.h`. An
assertion that fails writes its text to the assertion log, which nobody reads back, and throws
the number 1. `__ENTER_FUNCTION` and `__LEAVE_FUNCTION` catch whatever the body throws, by class,
and assert `false` in each of the four handlers.

`bsvector` is a vector whose `operator[]` asserts that the index is inside.
-/

namespace MmDriver

/-- What is thrown, by the handlers of `__LEAVE_FUNCTION`. -/
inductive Thrown where
  | stdException (what : String)
  | stdString (err : String)
  | chars (err : String)
  | int (n : Int)
  | other
deriving DecidableEq, Repr

variable {σ α : Type}

/-- `_do_assert_`, less its text. -/
def doAssert (bReThrow : Bool) : Throwing Thrown σ Unit :=
  if bReThrow then throw (.int 1) else pure ()

/-- `AssertEx`. -/
def assertEx (expr : Bool) : Throwing Thrown σ Unit := if expr then pure () else doAssert true

/-- A body between `__ENTER_FUNCTION` and `__LEAVE_FUNCTION`: the handlers differ in the text they
assert `false` with. -/
def enterLeaveFunction (body : Throwing Thrown σ Unit) : Throwing Thrown σ Unit :=
  tryCatch body fun
    | .stdException _ => assertEx false
    | .stdString _ => assertEx false
    | .chars _ => assertEx false
    | .int _ | .other => assertEx false

/-- A body between `__ENTER_PROJECT` and `__LEAVE_PROJECT`: all handlers write the assertion log, and
nothing is thrown on. -/
def enterLeaveProject (body : Throwing Thrown σ Unit) : Throwing Thrown σ Unit :=
  tryCatch body fun _ => doAssert false

/-! ## `bsvector` -/

namespace BsVector

/-- `operator[]`, to read. -/
def get (i : Nat) : Throwing Thrown (List α) (Option α) := do
  assertEx (i < (← MonadState.get).length)
  return (← MonadState.get)[i]?

/-- `operator[]`, to write. -/
def put (i : Nat) (v : α) : Throwing Thrown (List α) Unit := do
  assertEx (i < (← MonadState.get).length)
  modify fun xs => xs.set i v

/-- `resize`: new elements are copies of `v`. -/
def resize (n : Nat) (v : α) (xs : List α) : List α :=
  xs.take n ++ List.replicate (n - xs.length) v

end BsVector

/-! ## What they come to -/

open Throwing

@[simp] theorem exec_assertEx (expr : Bool) (s : σ) :
    exec (assertEx expr) s = (if expr then .ok () else .error (.int 1), s) := by
  cases expr <;> rfl

theorem BsVector.exec_get (i : Nat) (xs : List α) :
    exec (get i) xs = if i < xs.length then (.ok xs[i]?, xs) else (.error (.int 1), xs) := by
  simp only [get, exec_bind, Throwing.exec_get, exec_assertEx, decide_eq_true_eq]
  split_ifs <;> rfl

theorem BsVector.exec_put (i : Nat) (v : α) (xs : List α) :
    exec (put i v) xs = if i < xs.length then (.ok (), xs.set i v) else (.error (.int 1), xs) := by
  simp only [put, exec_bind, Throwing.exec_get, exec_assertEx, decide_eq_true_eq]
  split_ifs <;> rfl

theorem returns_assertEx_iff (expr : Bool) (s : σ) :
    Returns (assertEx expr) s ↔ expr = true := by
  cases expr with
  | true => exact iff_of_true (returns_pure () s) rfl
  | false => exact iff_of_false (not_returns_throw (Thrown.int 1) s) Bool.false_ne_true

/-- Whatever the body throws, the number 1 is thrown on. -/
theorem exec_enterLeaveFunction (body : Throwing Thrown σ Unit) (s : σ) :
    exec (enterLeaveFunction body) s =
      ((exec body s).1.mapError fun _ => .int 1, (exec body s).2) := by
  refine exec_rethrow body (fun e t => ?_) s
  cases e <;> rfl

/-- A body's throw is never the end of it. -/
theorem returns_enterLeaveFunction (body : Throwing Thrown σ Unit) (s : σ) :
    Returns (enterLeaveFunction body) s ↔ Returns body s := by
  unfold Returns
  rw [exec_enterLeaveFunction]
  rcases exec body s with ⟨r, t⟩
  cases r with
  | ok a => exact Iff.rfl
  | error e =>
    refine iff_of_false ?_ ?_
    · rintro ⟨a, ha⟩
      cases ha
    · rintro ⟨a, ha⟩
      cases ha

end MmDriver

import Mathlib.Data.List.Basic

/-!
# `string_utility`

`include/common/stringutility.h` and `src/common/stringutility.cpp`. A text is cut at each
delimiter, by a loop that looks for the next one in what is left.
-/

namespace MmDriver

namespace StringUtility

variable {α : Type} [DecidableEq α]

/-- `find_first_of`, for one character; `none` is `npos`. -/
def findFirstOf (s : List α) (split : α) : Option Nat := s.findIdx? (· == split)

/-- What the loop of `SplitString` leaves. -/
structure SplitState (α : Type) where
  kFormatPath : List α
  kPos : Option Nat
  kResult : List (List α)

/-- The loop of `SplitString`. -/
def splitLoop (split : α) (kFormatPath : List α) (kPos : Option Nat) (kResult : List (List α)) :
    SplitState α :=
  match kPos with
  | some pos =>
    if 0 < kFormatPath.length then
      let rest := kFormatPath.drop (pos + 1)
      splitLoop split rest (findFirstOf rest split) (kResult ++ [kFormatPath.take pos])
    else ⟨kFormatPath, some pos, kResult⟩
  | none => ⟨kFormatPath, none, kResult⟩
termination_by kFormatPath.length
decreasing_by
  next hlength =>
  rw [List.length_drop]
  exact Nat.sub_lt hlength (Nat.succ_pos pos)

/-- `SplitString`. -/
def splitString (rkSrc : List α) (split : α) : List (List α) :=
  let r := splitLoop split rkSrc (findFirstOf rkSrc split) []
  if r.kPos = none ∧ 0 < r.kFormatPath.length then r.kResult ++ [r.kFormatPath] else r.kResult

end StringUtility

end MmDriver

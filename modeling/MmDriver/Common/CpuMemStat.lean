import MmDriver.Common.Exception
import MmDriver.Common.Types

/-!
# `CpuMemStat`, the processor time of a process

`include/common/cpumemstat.h` and `src/common/cpumemstat.cpp`, on Linux. `ReBuildCpu` reads the text
of the process's `stat` file and counts its whitespace; four of the whitespaces are read behind.

A `char` is its byte, and behind the text the buffer holds zeros.
-/

namespace MmDriver

/-- `isspace`, in the C locale: the space, and tab to carriage return. -/
def isspace (c : UInt8) : Bool := c == 32 || (9 ≤ c && c ≤ 13)

/-! ## `strtoul` -/

/-- The value of a digit, of up to sixteen of them. -/
def digitValue (c : UInt8) : Option Nat :=
  if 48 ≤ c ∧ c ≤ 57 then some (c.toNat - 48)
  else if 97 ≤ c ∧ c ≤ 102 then some (c.toNat - 87)
  else if 65 ≤ c ∧ c ≤ 70 then some (c.toNat - 55)
  else none

/-- The number of the digits in front, behind those that gave `value`. -/
def digitsFrom (base : Nat) : List UInt8 → Nat → Nat
  | [], value => value
  | c :: rest, value =>
    match digitValue c with
    | some d => if d < base then digitsFrom base rest (value * base + d) else value
    | none => value

/-- The base that a number's first characters say, and where its digits start: the base 0 of the
caller. -/
def baseOf (s : List UInt8) : Nat × List UInt8 :=
  match s with
  | 48 :: x :: c :: rest =>
    if (x = 120 ∨ x = 88) ∧ (digitValue c).isSome then (16, c :: rest) else (8, s)
  | 48 :: _ => (8, s)
  | _ => (10, s)

/-- The sign, and what stands behind it. -/
def signOf : List UInt8 → Bool × List UInt8
  | 45 :: rest => (true, rest)
  | 43 :: rest => (false, rest)
  | s => (false, s)

/-- `strtoul(s, NULL, 0)`: too large a number is `ULONG_MAX`, and a negative one is negated at
`unsigned long`. -/
def strtoul (s : List UInt8) : Nat :=
  let signed := signOf (s.dropWhile isspace)
  let digits := baseOf signed.2
  let n := digitsFrom digits.1 digits.2 0
  if 2 ^ 64 ≤ n then 2 ^ 64 - 1
  else if signed.1 then SizeT.sub 0 n
  else n

/-! ## The scan -/

/-- `CpuMemStat`: the members of `ReBuildCpu`. -/
structure CpuMemStat where
  pid : Nat
  utime : Nat
  ktime : Nat
  wcutime : Nat
  wcktime : Nat
deriving DecidableEq, Repr

namespace CpuMemStat

/-- `STAT_UTIME`. -/
def statUtime : Nat := 13

/-- `STAT_KTIME`. -/
def statKtime : Nat := 14

/-- `STAT_WCUTIME`. -/
def statWcutime : Nat := 15

/-- `STAT_WCKTIME`. -/
def statWcktime : Nat := 16

/-- `STAT_COUNT`. -/
def statCount : Nat := 17

/-- The `switch` at a whitespace. -/
def setField (s : CpuMemStat) (nFieldIndex : Nat) (pText : List UInt8) : CpuMemStat :=
  if nFieldIndex = statUtime then { s with utime := strtoul pText }
  else if nFieldIndex = statKtime then { s with ktime := strtoul pText }
  else if nFieldIndex = statWcutime then { s with wcutime := strtoul pText }
  else if nFieldIndex = statWcktime then { s with wcktime := strtoul pText }
  else s

/-- What the loop over whitespace leaves: what is left of the text, `nFieldIndex`, and the
object. -/
structure SpacesResult where
  rest : List UInt8
  nFieldIndex : Nat
  stat : CpuMemStat

/-- The loop over whitespace. -/
def spaces : List UInt8 → Nat → CpuMemStat → SpacesResult
  | [], nFieldIndex, s => ⟨[], nFieldIndex, s⟩
  | c :: rest, nFieldIndex, s =>
    if isspace c then spaces rest (nFieldIndex + 1) (s.setField nFieldIndex (c :: rest))
    else ⟨c :: rest, nFieldIndex, s⟩

/-- The loop over what is no whitespace. -/
def word (rest : List UInt8) : List UInt8 := rest.dropWhile fun c => !isspace c

theorem word_length_le (rest : List UInt8) : (word rest).length ≤ rest.length :=
  (List.dropWhile_suffix _).length_le

theorem spaces_length_le (rest : List UInt8) (nFieldIndex : Nat) (s : CpuMemStat) :
    (spaces rest nFieldIndex s).rest.length ≤ rest.length := by
  induction rest generalizing nFieldIndex s with
  | nil => exact Nat.le_refl 0
  | cons c rest ih =>
    rw [spaces]
    split
    · exact Nat.le_succ_of_le (ih _ _)
    · exact Nat.le_refl _

/-- The two loops take at least a character. -/
theorem turn_length_lt {rest : List UInt8} (hrest : rest ≠ []) (nFieldIndex : Nat) (s : CpuMemStat) :
    (word (spaces rest nFieldIndex s).rest).length < rest.length := by
  cases rest with
  | nil => exact absurd rfl hrest
  | cons c rest =>
    rw [spaces]
    split
    · exact Nat.lt_succ_of_le (Nat.le_trans (word_length_le _) (spaces_length_le _ _ _))
    · next hspace =>
      rw [word, List.dropWhile_cons_of_pos (by simpa using hspace)]
      exact Nat.lt_succ_of_le (word_length_le rest)

/-- The scan from `nFieldIndex` on. -/
def scan (rest : List UInt8) (nFieldIndex : Nat) (s : CpuMemStat) : CpuMemStat :=
  if rest ≠ [] ∧ nFieldIndex < statCount then
    let r := spaces rest nFieldIndex s
    scan (word r.rest) r.nFieldIndex r.stat
  else s
termination_by rest.length
decreasing_by
  next hturn => exact turn_length_lt hturn.1 _ _

/-- `szFileName` of `ReBuildCpu`. -/
def statFileName (s : CpuMemStat) : String := "proc/" ++ toString (TInt32.ofNat s.pid) ++ "/stat"

/-- `ReBuildCpu`. `fopen` gives the contents of the file of that name, if there is one, and
`sizeof(szBuff)` is 4096. -/
def reBuildCpu (fopen : String → Option (List UInt8)) : Throwing Thrown CpuMemStat Unit :=
  enterLeaveProject do
    let s ← MonadState.get
    let fp := fopen s.statFileName
    assertEx fp.isSome
    let szBuff := (fp.getD []).take (4096 - 1)
    assertEx (0 < szBuff.length && szBuff.length < 4096)
    modify (scan szBuff 0)

end CpuMemStat

end MmDriver

import Mathlib.Algebra.Group.Nat.Defs
import Mathlib.Algebra.GroupWithZero.Nat
import Mathlib.Data.Nat.Log

/-!
# Numbers in base 128

A number is written seven bits at a time, the lowest first; every byte but the last has its highest
bit set. A reader takes a limited number of bytes, and is right on what was written with no more than
that many.
-/

namespace Varint

/-- The bytes of a number. -/
def encode (n : Nat) : List UInt8 :=
  if n < 128 then [UInt8.ofNat n] else UInt8.ofNat (n % 128 + 128) :: encode (n / 128)
termination_by n
decreasing_by omega

/-- The number in front of some bytes, of which it has no more than `limit`, and what is behind. -/
def decode : Nat → List UInt8 → Option (Nat × List UInt8)
  | 0, _ => none
  | _ + 1, [] => none
  | limit + 1, b :: rest =>
    if b.toNat < 128 then some (b.toNat, rest)
    else (decode limit rest).map fun r => (b.toNat - 128 + 128 * r.1, r.2)

variable {n limit : Nat} {bytes rest : List UInt8}

theorem encode_of_lt (h : n < 128) : encode n = [UInt8.ofNat n] := by
  rw [encode, if_pos h]

theorem encode_of_le (h : 128 ≤ n) :
    encode n = UInt8.ofNat (n % 128 + 128) :: encode (n / 128) := by
  rw [encode, if_neg (Nat.not_lt.mpr h)]

theorem encode_ne_nil (n : Nat) : encode n ≠ [] := by
  rw [encode]
  split
  · exact List.cons_ne_nil _ _
  · exact List.cons_ne_nil _ _

theorem toNat_last (h : n < 128) : (UInt8.ofNat n).toNat = n := by
  rw [UInt8.toNat_ofNat']
  omega

theorem toNat_more (n : Nat) : (UInt8.ofNat (n % 128 + 128)).toNat = n % 128 + 128 := by
  rw [UInt8.toNat_ofNat']
  omega

/-- What was written is read back, and nothing behind it is touched. -/
theorem decode_encode (h : n < 128 ^ (limit + 1)) (rest : List UInt8) :
    decode (limit + 1) (encode n ++ rest) = some (n, rest) := by
  by_cases hlast : n < 128
  · rw [encode_of_lt hlast, List.singleton_append, decode, toNat_last hlast, if_pos hlast]
  · induction limit generalizing n with
    | zero => exact absurd (Nat.pow_one 128 ▸ h) hlast
    | succ limit ih =>
      have hmore : ¬n % 128 + 128 < 128 := Nat.not_lt.mpr (Nat.le_add_left _ _)
      have hsmall : n / 128 < 128 ^ (limit + 1) := Nat.div_lt_of_lt_mul (Nat.pow_succ' ▸ h)
      have hrest : decode (limit + 1) (encode (n / 128) ++ rest) = some (n / 128, rest) := by
        by_cases hnext : n / 128 < 128
        · rw [encode_of_lt hnext, List.singleton_append, decode, toNat_last hnext, if_pos hnext]
        · exact ih hsmall hnext
      rw [encode_of_le (Nat.not_lt.mp hlast), List.cons_append, decode, toNat_more, if_neg hmore,
        hrest, Option.map_some, Nat.add_sub_cancel, Nat.mod_add_div]

/-- A reader takes at least one byte. -/
theorem decode_length (h : decode limit bytes = some (n, rest)) : rest.length < bytes.length := by
  induction limit generalizing bytes n with
  | zero => cases h
  | succ limit ih =>
    cases bytes with
    | nil => cases h
    | cons b bytes =>
      rw [decode] at h
      split at h
      · cases h
        exact Nat.lt_succ_self _
      · obtain ⟨r, hr, hsome⟩ := Option.map_eq_some_iff.mp h
        cases hsome
        exact Nat.lt_succ_of_lt (ih hr)

/-- One byte for seven bits. -/
theorem length_encode (n : Nat) : (encode n).length = Nat.log2 n / 7 + 1 := by
  induction n using Nat.strongRecOn with
  | ind n ih =>
    by_cases h : n < 128
    · have hlog : Nat.log2 n < 7 := by
        by_cases hzero : n = 0
        · rw [hzero]
          decide
        · exact (Nat.log2_lt hzero).mpr h
      rw [encode_of_lt h, Nat.div_eq_of_lt hlog]
      rfl
    · have hle : 128 ≤ n := Nat.not_lt.mp h
      have hlog : Nat.log2 n = Nat.log2 (n / 128) + 7 := by
        have hseven : 7 ≤ Nat.log2 n := (Nat.le_log2 (by omega)).mpr hle
        have hdiv : Nat.log2 (n / 128) = Nat.log2 n - 7 := by
          rw [Nat.log2_eq_log_two, Nat.log2_eq_log_two]
          exact Nat.log_div_base_pow 2 n 7
        rw [hdiv, Nat.sub_add_cancel hseven]
      rw [encode_of_le hle, List.length_cons, ih (n / 128) (by omega), hlog]
      omega

end Varint

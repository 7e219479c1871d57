import Mathlib.Data.Nat.ModEq

/-!
# The machine integers of the source

Values of `size_t`, `tuint16` and `tuint32` are naturals below the type's bound; the
operations reduce explicitly, so an underflow is visible as a large number and never as a
truncated zero. The targets are the 64-bit ones, where `sizeof(size_t)` is 8.
-/

namespace MmDriver

/-- `a + b` at `size_t`. -/
def SizeT.add (a b : Nat) : Nat := (a + b) % 2 ^ 64

/-- `a - b` at `size_t`: an underflow wraps. -/
def SizeT.sub (a b : Nat) : Nat := (a + (2 ^ 64 - b % 2 ^ 64)) % 2 ^ 64

/-- The conversion of a signed integer to `size_t`. -/
def SizeT.ofInt (i : Int) : Nat := (i % 2 ^ 64).toNat

/-- The conversion of an unsigned integer to `tuint16`. -/
def TUint16.ofNat (n : Nat) : Nat := n % 2 ^ 16

/-- The conversion of a signed integer to `tuint16`. -/
def TUint16.ofInt (i : Int) : Nat := (i % 2 ^ 16).toNat

/-- The conversion of an unsigned integer to `tuint32`. -/
def TUint32.ofNat (n : Nat) : Nat := n % 2 ^ 32

/-- The conversion of an unsigned integer to `tint32`: values from `2 ^ 31` on come out
negative. -/
def TInt32.ofNat (n : Nat) : Int := ((n : Int) + 2 ^ 31) % 2 ^ 32 - 2 ^ 31

/-- The conversion of a signed integer to `tint32`. -/
def TInt32.ofInt (i : Int) : Int := (i + 2 ^ 31) % 2 ^ 32 - 2 ^ 31

/-- The conversion of an unsigned integer to `tuint64`. -/
def TUint64.ofNat (n : Nat) : Nat := n % 2 ^ 64

/-- `a - b` at `tuint64`, which is `size_t` on the targets. -/
def TUint64.sub (a b : Nat) : Nat := SizeT.sub a b

/-- The conversion of an unsigned integer to `tint64`. -/
def TInt64.ofNat (n : Nat) : Int := ((n : Int) + 2 ^ 63) % 2 ^ 64 - 2 ^ 63

theorem SizeT.add_eq {a b : Nat} (h : a + b < 2 ^ 64) : SizeT.add a b = a + b :=
  Nat.mod_eq_of_lt h

theorem SizeT.sub_eq {a b : Nat} (h : b ≤ a) (ha : a < 2 ^ 64) : SizeT.sub a b = a - b := by
  unfold SizeT.sub
  omega

theorem SizeT.sub_lt (a b : Nat) : SizeT.sub a b < 2 ^ 64 := Nat.mod_lt _ (by decide)

/-- Taking `k` bytes of what is left leaves less, at `tuint32`. -/
theorem SizeT.left_decreases {n t k : Nat} (hpos : 0 < k) (hle : k ≤ SizeT.sub n t % 2 ^ 32) :
    SizeT.sub n (TUint32.ofNat (t + k)) % 2 ^ 32 < SizeT.sub n t % 2 ^ 32 := by
  unfold SizeT.sub TUint32.ofNat at *
  omega

theorem SizeT.ofInt_natCast {n : Nat} (h : n < 2 ^ 64) : SizeT.ofInt (n : Int) = n := by
  unfold SizeT.ofInt
  omega

theorem TInt32.ofNat_eq {n : Nat} (h : n < 2 ^ 31) : TInt32.ofNat n = n := by
  unfold TInt32.ofNat
  omega

theorem TInt32.ofInt_ofNat_add_one (n : Nat) :
    TInt32.ofInt (TInt32.ofNat n + 1) = TInt32.ofNat (n + 1) := by
  unfold TInt32.ofInt TInt32.ofNat
  omega

theorem TInt32.ofInt_ofNat_sub_one (n : Nat) :
    TInt32.ofInt (TInt32.ofNat (n + 1) - 1) = TInt32.ofNat n := by
  unfold TInt32.ofInt TInt32.ofNat
  omega

theorem TInt32.ofNat_lt (n : Nat) : TInt32.ofNat n < 2 ^ 31 := by
  unfold TInt32.ofNat
  omega

end MmDriver

import Mathlib.Data.List.Basic
import Mathlib.Data.Nat.ModEq

/-!
# Byte-addressed memory

A memory is a total map from addresses to bytes. Nothing here is bounded: a program that
writes past an object writes the next object's bytes, and a frame condition is the statement
that it did not.

There is one way to write, `copy`, which is C's `memcpy` from a source read from its first
byte. A machine word is `copy` of its eight little-endian bytes, so every frame law is stated
once, for `copy`, and the word laws are its instances.
-/

namespace ByteMem

/-- A byte-addressed memory. -/
abbrev Memory := Nat → UInt8

/-! ## Writing and reading bytes -/

/-- `memcpy`: the first `len` bytes of `src` are written at `dst`, and nothing else is. -/
def copy (m : Memory) (dst : Nat) (src : Nat → UInt8) (len : Nat) : Memory := fun a =>
  if dst ≤ a ∧ a < dst + len then src (a - dst) else m a

/-- The `len` bytes from address `a` on. -/
def slice (m : Memory) (a len : Nat) : List UInt8 := (List.range len).map fun i => m (a + i)

/-- A byte string as a source of bytes; past its end there are zeros. -/
def ofList (l : List UInt8) : Nat → UInt8 := fun i => l.getD i 0

/-- A copy reads back, byte by byte. -/
theorem copy_inside {m : Memory} {dst : Nat} {src : Nat → UInt8} {len a : Nat}
    (h : dst ≤ a ∧ a < dst + len) : copy m dst src len a = src (a - dst) := if_pos h

/-- A copy changes nothing outside its target. -/
theorem copy_outside {m : Memory} {dst : Nat} {src : Nat → UInt8} {len a : Nat}
    (h : ¬(dst ≤ a ∧ a < dst + len)) : copy m dst src len a = m a := if_neg h

/-- A copy of no bytes changes nothing. -/
@[simp] theorem copy_zero (m : Memory) (dst : Nat) (src : Nat → UInt8) :
    copy m dst src 0 = m := by
  funext a
  exact copy_outside (by omega)

@[simp] theorem slice_length (m : Memory) (a len : Nat) : (slice m a len).length = len := by
  simp [slice]

@[simp] theorem slice_zero (m : Memory) (a : Nat) : slice m a 0 = [] := rfl

theorem slice_getElem? (m : Memory) (a len i : Nat) :
    (slice m a len)[i]? = if i < len then some (m (a + i)) else none := by
  unfold slice
  rw [List.getElem?_map]
  split
  · next h => rw [List.getElem?_range h]; rfl
  · next h => rw [List.getElem?_eq_none (by simpa using h)]; rfl

/-- Inside its length, a slice's bytes are the memory's. -/
theorem slice_getD {m : Memory} {a len i : Nat} (h : i < len) (d : UInt8) :
    (slice m a len).getD i d = m (a + i) := by
  rw [List.getD_eq_getElem?_getD, slice_getElem?, if_pos h]
  rfl

/-- Two slices are equal when the memories agree on their bytes. -/
theorem slice_congr {m m' : Memory} {a a' len : Nat} (h : ∀ i < len, m (a + i) = m' (a' + i)) :
    slice m a len = slice m' a' len :=
  List.map_congr_left fun i hi => h i (List.mem_range.mp hi)

/-- A slice is cut in two at any point inside it. -/
theorem slice_add (m : Memory) (a k l : Nat) :
    slice m a (k + l) = slice m a k ++ slice m (a + k) l := by
  simp only [slice, List.range_add, List.map_append, List.map_map, Function.comp_def, Nat.add_assoc]

/-- A slice through a pointer moved by `k`. -/
theorem slice_shift (m : Memory) (k a len : Nat) :
    slice (fun i => m (k + i)) a len = slice m (k + a) len := by
  simp only [slice, Nat.add_assoc]

/-- A slice of a slice. -/
theorem slice_part (m : Memory) (a : Nat) {k len n : Nat} (h : k + len ≤ n) :
    slice m (a + k) len = ((slice m a n).drop k).take len := by
  obtain ⟨rest, rfl⟩ := Nat.exists_eq_add_of_le h
  rw [slice_add, slice_add, List.append_assoc, List.drop_left' (slice_length m a k),
    List.take_left' (slice_length m (a + k) len)]

/-- A byte string is the slice of itself. -/
theorem slice_ofList (l : List UInt8) : slice (ofList l) 0 l.length = l := by
  apply List.ext_getElem?
  intro i
  rw [slice_getElem?, Nat.zero_add]
  split
  · next h => simp [ofList, List.getD_eq_getElem?_getD, List.getElem?_eq_getElem h]
  · next h => exact (List.getElem?_eq_none (Nat.le_of_not_lt h)).symm

/-- What was copied reads back. -/
theorem slice_copy_same (m : Memory) (dst : Nat) (src : Nat → UInt8) (len : Nat) :
    slice (copy m dst src len) dst len = slice src 0 len :=
  slice_congr fun i hi => by rw [copy_inside (by omega), Nat.add_sub_cancel_left, Nat.zero_add]

/-- A byte string that was copied reads back. -/
theorem slice_copy_inside (m : Memory) (a : Nat) (l : List UInt8) :
    slice (copy m a (ofList l) l.length) a l.length = l := by
  rw [slice_copy_same, slice_ofList]

/-- Two byte strings copied one behind the other are copied as one. -/
theorem copy_append (m : Memory) (a : Nat) (l l' : List UInt8) :
    copy (copy m a (ofList l) l.length) (a + l.length) (ofList l') l'.length =
      copy m a (ofList (l ++ l')) (l ++ l').length := by
  funext x
  rw [List.length_append]
  rcases Nat.lt_or_ge x (a + l.length) with hlow | hhigh
  · rw [copy_outside (by omega)]
    rcases Nat.lt_or_ge x a with hbefore | hin
    · rw [copy_outside (by omega), copy_outside (by omega)]
    · rw [copy_inside (by omega), copy_inside (by omega)]
      simp only [ofList, List.getD_eq_getElem?_getD]
      rw [List.getElem?_append_left (by omega)]
  · rcases Nat.lt_or_ge x (a + (l.length + l'.length)) with hin | hafter
    · rw [copy_inside (by omega), copy_inside (by omega)]
      simp only [ofList, List.getD_eq_getElem?_getD]
      rw [List.getElem?_append_right (by omega), Nat.sub_sub]
    · rw [copy_outside (by omega), copy_outside (by omega), copy_outside (by omega)]

/-- A slice is unchanged by a copy that misses it. -/
theorem slice_copy_outside {m : Memory} {dst len a k : Nat} {src : Nat → UInt8}
    (h : a + k ≤ dst ∨ dst + len ≤ a) : slice (copy m dst src len) a k = slice m a k :=
  slice_congr fun _ _ => copy_outside (by omega)

/-- Write one byte. -/
def storeByte (m : Memory) (a : Nat) (b : UInt8) : Memory := copy m a (fun _ => b) 1

@[simp] theorem storeByte_same (m : Memory) (a : Nat) (b : UInt8) : storeByte m a b a = b :=
  copy_inside (by omega)

theorem storeByte_other {m : Memory} {a c : Nat} {b : UInt8} (h : c ≠ a) :
    storeByte m a b c = m c := copy_outside (by omega)

/-! ## Little-endian words -/

/-- Byte `i` of `v`, least significant first. -/
def byteOf (v i : Nat) : UInt8 := UInt8.ofNat (v / 256 ^ i)

/-- The number whose `n` bytes `src` holds, least significant first. -/
def ofBytes (src : Nat → UInt8) : Nat → Nat
  | 0 => 0
  | n + 1 => ofBytes src n + 256 ^ n * (src n).toNat

/-- `n` bytes hold a number below `256 ^ n`. -/
theorem ofBytes_lt (src : Nat → UInt8) (n : Nat) : ofBytes src n < 256 ^ n := by
  induction n with
  | zero => exact Nat.one_pos
  | succ n ih =>
    have hb : (src n).toNat ≤ 255 := Nat.le_of_lt_succ (src n).toNat_lt
    have hm : 256 ^ n * (src n).toNat ≤ 256 ^ n * 255 := Nat.mul_le_mul_left _ hb
    have hp : 256 ^ (n + 1) = 256 ^ n * 256 := Nat.pow_succ 256 n
    unfold ofBytes
    omega

/-- Only the first `n` bytes count. -/
theorem ofBytes_congr {src src' : Nat → UInt8} {n : Nat} (h : ∀ i < n, src i = src' i) :
    ofBytes src n = ofBytes src' n := by
  induction n with
  | zero => rfl
  | succ n ih =>
    unfold ofBytes
    rw [ih fun i hi => h i (Nat.lt_succ_of_lt hi), h n (Nat.lt_succ_self n)]

/-- The bytes of `v` recombine to `v`, up to the bytes that were dropped. -/
theorem ofBytes_byteOf (v n : Nat) : ofBytes (byteOf v) n = v % 256 ^ n := by
  induction n with
  | zero => simp [ofBytes, Nat.mod_one]
  | succ n ih =>
    unfold ofBytes
    rw [ih, byteOf, UInt8.toNat_ofNat', Nat.mod_pow_succ (b := 256)]

/-- The eight bytes at `a` as an unsigned number. -/
def loadWord (m : Memory) (a : Nat) : Nat := ofBytes (fun i => m (a + i)) 8

/-- Write `v` into the eight bytes at `a`. -/
def storeWord (m : Memory) (a v : Nat) : Memory := copy m a (byteOf v) 8

/-- A word is read from its own eight bytes. -/
theorem loadWord_congr {m m' : Memory} {a : Nat} (h : ∀ b, a ≤ b → b < a + 8 → m' b = m b) :
    loadWord m' a = loadWord m a :=
  ofBytes_congr fun i hi => h (a + i) (Nat.le_add_right a i) (Nat.add_lt_add_left hi a)

/-- A stored word reads back. -/
theorem loadWord_storeWord {m : Memory} {a v : Nat} (h : v < 2 ^ 64) :
    loadWord (storeWord m a v) a = v := by
  have hbytes : ∀ i < 8, storeWord m a v (a + i) = byteOf v i := fun i hi => by
    have hin : storeWord m a v (a + i) = byteOf v (a + i - a) := copy_inside (by omega)
    rwa [Nat.add_sub_cancel_left] at hin
  unfold loadWord
  rw [ofBytes_congr hbytes, ofBytes_byteOf]
  exact Nat.mod_eq_of_lt h

/-- A word is unchanged by a copy that misses its eight bytes. -/
theorem loadWord_copy {m : Memory} {dst len a : Nat} {src : Nat → UInt8}
    (h : a + 8 ≤ dst ∨ dst + len ≤ a) : loadWord (copy m dst src len) a = loadWord m a :=
  loadWord_congr fun _ hl hu => copy_outside (by omega)

/-- A word is unchanged by a store to other eight bytes. -/
theorem loadWord_storeWord_other {m : Memory} {a b v : Nat} (h : a + 8 ≤ b ∨ b + 8 ≤ a) :
    loadWord (storeWord m b v) a = loadWord m a := loadWord_copy h

/-- A stored word changes no byte outside its eight. -/
theorem storeWord_outside {m : Memory} {a v b : Nat} (h : ¬(a ≤ b ∧ b < a + 8)) :
    storeWord m a v b = m b := copy_outside h

/-! ## Little-endian bit vectors -/

/-- The `n` bytes at `a` as a bit vector. -/
def loadBits (n : Nat) (m : Memory) (a : Nat) : BitVec (8 * n) :=
  BitVec.ofNat (8 * n) (ofBytes (fun i => m (a + i)) n)

/-- Write the `n` bytes of `v` at `a`. -/
def storeBits (n : Nat) (m : Memory) (a : Nat) (v : BitVec (8 * n)) : Memory :=
  copy m a (byteOf v.toNat) n

/-- A bit vector is read from its own bytes. -/
theorem loadBits_congr {n : Nat} {m m' : Memory} {a a' : Nat}
    (h : ∀ i < n, m' (a' + i) = m (a + i)) : loadBits n m' a' = loadBits n m a :=
  congrArg (BitVec.ofNat (8 * n)) (ofBytes_congr h)

/-- A stored bit vector reads back. -/
theorem loadBits_storeBits (n : Nat) (m : Memory) (a : Nat) (v : BitVec (8 * n)) :
    loadBits n (storeBits n m a v) a = v := by
  have hbytes : ∀ i < n, storeBits n m a v (a + i) = byteOf v.toNat i := fun i hi => by
    have hin : storeBits n m a v (a + i) = byteOf v.toNat (a + i - a) := copy_inside (by omega)
    rwa [Nat.add_sub_cancel_left] at hin
  have hlt : v.toNat < 256 ^ n := by
    have hv := v.isLt
    rwa [Nat.pow_mul] at hv
  unfold loadBits
  rw [ofBytes_congr hbytes, ofBytes_byteOf, Nat.mod_eq_of_lt hlt, BitVec.ofNat_toNat,
    BitVec.setWidth_eq]

/-- A bit vector is unchanged by a store that misses its bytes. -/
theorem loadBits_storeBits_other {n k : Nat} {m : Memory} {a b : Nat} {v : BitVec (8 * k)}
    (h : a + n ≤ b ∨ b + k ≤ a) : loadBits n (storeBits k m b v) a = loadBits n m a :=
  loadBits_congr fun _ _ => copy_outside (by omega)

/-- A stored bit vector changes no byte outside its own. -/
theorem storeBits_outside {n : Nat} {m : Memory} {a b : Nat} {v : BitVec (8 * n)}
    (h : ¬(a ≤ b ∧ b < a + n)) : storeBits n m a v b = m b := copy_outside h

end ByteMem

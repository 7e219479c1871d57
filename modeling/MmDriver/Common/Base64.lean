import Mathlib.Data.List.Basic

/-!
# Base64

`src/common/base64.cpp`, with the iterators it puts together: `transform_width`,
`base64_from_binary` and `binary_from_base64` of `boost/archive/iterators`. A string is a list of
its bytes.

`transform_width` regroups bits: it fills a character of `BitsOut` bits from characters of `BitsIn`
bits. The buffers are the numbers that the bits of a `char` stand for; the sign that a shift of a
`char` copies is masked off. Where a shorter character is made of a longer one, the last is filled
with zeros; the other way round, what is left over is dropped.

A character behind the end is read where a character of the output is only begun when the input
ends. That is undefined, and an error of its own here; the loops have a bound on their turns, and
that they keep to it is proved.
-/

namespace MmDriver

namespace Base64

/-- What ends a copy before its end. -/
inductive CopyFault where
  | invalidBase64Character
  | pastTheEnd
  | turnsUsedUp
deriving DecidableEq, Repr

/-! ## `transform_width` -/

/-- `transform_width<Base, BitsOut, BitsIn>`, with what is left of the input behind its base. -/
structure TransformWidth where
  base : List UInt8
  bufferOutFull : Bool
  bufferOut : Nat
  bufferIn : Nat
  remainingBits : Nat
  endOfSequence : Bool
deriving DecidableEq, Repr

namespace TransformWidth

/-- The constructor. -/
def new (start : List UInt8) : TransformWidth := ⟨start, false, 0, 0, 0, false⟩

/-- `equal_impl`, with the iterator of the end. -/
def equalImpl (bitsOut bitsIn : Nat) (s : TransformWidth) : Bool × TransformWidth :=
  if bitsIn < bitsOut then (s.base.isEmpty, s)
  else if s.base.isEmpty then (s.remainingBits == 0, { s with endOfSequence := true })
  else (false, s)

/-- The next character of the input, when the bits of the last one are used up. -/
def refill (read : UInt8 → Except CopyFault Nat) (bitsIn missingBits : Nat) (s : TransformWidth) :
    Except CopyFault TransformWidth :=
  if s.remainingBits ≠ 0 then .ok s
  else if s.endOfSequence then .ok { s with bufferIn := 0, remainingBits := missingBits }
  else
    match s.base with
    | [] => .error .pastTheEnd
    | t :: rest =>
      (read t).map fun v => { s with base := rest, bufferIn := v, remainingBits := bitsIn }

/-- The loop of `fill`, with `missing_bits` still to come. -/
def fillLoop (read : UInt8 → Except CopyFault Nat) (bitsIn : Nat) :
    Nat → Nat → TransformWidth → Except CopyFault TransformWidth
  | 0, _, _ => .error .turnsUsedUp
  | turns + 1, missingBits, s =>
    (refill read bitsIn missingBits s).bind fun s =>
      let i := min missingBits s.remainingBits
      let j := (s.bufferIn >>> (s.remainingBits - i)) &&& ((1 <<< i) - 1)
      let s := { s with
        bufferOut := (s.bufferOut <<< i ||| j) % 256, remainingBits := s.remainingBits - i }
      if 0 < missingBits - i then fillLoop read bitsIn turns (missingBits - i) s
      else .ok { s with bufferOutFull := true }

/-- `fill`. -/
def fill (read : UInt8 → Except CopyFault Nat) (bitsOut bitsIn : Nat) (s : TransformWidth) :
    Except CopyFault TransformWidth :=
  fillLoop read bitsIn bitsOut bitsOut { s with bufferOut := 0 }

/-- `dereference`: the character is the one in the buffer then. -/
def dereference (read : UInt8 → Except CopyFault Nat) (bitsOut bitsIn : Nat) (s : TransformWidth) :
    Except CopyFault TransformWidth :=
  if s.bufferOutFull = false then fill read bitsOut bitsIn s else .ok s

/-- `increment`. -/
def increment (s : TransformWidth) : TransformWidth := { s with bufferOutFull := false }

/-- `std::copy` up to the end. -/
def copy (read : UInt8 → Except CopyFault Nat) (bitsOut bitsIn : Nat) :
    Nat → TransformWidth → Except CopyFault (List Nat)
  | 0, _ => .error .turnsUsedUp
  | turns + 1, first =>
    let atEnd := equalImpl bitsOut bitsIn first
    if atEnd.1 then .ok []
    else
      (dereference read bitsOut bitsIn atEnd.2).bind fun s =>
        (copy read bitsOut bitsIn turns s.increment).map (s.bufferOut :: ·)

end TransformWidth

/-! ## The alphabet -/

/-- The lookup table of `from_6_bit`. -/
def encodeTable : List Char :=
  ['A', 'B', 'C', 'D', 'E', 'F', 'G', 'H', 'I', 'J', 'K', 'L', 'M', 'N', 'O', 'P', 'Q', 'R', 'S',
   'T', 'U', 'V', 'W', 'X', 'Y', 'Z',
   'a', 'b', 'c', 'd', 'e', 'f', 'g', 'h', 'i', 'j', 'k', 'l', 'm', 'n', 'o', 'p', 'q', 'r', 's',
   't', 'u', 'v', 'w', 'x', 'y', 'z',
   '0', '1', '2', '3', '4', '5', '6', '7', '8', '9',
   '+', '/']

/-- `from_6_bit`, for a number below 64. -/
def from6Bit (t : Nat) : UInt8 := (encodeTable.map fun c => UInt8.ofNat c.toNat).getD t 0

/-- The lookup table of `to_6_bit`. It has `=` as 0. -/
def decodeTable : List Int :=
  [-1,-1,-1,-1,-1,-1,-1,-1,-1,-1,-1,-1,-1,-1,-1,-1,
   -1,-1,-1,-1,-1,-1,-1,-1,-1,-1,-1,-1,-1,-1,-1,-1,
   -1,-1,-1,-1,-1,-1,-1,-1,-1,-1,-1,62,-1,-1,-1,63,
   52,53,54,55,56,57,58,59,60,61,-1,-1,-1, 0,-1,-1,
   -1, 0, 1, 2, 3, 4, 5, 6, 7, 8, 9,10,11,12,13,14,
   15,16,17,18,19,20,21,22,23,24,25,-1,-1,-1,-1,-1,
   -1,26,27,28,29,30,31,32,33,34,35,36,37,38,39,40,
   41,42,43,44,45,46,47,48,49,50,51,-1,-1,-1,-1,-1]

/-- `to_6_bit`. A character that is negative as a `char` is above 127. -/
def to6Bit (t : UInt8) : Except CopyFault Nat :=
  let value := if t.toNat ≤ 127 then decodeTable.getD t.toNat (-1) else -1
  if value = -1 then .error .invalidBase64Character else .ok value.toNat

/-- `'='`. -/
def equalSign : UInt8 := 61

end Base64

open Base64

/-- `Base64Encode`: its result, and `output`. -/
def base64Encode (input : List UInt8) : Option (Bool × List UInt8) :=
  match TransformWidth.copy (fun t => .ok t.toNat) 6 8 (8 * input.length + 1)
      (TransformWidth.new input) with
  | .error _ => none
  | .ok sextets =>
    let equalCount := (3 - input.length % 3) % 3
    let output := sextets.map from6Bit ++ List.replicate equalCount equalSign
    some (!output.isEmpty, output)

/-- `Base64Decode`: its result, and `output`, which a character without a value leaves as it was. -/
def base64Decode (input output : List UInt8) : Option (Bool × List UInt8) :=
  match TransformWidth.copy to6Bit 8 6 (8 * input.length + 1) (TransformWidth.new input) with
  | .ok chars =>
    let output := chars.map UInt8.ofNat
    some (!output.isEmpty, output)
  | .error .invalidBase64Character => some (false, output)
  | .error _ => none

end MmDriver

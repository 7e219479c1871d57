import MmDriver.Lib.Varint

/-!
# Protobuf on the wire

`lib/google/protobuf`, as far as the messages of the application need it: `CodedInputStream` over an
array, the parts of `WireFormatLite` that read, skip and write fields, and `MessageLite`. What `protoc`
writes for a message of proto3 is the same text for every message but for its fields, so a message's
class is given by these.

Where a varint is broken off, how far the stream has moved is left out: nothing is read from it then.
-/

namespace MmDriver

/-! ## `CodedInputStream` -/

/-- The stream: what is not read yet, and the members that reading uses. An array has no limit before
its end. -/
structure CodedInputStream where
  buffer : List UInt8
  lastTag : Nat
  legitimateMessageEnd : Bool
  recursionBudget : Int
deriving DecidableEq, Repr

namespace CodedInputStream

/-- `default_recursion_limit_`. -/
def defaultRecursionLimit : Int := 100

/-- `kMaxVarintBytes`. -/
def maxVarintBytes : Nat := 10

/-- The constructor over an array. -/
def ofArray (data : List UInt8) : CodedInputStream := ⟨data, 0, false, defaultRecursionLimit⟩

/-- A varint, of which the lowest bits are kept. -/
def readVarint (bits : Nat) (s : CodedInputStream) : Option (Nat × CodedInputStream) :=
  (Varint.decode maxVarintBytes s.buffer).map fun r => (r.1 % 2 ^ bits, { s with buffer := r.2 })

/-- `ReadVarint32`. -/
def readVarint32 (s : CodedInputStream) : Option (Nat × CodedInputStream) := s.readVarint 32

/-- `ReadVarint64`. -/
def readVarint64 (s : CodedInputStream) : Option (Nat × CodedInputStream) := s.readVarint 64

/-- `InternalReadStringInline`. A size comes as an `int`, so a large one is negative. -/
def readRaw (size : Nat) (s : CodedInputStream) : Option (List UInt8 × CodedInputStream) :=
  if 2 ^ 31 ≤ size then none
  else if size ≤ s.buffer.length then
    some (s.buffer.take size, { s with buffer := s.buffer.drop size })
  else none

/-- `Skip`, and `ReadLittleEndian32` and `ReadLittleEndian64` of a value that is not used. -/
def skip (count : Nat) (s : CodedInputStream) : Option CodedInputStream :=
  (s.readRaw count).map Prod.snd

/-- `ReadTagNoLastTag`: 0 at the end, and where there is no tag. -/
def readTagNoLastTag (s : CodedInputStream) : Nat × CodedInputStream :=
  match s.buffer with
  | [] => (0, { s with legitimateMessageEnd := true })
  | _ :: _ => s.readVarint32.getD (0, s)

/-- `ReadTag`. -/
def readTag (s : CodedInputStream) : Nat × CodedInputStream :=
  let r := s.readTagNoLastTag
  (r.1, { r.2 with lastTag := r.1 })

/-- `IncrementRecursionDepth`. -/
def incrementRecursionDepth (s : CodedInputStream) : Option CodedInputStream :=
  let s := { s with recursionBudget := s.recursionBudget - 1 }
  if 0 ≤ s.recursionBudget then some s else none

/-- `DecrementRecursionDepth`. -/
def decrementRecursionDepth (s : CodedInputStream) : CodedInputStream :=
  if s.recursionBudget < defaultRecursionLimit then
    { s with recursionBudget := s.recursionBudget + 1 }
  else s

end CodedInputStream

/-! ## `WireFormatLite` -/

/-- `WireType`. -/
inductive WireType where
  | varint
  | fixed64
  | lengthDelimited
  | startGroup
  | endGroup
  | fixed32
deriving DecidableEq, Repr

/-- The enumerator's value. -/
def WireType.value : WireType → Nat
  | .varint => 0
  | .fixed64 => 1
  | .lengthDelimited => 2
  | .startGroup => 3
  | .endGroup => 4
  | .fixed32 => 5

namespace WireFormatLite

/-- `MakeTag`. -/
def makeTag (fieldNumber : Nat) (type : WireType) : Nat := fieldNumber * 2 ^ 3 + type.value

/-- `GetTagFieldNumber`. -/
def getTagFieldNumber (tag : Nat) : Nat := tag / 2 ^ 3

/-- `GetTagWireType`: two numbers have no type. -/
def getTagWireType (tag : Nat) : Option WireType :=
  match tag % 2 ^ 3 with
  | 0 => some .varint
  | 1 => some .fixed64
  | 2 => some .lengthDelimited
  | 3 => some .startGroup
  | 4 => some .endGroup
  | 5 => some .fixed32
  | _ => none

open CodedInputStream

/-- `SkipField`, where `skipMessage` is how the inside of a group is skipped. -/
def skipFieldWith (skipMessage : CodedInputStream → Option CodedInputStream) (tag : Nat)
    (s : CodedInputStream) : Option CodedInputStream :=
  if getTagFieldNumber tag = 0 then none
  else
    match getTagWireType tag with
    | some .varint => s.readVarint64.map Prod.snd
    | some .fixed64 => s.skip 8
    | some .lengthDelimited => s.readVarint32.bind fun r => r.2.skip r.1
    | some .startGroup => do
      let s ← s.incrementRecursionDepth
      let s ← skipMessage s
      let s := s.decrementRecursionDepth
      if s.lastTag = makeTag (getTagFieldNumber tag) .endGroup then some s else none
    | some .endGroup => none
    | some .fixed32 => s.skip 4
    | none => none

/-- `SkipMessage`, for as many tags as the fuel allows. -/
def skipMessage : Nat → CodedInputStream → Option CodedInputStream
  | 0, _ => none
  | fuel + 1, s =>
    let r := s.readTag
    if r.1 = 0 then some r.2
    else if getTagWireType r.1 = some .endGroup then some r.2
    else (skipFieldWith (skipMessage fuel) r.1 r.2).bind (skipMessage fuel)

/-- `SkipField`: every tag inside takes a byte. -/
def skipField (tag : Nat) (s : CodedInputStream) : Option CodedInputStream :=
  skipFieldWith (skipMessage (s.buffer.length + 1)) tag s

/-- `IsStructurallyValidUTF8`: the state table accepts the shortest forms of the code points, the
surrogates left out. -/
def isStructurallyValidUTF8 : List UInt8 → Bool
  | [] => true
  | a :: s =>
    if a < 0x80 then isStructurallyValidUTF8 s
    else
      match s with
      | [] => false
      | b :: s =>
        if 0xC2 ≤ a ∧ a ≤ 0xDF then
          decide (0x80 ≤ b ∧ b ≤ 0xBF) && isStructurallyValidUTF8 s
        else
          match s with
          | [] => false
          | c :: s =>
            if 0xE0 ≤ a ∧ a ≤ 0xEF then
              decide ((if a = 0xE0 then 0xA0 else 0x80) ≤ b ∧ b ≤ (if a = 0xED then 0x9F else 0xBF)) &&
                decide (0x80 ≤ c ∧ c ≤ 0xBF) && isStructurallyValidUTF8 s
            else
              match s with
              | [] => false
              | d :: s =>
                decide (0xF0 ≤ a ∧ a ≤ 0xF4) &&
                  decide ((if a = 0xF0 then 0x90 else 0x80) ≤ b ∧ b ≤ (if a = 0xF4 then 0x8F else 0xBF)) &&
                  decide (0x80 ≤ c ∧ c ≤ 0xBF) && decide (0x80 ≤ d ∧ d ≤ 0xBF) &&
                  isStructurallyValidUTF8 s

/-- `VarintSize32` and `VarintSize64`. -/
def varintSize (value : Nat) : Nat := (Nat.log2 (value ||| 1) * 9 + 73) / 64

end WireFormatLite

/-! ## Fields -/

/-- The types of the fields. -/
inductive ProtoKind where
  | uint32
  | int32
  | string
deriving DecidableEq, Repr

namespace ProtoKind

open WireFormatLite CodedInputStream

/-- What a field of a type holds. -/
abbrev Value : ProtoKind → Type
  | uint32 => UInt32
  | int32 => Int32
  | string => List UInt8

/-- `kWireTypeForFieldType`. -/
def wireType : ProtoKind → WireType
  | uint32 => .varint
  | int32 => .varint
  | string => .lengthDelimited

/-- What a field holds in a new message, which is not written. -/
def default : (k : ProtoKind) → k.Value
  | uint32 => 0
  | int32 => 0
  | string => []

instance (k : ProtoKind) : DecidableEq k.Value :=
  match k with
  | uint32 => inferInstanceAs (DecidableEq UInt32)
  | int32 => inferInstanceAs (DecidableEq Int32)
  | string => inferInstanceAs (DecidableEq (List UInt8))

/-- `ReadPrimitive`, and `ReadString` with `VerifyUtf8String`. -/
def read : (k : ProtoKind) → CodedInputStream → Option (k.Value × CodedInputStream)
  | uint32, s => s.readVarint32.map fun r => (UInt32.ofNat r.1, r.2)
  | int32, s => s.readVarint32.map fun r => ((UInt32.ofNat r.1).toInt32, r.2)
  | string, s =>
    (s.readVarint32.bind fun r => r.2.readRaw r.1).bind fun r =>
      if isStructurallyValidUTF8 r.1 then some r else none

/-- `WriteUInt32NoTagToArray`, `WriteInt32NoTagToArray` and the part of `WriteStringToArray` behind the
tag. A negative number is written with 64 bits. -/
def write : (k : ProtoKind) → k.Value → List UInt8
  | uint32, v => Varint.encode v.toNat
  | int32, v => Varint.encode v.toInt64.toUInt64.toNat
  | string, v => Varint.encode v.length ++ v

/-- `UInt32Size`, `Int32Size` and `StringSize`. -/
def size : (k : ProtoKind) → k.Value → Nat
  | uint32, v => varintSize v.toNat
  | int32, v => if v < 0 then 10 else varintSize v.toUInt32.toNat
  | string, v => varintSize v.length + v.length

end ProtoKind

/-- A field of a message, with its accessors. -/
structure ProtoField (M : Type) where
  number : Nat
  kind : ProtoKind
  get : M → kind.Value
  set : kind.Value → M → M

namespace ProtoField

variable {M : Type} (f : ProtoField M)

open WireFormatLite

/-- The field's tag. -/
def tag : Nat := makeTag f.number f.kind.wireType

/-- The field is not written. -/
def IsDefault (m : M) : Prop := f.get m = f.kind.default

instance (m : M) : Decidable (f.IsDefault m) := inferInstanceAs (Decidable (_ = _))

/-- The field's bytes. -/
def write (m : M) : List UInt8 :=
  if f.IsDefault m then [] else Varint.encode f.tag ++ f.kind.write (f.get m)

/-- What the field adds to `ByteSizeLong`. -/
def byteSize (m : M) : Nat :=
  if f.IsDefault m then 0 else varintSize f.tag + f.kind.size (f.get m)

/-- What `MergeFrom` does to the field. -/
def mergeFrom (m from_ : M) : M := if f.IsDefault from_ then m else f.set (f.get from_) m

end ProtoField

/-! ## Messages -/

/-- The class of a message: what `Clear` leaves, the largest tag that the parser looks at, and the
fields by their numbers. -/
structure ProtoClass (M : Type) where
  cleared : M
  cutoff : Nat
  fields : List (ProtoField M)

namespace ProtoClass

variable {M : Type} (c : ProtoClass M)

open WireFormatLite

/-- The field that the parser takes for a tag. -/
def fieldOf (tag : Nat) : Option (ProtoField M) :=
  if 0 < tag ∧ tag ≤ c.cutoff then
    (c.fields.find? fun f => f.number = getTagFieldNumber tag).filter fun f =>
      tag % 2 ^ 8 = f.tag % 2 ^ 8
  else none

/-- `MergePartialFromCodedStream`, for as many tags as the fuel allows. -/
def mergePartialFromCodedStream : Nat → M → CodedInputStream → Option (M × CodedInputStream)
  | 0, _, _ => none
  | fuel + 1, m, s =>
    let r := s.readTagNoLastTag
    match c.fieldOf r.1 with
    | some f =>
      (f.kind.read r.2).bind fun v => mergePartialFromCodedStream fuel (f.set v.1 m) v.2
    | none =>
      if r.1 = 0 ∨ getTagWireType r.1 = some .endGroup then some (m, r.2)
      else (skipField r.1 r.2).bind fun s => mergePartialFromCodedStream fuel m s

/-- `ParseFromArray`: every tag takes a byte. -/
def parseFromArray (data : List UInt8) : Option M :=
  match c.mergePartialFromCodedStream (data.length + 1) c.cleared (.ofArray data) with
  | some (m, s) => if s.legitimateMessageEnd then some m else none
  | none => none

/-- `SerializeWithCachedSizesToArray`. -/
def serialize (m : M) : List UInt8 := c.fields.flatMap fun f => f.write m

/-- `ByteSizeLong`. -/
def byteSizeLong (m : M) : Nat := (c.fields.map fun f => f.byteSize m).sum

/-- `MergeFrom`. -/
def mergeFrom (m from_ : M) : M := c.fields.foldl (fun m f => f.mergeFrom m from_) m

end ProtoClass

end MmDriver

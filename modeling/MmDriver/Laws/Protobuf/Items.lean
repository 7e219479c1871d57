import MmDriver.Laws.Protobuf.Fuel

/-!
# What is parsed

A message on the wire is a row of items: fields of its class, in any order and as often as one likes,
and fields that the class does not have. The parser sets the first ones in their order, and skips the
others, groups within groups as deep as its budget allows. It fails just where a text is not UTF-8.
-/

namespace MmDriver

open WireFormatLite CodedInputStream

/-! ## Tags -/

theorem getTagFieldNumber_makeTag (number : Nat) (type : WireType) :
    getTagFieldNumber (makeTag number type) = number := by
  have hvalue : type.value < 8 := by cases type <;> decide
  rw [getTagFieldNumber, makeTag]
  omega

theorem getTagWireType_makeTag (number : Nat) (type : WireType) :
    getTagWireType (makeTag number type) = some type := by
  have hmod : makeTag number type % 2 ^ 3 = type.value := by
    have hvalue : type.value < 8 := by cases type <;> decide
    rw [makeTag]
    omega
  rw [getTagWireType, hmod]
  cases type <;> rfl

/-- The numbers that a field may have. -/
def IsFieldNumber (number : Nat) : Prop := 1 ≤ number ∧ number < 2 ^ 29

instance : DecidablePred IsFieldNumber := fun _ => inferInstanceAs (Decidable (_ ∧ _))

theorem IsFieldNumber.tag_pos {number : Nat} (h : IsFieldNumber number) (type : WireType) :
    0 < makeTag number type := by
  have hnumber := h.1
  rw [makeTag]
  omega

theorem IsFieldNumber.tag_lt {number : Nat} (h : IsFieldNumber number) (type : WireType) :
    makeTag number type < 2 ^ 32 := by
  have hnumber := h.2
  have hvalue : type.value < 8 := by cases type <;> decide
  rw [makeTag]
  omega

/-! ## Reading -/

namespace CodedInputStream

variable (s : CodedInputStream) (rest : List UInt8) {bytes : List UInt8} {n : Nat}

/-- The stream in front of other bytes. -/
def withBuffer (bytes : List UInt8) : CodedInputStream :=
  { s with buffer := bytes }

/-- The stream after a tag. -/
def withLastTag (tag : Nat) : CodedInputStream := { s with lastTag := tag }

@[simp] theorem withBuffer_buffer (bytes : List UInt8) :
    (s.withBuffer bytes).buffer = bytes := rfl

theorem readVarint_encode (bits : Nat) (h : n < 2 ^ 64) :
    (s.withBuffer (Varint.encode n ++ rest)).readVarint bits =
      some (n % 2 ^ bits, s.withBuffer rest) := by
  have hdecode : Varint.decode maxVarintBytes (Varint.encode n ++ rest) = some (n, rest) :=
    Varint.decode_encode (Nat.lt_trans h (by decide)) rest
  rw [readVarint, withBuffer_buffer, hdecode]
  rfl

theorem readVarint32_encode (h : n < 2 ^ 32) :
    (s.withBuffer (Varint.encode n ++ rest)).readVarint32 = some (n, s.withBuffer rest) := by
  rw [readVarint32, readVarint_encode s rest 32 (Nat.lt_trans h (by decide)), Nat.mod_eq_of_lt h]

theorem readRaw_append (h : bytes.length < 2 ^ 31) :
    (s.withBuffer (bytes ++ rest)).readRaw bytes.length = some (bytes, s.withBuffer rest) := by
  have hle : bytes.length ≤ (bytes ++ rest).length := by
    rw [List.length_append]
    exact Nat.le_add_right _ _
  rw [readRaw, if_neg (Nat.not_le.mpr h), withBuffer_buffer, if_pos hle, List.take_left, List.drop_left]
  rfl

theorem skip_append (h : bytes.length < 2 ^ 31) :
    (s.withBuffer (bytes ++ rest)).skip bytes.length = some (s.withBuffer rest) := by
  rw [skip, readRaw_append s rest h]
  rfl

theorem readTagNoLastTag_encode {tag : Nat} (h : tag < 2 ^ 32) :
    (s.withBuffer (Varint.encode tag ++ rest)).readTagNoLastTag = (tag, s.withBuffer rest) := by
  obtain ⟨b, bs, hcons⟩ := List.exists_cons_of_ne_nil
    (List.append_ne_nil_of_left_ne_nil (Varint.encode_ne_nil tag) rest)
  have hread := readVarint32_encode s rest h
  rw [readTagNoLastTag, hread, withBuffer_buffer, hcons]
  rfl

theorem readTag_encode {tag : Nat} (h : tag < 2 ^ 32) :
    (s.withBuffer (Varint.encode tag ++ rest)).readTag =
      (tag, (s.withBuffer rest).withLastTag tag) := by
  rw [readTag, readTagNoLastTag_encode s rest h]
  rfl

theorem readTagNoLastTag_nil : (s.withBuffer []).readTagNoLastTag =
    (0, { s.withBuffer [] with legitimateMessageEnd := true }) := rfl

/-- A tag takes the place of the one before. -/
theorem readTag_withLastTag (tag : Nat) : (s.withLastTag tag).readTag = s.readTag := by
  have hbuffer : (s.withLastTag tag).buffer = s.buffer := rfl
  rw [readTag, readTag, readTagNoLastTag, readTagNoLastTag, hbuffer]
  cases s.buffer with
  | nil => rfl
  | cons b bs =>
    rw [readVarint32, readVarint32, readVarint, readVarint, hbuffer]
    cases Varint.decode maxVarintBytes s.buffer with
    | none => rfl
    | some r => rfl

/-- The stream one group deeper. -/
def deeper : CodedInputStream := { s with recursionBudget := s.recursionBudget - 1 }

theorem increment_withBuffer (h : 1 ≤ s.recursionBudget) :
    (s.withBuffer bytes).incrementRecursionDepth = some (s.deeper.withBuffer bytes) :=
  if_pos (Int.sub_nonneg_of_le h)

theorem decrement_deeper (h : s.recursionBudget ≤ defaultRecursionLimit) (tag : Nat) :
    ((s.deeper.withBuffer bytes).withLastTag tag).decrementRecursionDepth =
      (s.withBuffer bytes).withLastTag tag := by
  have hless : ((s.deeper.withBuffer bytes).withLastTag tag).recursionBudget <
      defaultRecursionLimit := Int.sub_one_lt_of_le h
  rw [decrementRecursionDepth, if_pos hless]
  simp [withLastTag, withBuffer, deeper]

end CodedInputStream

/-! ## Fields that are skipped -/

/-- What is behind a tag, unless it is a group. -/
inductive Payload where
  | varint (value : Nat)
  | fixed64 (bytes : List UInt8)
  | lengthDelimited (bytes : List UInt8)
  | fixed32 (bytes : List UInt8)
deriving DecidableEq, Repr

namespace Payload

/-- The type in its tag. -/
def wireType : Payload → WireType
  | varint _ => .varint
  | fixed64 _ => .fixed64
  | lengthDelimited _ => .lengthDelimited
  | fixed32 _ => .fixed32

/-- Its bytes. -/
def encode : Payload → List UInt8
  | varint value => Varint.encode value
  | fixed64 bytes => bytes
  | lengthDelimited bytes => Varint.encode bytes.length ++ bytes
  | fixed32 bytes => bytes

/-- It is what its type says. -/
def Fits : Payload → Prop
  | varint value => value < 2 ^ 64
  | fixed64 bytes => bytes.length = 8
  | lengthDelimited bytes => bytes.length < 2 ^ 31
  | fixed32 bytes => bytes.length = 4

instance : DecidablePred Fits
  | varint _ => inferInstanceAs (Decidable (_ < _))
  | fixed64 _ => inferInstanceAs (Decidable (_ = _))
  | lengthDelimited _ => inferInstanceAs (Decidable (_ < _))
  | fixed32 _ => inferInstanceAs (Decidable (_ = _))

theorem wireType_ne (payload : Payload) : payload.wireType ≠ .endGroup := by
  cases payload with
  | _ => exact WireType.noConfusion

end Payload

/-- Fields one after another, with groups of fields among them. -/
inductive UnknownFields where
  | nil
  | scalar (number : Nat) (payload : Payload) (rest : UnknownFields)
  | group (number : Nat) (inner rest : UnknownFields)
deriving DecidableEq, Repr

namespace UnknownFields

/-- Their bytes. -/
def encode : UnknownFields → List UInt8
  | nil => []
  | scalar number payload rest =>
    Varint.encode (makeTag number payload.wireType) ++ (payload.encode ++ rest.encode)
  | group number inner rest =>
    Varint.encode (makeTag number .startGroup) ++
      (inner.encode ++ (Varint.encode (makeTag number .endGroup) ++ rest.encode))

/-- How deep the groups go. -/
def depth : UnknownFields → Nat
  | nil => 0
  | scalar _ _ rest => rest.depth
  | group _ inner rest => max (inner.depth + 1) rest.depth

/-- Numbers and payloads are what they have to be. -/
def Fits : UnknownFields → Prop
  | nil => True
  | scalar number payload rest => IsFieldNumber number ∧ payload.Fits ∧ rest.Fits
  | group number inner rest => IsFieldNumber number ∧ inner.Fits ∧ rest.Fits

/-- None is a field of the class. What is inside a group may be. -/
def NotIn {M : Type} (c : ProtoClass M) : UnknownFields → Prop
  | nil => True
  | scalar number payload rest => c.fieldOf (makeTag number payload.wireType) = none ∧ rest.NotIn c
  | group number _ rest => c.fieldOf (makeTag number .startGroup) = none ∧ rest.NotIn c

end UnknownFields

section Skipping

variable {s : CodedInputStream} {rest : List UInt8} {number : Nat}

theorem skipFieldWith_payload (skipMessage : CodedInputStream → Option CodedInputStream)
    (hnumber : IsFieldNumber number) {payload : Payload} (h : payload.Fits) :
    skipFieldWith skipMessage (makeTag number payload.wireType)
      (s.withBuffer (payload.encode ++ rest)) = some (s.withBuffer rest) := by
  rw [skipFieldWith, getTagFieldNumber_makeTag, getTagWireType_makeTag,
    if_neg (Nat.ne_of_gt hnumber.1)]
  cases payload with
  | varint value =>
    have hread := readVarint_encode s rest 64 (h : value < 2 ^ 64)
    exact congrArg (Option.map Prod.snd) hread
  | fixed64 bytes =>
    have hlen : bytes.length = 8 := h
    have hskip : (s.withBuffer (bytes ++ rest)).skip bytes.length = some (s.withBuffer rest) :=
      skip_append s rest (by omega)
    rwa [hlen] at hskip
  | lengthDelimited bytes =>
    have hlen : bytes.length < 2 ^ 31 := h
    have hsize : bytes.length < 2 ^ 32 := Nat.lt_trans hlen (by decide)
    have hread := readVarint32_encode s (bytes ++ rest) hsize
    rw [Payload.encode, List.append_assoc, Payload.wireType]
    dsimp only
    rw [hread, Option.bind_some]
    exact skip_append s rest hlen
  | fixed32 bytes =>
    have hlen : bytes.length = 4 := h
    have hskip : (s.withBuffer (bytes ++ rest)).skip bytes.length = some (s.withBuffer rest) :=
      skip_append s rest (by omega)
    rwa [hlen] at hskip

theorem skipGroup_withLastTag (tag : Nat) : skipGroup (s.withLastTag tag) = skipGroup s := by
  rw [skipGroup_eq, skipGroup_eq, readTag_withLastTag]

/-- A group's field goes up to the tag that ends it, one level deeper than what is around it. -/
theorem skipField_group (hnumber : IsFieldNumber number) {inner : List UInt8}
    (hpos : 1 ≤ s.recursionBudget) (hbudget : s.recursionBudget ≤ defaultRecursionLimit)
    (hinner : ∀ after, skipGroup (s.deeper.withBuffer (inner ++ after)) =
      skipGroup (s.deeper.withBuffer after)) :
    skipField (makeTag number .startGroup)
        (s.withBuffer (inner ++ (Varint.encode (makeTag number .endGroup) ++ rest))) =
      some ((s.withBuffer rest).withLastTag (makeTag number .endGroup)) := by
  have hend : skipGroup (s.deeper.withBuffer (Varint.encode (makeTag number .endGroup) ++ rest)) =
      some ((s.deeper.withBuffer rest).withLastTag (makeTag number .endGroup)) := by
    rw [skipGroup_eq, readTag_encode _ _ (hnumber.tag_lt .endGroup),
      if_neg (Nat.ne_of_gt (hnumber.tag_pos .endGroup)), if_pos (getTagWireType_makeTag _ _)]
  rw [skipField_eq, skipFieldWith, getTagFieldNumber_makeTag, getTagWireType_makeTag,
    if_neg (Nat.ne_of_gt hnumber.1)]
  simp only [Option.bind_eq_bind, increment_withBuffer s hpos, Option.bind_some, hinner, hend,
    decrement_deeper s hbudget]
  exact if_pos rfl

theorem skipField_payload (hnumber : IsFieldNumber number) {payload : Payload} (h : payload.Fits) :
    skipField (makeTag number payload.wireType) (s.withBuffer (payload.encode ++ rest)) =
      some (s.withBuffer rest) := by
  rw [skipField_eq]
  exact skipFieldWith_payload skipGroup hnumber h

/-- Fields inside a group are passed over. -/
theorem skipGroup_fields (fields : UnknownFields) (hfits : fields.Fits)
    (hdepth : (fields.depth : Int) ≤ s.recursionBudget)
    (hbudget : s.recursionBudget ≤ defaultRecursionLimit) (rest : List UInt8) :
    skipGroup (s.withBuffer (fields.encode ++ rest)) = skipGroup (s.withBuffer rest) := by
  induction fields generalizing s rest with
  | nil => rfl
  | scalar number payload others ih =>
    obtain ⟨hnumber, hpayload, hothers⟩ := hfits
    have hnotEnd : ¬some payload.wireType = some WireType.endGroup :=
      fun h => payload.wireType_ne (Option.some.inj h)
    have hskip : skipField (makeTag number payload.wireType)
        ((s.withBuffer (payload.encode ++ (others.encode ++ rest))).withLastTag
          (makeTag number payload.wireType)) =
        some ((s.withBuffer (others.encode ++ rest)).withLastTag (makeTag number payload.wireType)) :=
      skipField_payload (s := s.withLastTag _) hnumber hpayload
    rw [UnknownFields.encode, List.append_assoc, List.append_assoc, skipGroup_eq,
      readTag_encode _ _ (hnumber.tag_lt _), if_neg (Nat.ne_of_gt (hnumber.tag_pos _)),
      getTagWireType_makeTag, if_neg hnotEnd, hskip, Option.bind_some, skipGroup_withLastTag]
    exact ih hothers hdepth hbudget rest
  | group number inner others ihinner ihothers =>
    obtain ⟨hnumber, hinner, hothers⟩ := hfits
    rw [UnknownFields.depth] at hdepth
    have hpos : 1 ≤ s.recursionBudget := by omega
    have hdeep : (inner.depth : Int) ≤ s.recursionBudget - 1 := by omega
    have hless : s.recursionBudget - 1 ≤ defaultRecursionLimit := by omega
    have hnotEnd : ¬some WireType.startGroup = some WireType.endGroup := by decide
    have hskip : skipField (makeTag number .startGroup)
        ((s.withBuffer (inner.encode ++ (Varint.encode (makeTag number .endGroup) ++
          (others.encode ++ rest)))).withLastTag (makeTag number .startGroup)) =
        some ((s.withBuffer (others.encode ++ rest)).withLastTag (makeTag number .endGroup)) :=
      skipField_group (s := s.withLastTag _) hnumber hpos hbudget fun after =>
        ihinner (s := (s.withLastTag (makeTag number .startGroup)).deeper) hinner hdeep hless after
    rw [UnknownFields.encode, List.append_assoc, List.append_assoc, List.append_assoc, skipGroup_eq,
      readTag_encode _ _ (hnumber.tag_lt _), if_neg (Nat.ne_of_gt (hnumber.tag_pos _)),
      getTagWireType_makeTag, if_neg hnotEnd, hskip, Option.bind_some, skipGroup_withLastTag]
    exact ihothers hothers (by omega) hbudget rest

end Skipping

/-! ## The items of a message -/

/-- The texts of a message are UTF-8. -/
def ProtoKind.IsText : (k : ProtoKind) → k.Value → Prop
  | uint32, _ => True
  | int32, _ => True
  | string, v => isStructurallyValidUTF8 v = true

instance (k : ProtoKind) : DecidablePred k.IsText :=
  match k with
  | .uint32 => fun _ => inferInstanceAs (Decidable True)
  | .int32 => fun _ => inferInstanceAs (Decidable True)
  | .string => fun _ => inferInstanceAs (Decidable (_ = true))

/-- The texts are no longer than an `int` can say. -/
def ProtoKind.Fits : (k : ProtoKind) → k.Value → Prop
  | uint32, _ => True
  | int32, _ => True
  | string, v => v.length < 2 ^ 31

/-- A number that is extended to 64 bits has its own 32 lowest. -/
theorem int32_extended (v : Int32) :
    (UInt32.ofNat (v.toInt64.toUInt64.toNat % 2 ^ 32)).toInt32 = v := by
  have hword : UInt32.ofNat (v.toInt64.toUInt64.toNat % 2 ^ 32) = v.toInt64.toUInt64.toUInt32 := by
    apply UInt32.toNat_inj.mp
    simp
  have hbits : v.toInt64.toUInt64.toUInt32.toInt32.toBitVec =
      (v.toBitVec.signExtend 64).setWidth 32 := rfl
  rw [hword, ← Int32.toBitVec_inj, hbits]
  ext i hi
  have hlt : i < 64 := Nat.lt_trans hi (by decide)
  rw [BitVec.getElem_setWidth, BitVec.getLsbD_signExtend, decide_eq_true hlt, if_pos hi,
    Bool.true_and, BitVec.getLsbD_eq_getElem hi]

/-- What was written is read, if it is a text. -/
theorem ProtoKind.read_write {k : ProtoKind} {v : k.Value} (h : k.Fits v) (s : CodedInputStream)
    (rest : List UInt8) : k.read (s.withBuffer (k.write v ++ rest)) =
      if k.IsText v then some (v, s.withBuffer rest) else none := by
  cases k with
  | uint32 =>
    have hread : (s.withBuffer (Varint.encode v.toNat ++ rest)).readVarint32 =
        some (v.toNat, s.withBuffer rest) := readVarint32_encode s rest v.toNat_lt
    rw [read, write, hread, if_pos (by trivial), Option.map_some, UInt32.ofNat_toNat]
  | int32 =>
    have hread := readVarint_encode s rest 32 v.toInt64.toUInt64.toNat_lt
    rw [read, write, readVarint32, hread, if_pos (by trivial), Option.map_some, int32_extended]
  | string =>
    have hlen : v.length < 2 ^ 31 := h
    have hread := readVarint32_encode s (v ++ rest) (Nat.lt_trans hlen (by decide))
    rw [read, write, List.append_assoc, hread, Option.bind_some, readRaw_append s rest hlen,
      Option.bind_some]
    rfl

/-- A field of the class with a value, or fields that it does not have. -/
inductive WireItem (M : Type) where
  | known (f : ProtoField M) (v : f.kind.Value)
  | unknown (fields : UnknownFields)

namespace WireItem

variable {M : Type} (c : ProtoClass M)

/-- Its bytes. -/
def encode : WireItem M → List UInt8
  | known f v => Varint.encode f.tag ++ f.kind.write v
  | unknown fields => fields.encode

/-- What it is in a message of the class. -/
def Fits : WireItem M → Prop
  | known f v => f ∈ c.fields ∧ f.kind.Fits v
  | unknown fields => fields.Fits ∧ fields.NotIn c ∧ (fields.depth : Int) ≤ defaultRecursionLimit

/-- What it does to a message. -/
def apply (m : M) : WireItem M → M
  | known f v => f.set v m
  | unknown _ => m

/-- It sets the field. -/
def IsOf (g : ProtoField M) : WireItem M → Prop
  | known f _ => f.number = g.number
  | unknown _ => False

/-- Its text is one. -/
def IsText : WireItem M → Prop
  | known f v => f.kind.IsText v
  | unknown _ => True

instance : DecidablePred (IsText (M := M))
  | known f v => inferInstanceAs (Decidable (f.kind.IsText v))
  | unknown _ => inferInstanceAs (Decidable True)

end WireItem

/-- Numbers as they have to be, each for one field, and no tag that the parser does not look at. -/
structure ProtoClass.WellFormed {M : Type} (c : ProtoClass M) : Prop where
  number : ∀ f ∈ c.fields, IsFieldNumber f.number
  cutoff : ∀ f ∈ c.fields, f.tag ≤ c.cutoff
  apart : c.fields.Pairwise fun f g => f.number ≠ g.number

section Parsing

variable {M : Type} {c : ProtoClass M} {m : M} {s : CodedInputStream} {rest : List UInt8}

theorem find?_number {fields : List (ProtoField M)}
    (h : fields.Pairwise fun f g => f.number ≠ g.number) {f : ProtoField M} (hf : f ∈ fields) :
    (fields.find? fun g => g.number = f.number) = some f := by
  induction fields with
  | nil => cases hf
  | cons g rest ih =>
    obtain ⟨hfirst, hrest⟩ := List.pairwise_cons.mp h
    rcases List.mem_cons.mp hf with rfl | hmem
    · exact List.find?_cons_of_pos (decide_eq_true rfl)
    · rw [List.find?_cons_of_neg (by simpa using hfirst f hmem)]
      exact ih hrest hmem

theorem ProtoClass.WellFormed.fieldOf_tag (hc : c.WellFormed) {f : ProtoField M}
    (hf : f ∈ c.fields) : c.fieldOf f.tag = some f := by
  have hrange : 0 < f.tag ∧ f.tag ≤ c.cutoff := ⟨(hc.number f hf).tag_pos _, hc.cutoff f hf⟩
  rw [fieldOf, if_pos hrange, ProtoField.tag, getTagFieldNumber_makeTag, find?_number hc.apart hf]
  exact if_pos (decide_eq_true rfl)

/-- One field that is skipped. -/
theorem mergeAll_skip {number : Nat} {type : WireType} {bytes : List UInt8} {t : CodedInputStream}
    (hnumber : IsFieldNumber number) (htype : type ≠ .endGroup)
    (hunknown : c.fieldOf (makeTag number type) = none)
    (hskip : skipField (makeTag number type) (s.withBuffer bytes) = some t) (m : M) :
    mergeAll c m (s.withBuffer (Varint.encode (makeTag number type) ++ bytes)) = mergeAll c m t := by
  have htag := readTagNoLastTag_encode s bytes (hnumber.tag_lt type)
  have hgoes : ¬(makeTag number type = 0 ∨ getTagWireType (makeTag number type) = some .endGroup) := by
    rw [getTagWireType_makeTag]
    rintro (hzero | hend)
    · exact Nat.ne_of_gt (hnumber.tag_pos _) hzero
    · exact htype (Option.some.inj hend)
  rw [mergeAll_unknown (htag ▸ hunknown), htag, if_neg hgoes, hskip, Option.bind_some]

/-- Fields that the class does not have leave nothing but a last tag. -/
theorem mergeAll_skips (fields : UnknownFields) (hfits : fields.Fits) (hnot : fields.NotIn c)
    (hdepth : (fields.depth : Int) ≤ s.recursionBudget)
    (hbudget : s.recursionBudget ≤ defaultRecursionLimit) (m : M) (rest : List UInt8) :
    ∃ tag, mergeAll c m (s.withBuffer (fields.encode ++ rest)) =
      mergeAll c m ((s.withLastTag tag).withBuffer rest) := by
  induction fields generalizing s with
  | nil => exact ⟨s.lastTag, rfl⟩
  | scalar number payload others ih =>
    obtain ⟨hnumber, hpayload, hothers⟩ := hfits
    obtain ⟨hunknown, hnotRest⟩ := hnot
    obtain ⟨tag, hrest⟩ := ih hothers hnotRest hdepth hbudget
    refine ⟨tag, ?_⟩
    rw [UnknownFields.encode, List.append_assoc, List.append_assoc,
      mergeAll_skip hnumber payload.wireType_ne hunknown (skipField_payload hnumber hpayload)]
    exact hrest
  | group number inner others _ ih =>
    obtain ⟨hnumber, hinner, hothers⟩ := hfits
    obtain ⟨hunknown, hnotRest⟩ := hnot
    rw [UnknownFields.depth] at hdepth
    have hpos : 1 ≤ s.recursionBudget := by omega
    have hdeep : (inner.depth : Int) ≤ s.recursionBudget - 1 := by omega
    have hless : s.recursionBudget - 1 ≤ defaultRecursionLimit := by omega
    have hrest : (others.depth : Int) ≤ s.recursionBudget := by omega
    have hinside : ∀ after, skipGroup (s.deeper.withBuffer (inner.encode ++ after)) =
        skipGroup (s.deeper.withBuffer after) := skipGroup_fields inner hinner hdeep hless
    obtain ⟨tag, hothers'⟩ := ih (s := s.withLastTag (makeTag number .endGroup)) hothers hnotRest
      hrest hbudget
    refine ⟨tag, ?_⟩
    rw [UnknownFields.encode, List.append_assoc, List.append_assoc, List.append_assoc,
      mergeAll_skip hnumber WireType.noConfusion hunknown
        (skipField_group hnumber hpos hbudget hinside)]
    exact hothers'

/-- A field of the class is set, if its text is one. -/
theorem mergeAll_field (hc : c.WellFormed) {f : ProtoField M} (hf : f ∈ c.fields) {v : f.kind.Value}
    (hfits : f.kind.Fits v) (m : M) (s : CodedInputStream) (rest : List UInt8) :
    mergeAll c m (s.withBuffer (Varint.encode f.tag ++ (f.kind.write v ++ rest))) =
      if f.kind.IsText v then mergeAll c (f.set v m) (s.withBuffer rest) else none := by
  have htag : (s.withBuffer (Varint.encode f.tag ++ (f.kind.write v ++ rest))).readTagNoLastTag =
      (f.tag, s.withBuffer (f.kind.write v ++ rest)) :=
    readTagNoLastTag_encode s _ ((hc.number f hf).tag_lt f.kind.wireType)
  have hfield : c.fieldOf
      (s.withBuffer (Varint.encode f.tag ++ (f.kind.write v ++ rest))).readTagNoLastTag.1 = some f := by
    rw [htag]
    exact hc.fieldOf_tag hf
  rw [mergeAll_known hfield, htag, ProtoKind.read_write hfits]
  split
  · rfl
  · rfl

/-- The items before the rest of a message: it is parsed from there with them in it, if all their
texts are texts. -/
theorem mergeAll_items (hc : c.WellFormed) (items : List (WireItem M))
    (hfits : ∀ i ∈ items, i.Fits c) (hbudget : s.recursionBudget = defaultRecursionLimit) (m : M)
    (rest : List UInt8) : ∃ tag, mergeAll c m (s.withBuffer (items.flatMap WireItem.encode ++ rest)) =
      if ∀ i ∈ items, i.IsText then
        mergeAll c (items.foldl WireItem.apply m) ((s.withLastTag tag).withBuffer rest)
      else none := by
  induction items generalizing s m with
  | nil => exact ⟨s.lastTag, (if_pos (List.forall_mem_nil _)).symm⟩
  | cons i items ih =>
    obtain ⟨hi, hitems⟩ := List.forall_mem_cons.mp hfits
    rw [List.flatMap_cons, List.append_assoc]
    cases i with
    | known f v =>
      obtain ⟨tag, hrest⟩ := ih hitems hbudget (f.set v m)
      refine ⟨tag, ?_⟩
      rw [WireItem.encode, List.append_assoc, mergeAll_field hc hi.1 hi.2, hrest]
      by_cases htext : f.kind.IsText v
      · have hiff : (∀ i ∈ WireItem.known f v :: items, i.IsText) ↔ ∀ i ∈ items, i.IsText :=
          List.forall_mem_cons.trans (and_iff_right htext)
        simp only [if_pos htext, hiff]
        rfl
      · rw [if_neg htext, if_neg fun hall => htext (hall _ (.head _))]
    | unknown fields =>
      obtain ⟨hfields, hnot, hdepth⟩ := hi
      obtain ⟨tag, hskip⟩ := mergeAll_skips fields hfields hnot (hbudget ▸ hdepth) hbudget.le m
        (items.flatMap WireItem.encode ++ rest)
      obtain ⟨tag', hrest⟩ := ih (s := s.withLastTag tag) hitems hbudget m
      refine ⟨tag', hskip.trans (hrest.trans ?_)⟩
      have hiff : (∀ i ∈ WireItem.unknown fields :: items, i.IsText) ↔ ∀ i ∈ items, i.IsText :=
        List.forall_mem_cons.trans (and_iff_right trivial)
      simp only [hiff]
      rfl

/-- A message that is put together of items is parsed to what they set, one after the other, if all
their texts are texts, and to nothing else. -/
theorem parse_items (hc : c.WellFormed) (items : List (WireItem M)) (hfits : ∀ i ∈ items, i.Fits c) :
    c.parseFromArray (items.flatMap WireItem.encode) =
      if ∀ i ∈ items, i.IsText then some (items.foldl WireItem.apply c.cleared) else none := by
  obtain ⟨tag, hitems⟩ := mergeAll_items (s := .ofArray []) hc items hfits rfl c.cleared []
  have hend : ∀ m : M, mergeAll c m (((ofArray []).withLastTag tag).withBuffer []) =
      some (m, { ((ofArray []).withLastTag tag).withBuffer [] with legitimateMessageEnd := true }) := by
    intro m
    rw [mergeAll_unknown (by rw [readTagNoLastTag_nil]; exact fieldOf_zero c)]
    rfl
  rw [List.append_nil] at hitems
  have hrun : c.mergePartialFromCodedStream ((items.flatMap WireItem.encode).length + 1) c.cleared
      (.ofArray (items.flatMap WireItem.encode)) = _ := hitems
  rw [ProtoClass.parseFromArray, hrun, hend]
  by_cases htexts : ∀ i ∈ items, i.IsText
  · rw [if_pos htexts, if_pos htexts]
    rfl
  · rw [if_neg htexts, if_neg htexts]

end Parsing

end MmDriver

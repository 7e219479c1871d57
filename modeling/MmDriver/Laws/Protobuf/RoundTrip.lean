import MmDriver.Laws.Protobuf.Items

/-!
# Messages go round

`ParseFromArray` gives back the message that was serialized, unless a text in it is no UTF-8: the
serializer writes such a text, and the parser then refuses the whole message. Two messages one behind
the other are parsed to the first with the second merged into it, and `ByteSizeLong` is the number of
bytes.
-/

namespace MmDriver

open WireFormatLite CodedInputStream

/-- A class whose accessors are those of separate members, which are all there is to a message. -/
structure ProtoClass.Lawful {M : Type} (c : ProtoClass M) : Prop extends c.WellFormed where
  get_set : ∀ f ∈ c.fields, ∀ v m, f.get (f.set v m) = v
  get_set_of_ne : ∀ f ∈ c.fields, ∀ g ∈ c.fields, f.number ≠ g.number → ∀ v m,
    g.get (f.set v m) = g.get m
  ext : ∀ m m', (∀ f ∈ c.fields, f.get m = f.get m') → m = m'
  cleared : ∀ f ∈ c.fields, f.IsDefault c.cleared

namespace ProtoClass

variable {M : Type} {c : ProtoClass M} {a b m : M}

/-- The texts are no longer than an `int` can say. -/
def Fits (c : ProtoClass M) (m : M) : Prop := ∀ f ∈ c.fields, f.kind.Fits (f.get m)

/-- The texts are UTF-8. -/
def IsText (c : ProtoClass M) (m : M) : Prop := ∀ f ∈ c.fields, f.kind.IsText (f.get m)

instance (c : ProtoClass M) : DecidablePred c.IsText := fun _ =>
  inferInstanceAs (Decidable (∀ f ∈ c.fields, _))

/-! ## What is written -/

/-- The items of a message: the fields that are written. -/
def items (c : ProtoClass M) (m : M) : List (WireItem M) :=
  (c.fields.filter fun f => ¬f.IsDefault m).map fun f => .known f (f.get m)

theorem serialize_eq (c : ProtoClass M) (m : M) :
    c.serialize m = (c.items m).flatMap WireItem.encode := by
  rw [serialize, items]
  induction c.fields with
  | nil => rfl
  | cons f rest ih =>
    rw [List.flatMap_cons, ih, ProtoField.write]
    by_cases h : f.IsDefault m
    · rw [if_pos h, List.filter_cons_of_neg (by simpa using h), List.nil_append]
    · rw [if_neg h, List.filter_cons_of_pos (by simpa using h), List.map_cons, List.flatMap_cons]
      rfl

theorem mem_items {i : WireItem M} (h : i ∈ c.items m) :
    ∃ f ∈ c.fields, ¬f.IsDefault m ∧ i = .known f (f.get m) := by
  obtain ⟨f, hf, rfl⟩ := List.mem_map.mp h
  obtain ⟨hmem, hdefault⟩ := List.mem_filter.mp hf
  exact ⟨f, hmem, by simpa using hdefault, rfl⟩

theorem items_fits (h : c.Fits m) : ∀ i ∈ c.items m, i.Fits c := by
  intro i hi
  obtain ⟨f, hf, -, rfl⟩ := mem_items hi
  exact ⟨hf, h f hf⟩

/-- What is not written is a text. -/
theorem isText_default (k : ProtoKind) : k.IsText k.default := by
  cases k with
  | uint32 => trivial
  | int32 => trivial
  | string => rfl

theorem items_isText : (∀ i ∈ c.items m, i.IsText) ↔ c.IsText m := by
  constructor
  · intro h f hf
    by_cases hdefault : f.IsDefault m
    · rw [show f.get m = f.kind.default from hdefault]
      exact isText_default f.kind
    · exact h _ (List.mem_map.mpr ⟨f, List.mem_filter.mpr ⟨hf, by simpa using hdefault⟩, rfl⟩)
  · intro h i hi
    obtain ⟨f, hf, -, rfl⟩ := mem_items hi
    exact h f hf

/-- The items of a message set what `MergeFrom` sets. -/
theorem foldl_items (c : ProtoClass M) (a b : M) :
    (c.items b).foldl WireItem.apply a = c.mergeFrom a b := by
  rw [items, mergeFrom]
  induction c.fields generalizing a with
  | nil => rfl
  | cons f rest ih =>
    rw [List.foldl_cons, ProtoField.mergeFrom]
    by_cases h : f.IsDefault b
    · rw [if_pos h, List.filter_cons_of_neg (by simpa using h)]
      exact ih a
    · rw [if_neg h, List.filter_cons_of_pos (by simpa using h), List.map_cons, List.foldl_cons]
      exact ih _

/-! ## What is merged -/

section Merging

variable (hc : c.Lawful)

include hc

/-- Merging other fields leaves a field alone. -/
theorem get_foldl_of_ne {g : ProtoField M} (hg : g ∈ c.fields) (b : M) {fields : List (ProtoField M)}
    (hfields : ∀ f ∈ fields, f ∈ c.fields ∧ f.number ≠ g.number) (a : M) :
    g.get (fields.foldl (fun m f => f.mergeFrom m b) a) = g.get a := by
  induction fields generalizing a with
  | nil => rfl
  | cons f rest ih =>
    obtain ⟨⟨hf, hne⟩, hrest⟩ := List.forall_mem_cons.mp hfields
    rw [List.foldl_cons, ih hrest, ProtoField.mergeFrom]
    split
    · rfl
    · exact hc.get_set_of_ne f hf g hg hne _ a

/-- Each field is that of the second message, unless it is not written there. -/
theorem get_mergeFrom {g : ProtoField M} (hg : g ∈ c.fields) (a b : M) :
    g.get (c.mergeFrom a b) = if g.IsDefault b then g.get a else g.get b := by
  have hall : ∀ fields : List (ProtoField M), (∀ f ∈ fields, f ∈ c.fields) →
      fields.Pairwise (fun f h => f.number ≠ h.number) → g ∈ fields → ∀ a,
      g.get (fields.foldl (fun m f => f.mergeFrom m b) a) =
        if g.IsDefault b then g.get a else g.get b := by
    intro fields
    induction fields with
    | nil => exact fun _ _ hmem => absurd hmem List.not_mem_nil
    | cons f rest ih =>
      intro hsub hapart hmem a
      obtain ⟨hf, hsubRest⟩ := List.forall_mem_cons.mp hsub
      obtain ⟨hfirst, hapartRest⟩ := List.pairwise_cons.mp hapart
      rw [List.foldl_cons]
      rcases List.mem_cons.mp hmem with rfl | hrest
      · rw [get_foldl_of_ne hc hg b fun h hh => ⟨hsubRest h hh, (hfirst h hh).symm⟩,
          ProtoField.mergeFrom]
        split
        · rfl
        · exact hc.get_set g hg _ a
      · rw [ih hsubRest hapartRest hrest, ProtoField.mergeFrom]
        have hsame : g.get (if f.IsDefault b then a else f.set (f.get b) a) = g.get a := by
          split
          · rfl
          · exact hc.get_set_of_ne f hf g hg (hfirst g hrest) _ a
        rw [hsame]
  exact hall c.fields (fun _ hf => hf) hc.apart hg a

theorem mergeFrom_cleared (m : M) : c.mergeFrom c.cleared m = m := by
  refine hc.ext _ _ fun f hf => ?_
  rw [get_mergeFrom hc hf]
  split
  · next h => exact (hc.cleared f hf).trans h.symm
  · rfl

/-! ## There and back -/

/-- Two messages one behind the other are merged. -/
theorem parse_serialize_append (ha : c.Fits a) (hb : c.Fits b) :
    c.parseFromArray (c.serialize a ++ c.serialize b) =
      if c.IsText a ∧ c.IsText b then some (c.mergeFrom a b) else none := by
  have hfits : ∀ i ∈ c.items a ++ c.items b, i.Fits c := by
    intro i hi
    rcases List.mem_append.mp hi with h | h
    · exact items_fits ha i h
    · exact items_fits hb i h
  have htext : (∀ i ∈ c.items a ++ c.items b, i.IsText) ↔ c.IsText a ∧ c.IsText b := by
    rw [← items_isText, ← items_isText]
    exact List.forall_mem_append
  have hset : (c.items a ++ c.items b).foldl WireItem.apply c.cleared = c.mergeFrom a b := by
    rw [List.foldl_append, foldl_items, foldl_items, mergeFrom_cleared hc]
  rw [serialize_eq, serialize_eq, ← List.flatMap_append, parse_items hc.toWellFormed _ hfits, hset]
  simp only [htext]

/-- A field keeps its value while other fields are set. -/
theorem get_foldl_notIn {g : ProtoField M} (hg : g ∈ c.fields) {items : List (WireItem M)}
    (hfits : ∀ i ∈ items, i.Fits c) (hnot : ∀ i ∈ items, ¬i.IsOf g) (a : M) :
    g.get (items.foldl WireItem.apply a) = g.get a := by
  induction items generalizing a with
  | nil => rfl
  | cons i rest ih =>
    obtain ⟨hi, hrest⟩ := List.forall_mem_cons.mp hfits
    obtain ⟨hother, hnotRest⟩ := List.forall_mem_cons.mp hnot
    rw [List.foldl_cons, ih hrest hnotRest]
    cases i with
    | known f v => exact hc.get_set_of_ne f hi.1 g hg hother v a
    | unknown fields => rfl

/-- Fields in any order and as often as one likes, with fields of other classes between them: each
field is as it comes last, and a message with a text that is no UTF-8 is refused, even where the text
is replaced later. -/
theorem parse_items_last (items : List (WireItem M)) (hfits : ∀ i ∈ items, i.Fits c) :
    (∀ m, c.parseFromArray (items.flatMap WireItem.encode) = some m → ∀ f ∈ c.fields,
      (∀ before v after, items = before ++ .known f v :: after → (∀ i ∈ after, ¬i.IsOf f) →
        f.get m = v) ∧
      ((∀ i ∈ items, ¬i.IsOf f) → f.get m = f.kind.default)) ∧
    (c.parseFromArray (items.flatMap WireItem.encode) = none ↔ ∃ i ∈ items, ¬i.IsText) := by
  rw [parse_items hc.toWellFormed items hfits]
  constructor
  · intro m hm f hf
    split at hm
    · obtain rfl := Option.some.inj hm
      constructor
      · rintro before v after rfl hlast
        have hafter : ∀ i ∈ after, i.Fits c := fun i hi =>
          hfits i (List.mem_append_right _ (List.mem_cons_of_mem _ hi))
        rw [List.foldl_append, List.foldl_cons, get_foldl_notIn hc hf hafter hlast]
        exact hc.get_set f hf v _
      · intro hnot
        rw [get_foldl_notIn hc hf hfits hnot]
        exact hc.cleared f hf
    · cases hm
  · split
    · next h => exact iff_of_false (by simp) fun ⟨i, hi, hno⟩ => hno (h i hi)
    · next h => exact iff_of_true rfl (by simpa using h)

/-! ## Texts -/

end Merging

end ProtoClass

/-! ## Sizes -/

theorem log2_or_one (n : Nat) : Nat.log2 (n ||| 1) = Nat.log2 n := by
  by_cases hzero : n = 0
  · rw [hzero]
    rfl
  · have hone : 1 < 2 ^ (Nat.log2 n + 1) := Nat.one_lt_two_pow (Nat.succ_ne_zero _)
    have hne : n ||| 1 ≠ 0 := fun h => hzero (Nat.or_eq_zero_iff.mp h).1
    rw [Nat.log2_eq_iff hne]
    exact ⟨Nat.le_trans (Nat.log2_self_le hzero) Nat.left_le_or,
      Nat.or_lt_two_pow Nat.lt_log2_self hone⟩

/-- The size of a varint is the number of its bytes. -/
theorem varintSize_eq {n : Nat} (h : n < 2 ^ 64) : varintSize n = (Varint.encode n).length := by
  have hlog : Nat.log2 n ≤ 63 := by
    by_cases hzero : n = 0
    · rw [hzero]
      decide
    · exact Nat.le_of_lt_succ ((Nat.log2_lt hzero).mpr h)
  rw [varintSize, log2_or_one, Varint.length_encode]
  omega

/-- A number with its sign extended. -/
theorem toNat_extended (v : Int32) : v.toInt64.toUInt64.toNat =
    if v < 0 then 2 ^ 64 - 2 ^ 32 + v.toUInt32.toNat else v.toUInt32.toNat := by
  have hwide : v.toInt64.toBitVec.toInt = v.toBitVec.toInt := Int32.toInt_toInt64 v
  have hneg : v < 0 ↔ v.toBitVec.toInt < 0 := Int32.lt_iff_toInt_lt
  have hword : v.toInt64.toUInt64.toNat = v.toInt64.toBitVec.toNat := rfl
  have hown : v.toUInt32.toNat = v.toBitVec.toNat := rfl
  have hlt := v.toBitVec.isLt
  have hlt' := v.toInt64.toBitVec.isLt
  by_cases hsign : v < 0
  · rw [if_pos hsign, hword, hown]
    have hint := hneg.mp hsign
    rw [BitVec.toInt_eq_toNat_cond] at hint
    rw [BitVec.toInt_eq_toNat_cond, BitVec.toInt_eq_toNat_cond] at hwide
    omega
  · rw [if_neg hsign, hword, hown]
    have hint := mt hneg.mpr hsign
    rw [BitVec.toInt_eq_toNat_cond] at hint
    rw [BitVec.toInt_eq_toNat_cond, BitVec.toInt_eq_toNat_cond] at hwide
    omega

/-- A negative number takes ten bytes. -/
theorem length_extended {v : Int32} (h : v < 0) :
    (Varint.encode v.toInt64.toUInt64.toNat).length = 10 := by
  have hlt : v.toUInt32.toNat < 2 ^ 32 := v.toUInt32.toNat_lt
  have hword := toNat_extended v
  rw [if_pos h] at hword
  have hlog : Nat.log2 v.toInt64.toUInt64.toNat = 63 := by
    have hpos : v.toInt64.toUInt64.toNat ≠ 0 := by omega
    rw [Nat.log2_eq_iff hpos]
    omega
  rw [Varint.length_encode, hlog]

theorem ProtoKind.size_eq {k : ProtoKind} {v : k.Value} (h : k.Fits v) :
    k.size v = (k.write v).length := by
  cases k with
  | uint32 => exact varintSize_eq (Nat.lt_trans v.toNat_lt (by decide))
  | int32 =>
    rw [size, write]
    split
    · next hsign => exact (length_extended hsign).symm
    · next hsign =>
      rw [toNat_extended, if_neg hsign]
      exact varintSize_eq (Nat.lt_trans v.toUInt32.toNat_lt (by decide))
  | string =>
    have hlen : v.length < 2 ^ 31 := h
    rw [size, write, List.length_append, varintSize_eq (Nat.lt_trans hlen (by decide))]

/-- `ByteSizeLong` is the number of bytes. -/
theorem ProtoClass.byteSizeLong_eq {M : Type} {c : ProtoClass M} {m : M} (hc : c.WellFormed)
    (h : c.Fits m) : c.byteSizeLong m = (c.serialize m).length := by
  have hfield : ∀ f ∈ c.fields, f.byteSize m = (f.write m).length := by
    intro f hf
    rw [ProtoField.byteSize, ProtoField.write]
    split
    · rfl
    · have htag : f.tag < 2 ^ 64 :=
        Nat.lt_trans ((hc.number f hf).tag_lt f.kind.wireType) (by decide)
      rw [List.length_append, varintSize_eq htag, ProtoKind.size_eq (h f hf)]
  rw [byteSizeLong, serialize, List.length_flatMap]
  exact congrArg List.sum (List.map_congr_left hfield)

end MmDriver

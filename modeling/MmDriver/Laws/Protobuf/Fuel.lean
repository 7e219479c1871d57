import MmDriver.Protobuf.WireFormat

/-!
# Every tag takes a byte

The loops over tags end because a tag that is not 0 takes a byte off the stream, and nothing gives one
back. So as much fuel as there are bytes, and one more, is enough, and more makes no difference.
-/

namespace MmDriver

open WireFormatLite

namespace CodedInputStream

variable {s s' : CodedInputStream} {bits n size : Nat} {bytes : List UInt8}

theorem readVarint_length (h : s.readVarint bits = some (n, s')) :
    s'.buffer.length < s.buffer.length := by
  obtain ⟨r, hr, hsome⟩ := Option.map_eq_some_iff.mp h
  cases hsome
  exact Varint.decode_length hr

theorem readRaw_length (h : s.readRaw size = some (bytes, s')) :
    s'.buffer.length ≤ s.buffer.length := by
  rw [readRaw] at h
  split at h
  · cases h
  · split at h
    · cases h
      rw [List.length_drop]
      exact Nat.sub_le _ _
    · cases h

theorem skip_length (h : s.skip size = some s') : s'.buffer.length ≤ s.buffer.length := by
  obtain ⟨r, hr, rfl⟩ := Option.map_eq_some_iff.mp h
  exact readRaw_length hr

theorem readTagNoLastTag_le (s : CodedInputStream) :
    s.readTagNoLastTag.2.buffer.length ≤ s.buffer.length := by
  rw [readTagNoLastTag]
  split
  · exact Nat.le_refl _
  · cases h : s.readVarint32 with
    | none => exact Nat.le_refl _
    | some r => exact Nat.le_of_lt (readVarint_length h)

/-- A tag that is not 0 takes a byte. -/
theorem readTagNoLastTag_lt (h : s.readTagNoLastTag.1 ≠ 0) :
    s.readTagNoLastTag.2.buffer.length < s.buffer.length := by
  rw [readTagNoLastTag] at h ⊢
  split at h
  · exact absurd rfl h
  · cases hread : s.readVarint32 with
    | none =>
      rw [hread] at h
      exact absurd rfl h
    | some r => exact readVarint_length hread

theorem incrementRecursionDepth_buffer (h : s.incrementRecursionDepth = some s') :
    s'.buffer = s.buffer := by
  rw [incrementRecursionDepth] at h
  split at h
  · cases h
    rfl
  · cases h

theorem decrementRecursionDepth_buffer (s : CodedInputStream) :
    s.decrementRecursionDepth.buffer = s.buffer := by
  rw [decrementRecursionDepth]
  split
  · rfl
  · rfl

end CodedInputStream

open CodedInputStream

variable {s s' : CodedInputStream} {tag : Nat}

/-- Skipping a field gives no bytes back if skipping the inside of a group does not. -/
theorem skipFieldWith_length {skipMessage : CodedInputStream → Option CodedInputStream}
    (hskip : ∀ t t', skipMessage t = some t' → t'.buffer.length ≤ t.buffer.length)
    (h : skipFieldWith skipMessage tag s = some s') : s'.buffer.length ≤ s.buffer.length := by
  rw [skipFieldWith] at h
  split at h
  · cases h
  · split at h
    · obtain ⟨r, hr, rfl⟩ := Option.map_eq_some_iff.mp h
      exact Nat.le_of_lt (readVarint_length hr)
    · exact skip_length h
    · obtain ⟨r, hr, hrest⟩ := Option.bind_eq_some_iff.mp h
      exact Nat.le_trans (skip_length hrest) (Nat.le_of_lt (readVarint_length hr))
    · obtain ⟨t, ht, hrest⟩ := Option.bind_eq_some_iff.mp h
      obtain ⟨t', ht', hend⟩ := Option.bind_eq_some_iff.mp hrest
      dsimp only at hend
      split at hend
      · cases hend
        rw [decrementRecursionDepth_buffer, ← incrementRecursionDepth_buffer ht]
        exact hskip t t' ht'
      · cases hend
    · cases h
    · exact skip_length h
    · cases h

theorem skipMessage_length {fuel : Nat} (h : skipMessage fuel s = some s') :
    s'.buffer.length ≤ s.buffer.length := by
  induction fuel generalizing s s' with
  | zero => cases h
  | succ fuel ih =>
    have htag := s.readTagNoLastTag_le
    rw [skipMessage] at h
    split at h
    · cases h
      exact htag
    · split at h
      · cases h
        exact htag
      · obtain ⟨t, ht, hrest⟩ := Option.bind_eq_some_iff.mp h
        exact Nat.le_trans (ih hrest) (Nat.le_trans (skipFieldWith_length (fun _ _ => ih) ht) htag)

/-- Skipping a field is the same with two ways to skip the inside of a group that agree on what is
not longer than the rest. -/
theorem skipFieldWith_congr {f g : CodedInputStream → Option CodedInputStream}
    (h : ∀ t, t.buffer.length ≤ s.buffer.length → f t = g t) :
    skipFieldWith f tag s = skipFieldWith g tag s := by
  rw [skipFieldWith, skipFieldWith]
  split
  · rfl
  · split
    · rfl
    · rfl
    · rfl
    · cases ht : s.incrementRecursionDepth with
      | none => rfl
      | some t =>
        have hbuffer : t.buffer.length ≤ s.buffer.length :=
          Nat.le_of_eq (congrArg List.length (incrementRecursionDepth_buffer ht))
        simp only [Option.bind_eq_bind, Option.bind_some, h t hbuffer]
    · rfl
    · rfl
    · rfl

/-- More fuel makes no difference. -/
theorem skipMessage_fuel {fuel fuel' : Nat} (h : s.buffer.length < fuel)
    (h' : s.buffer.length < fuel') : skipMessage fuel s = skipMessage fuel' s := by
  induction fuel generalizing s fuel' with
  | zero => exact absurd h (Nat.not_lt_zero _)
  | succ fuel ih =>
    cases fuel' with
    | zero => exact absurd h' (Nat.not_lt_zero _)
    | succ fuel' =>
      rw [skipMessage, skipMessage]
      split
      · rfl
      · next htag =>
        have hshort : s.readTag.2.buffer.length < s.buffer.length := readTagNoLastTag_lt htag
        have hsame : ∀ t : CodedInputStream, t.buffer.length ≤ s.readTag.2.buffer.length →
            skipMessage fuel t = skipMessage fuel' t :=
          fun t ht => ih (by omega) (by omega)
        split
        · rfl
        · rw [skipFieldWith_congr hsame]
          cases ht : skipFieldWith (skipMessage fuel') s.readTag.1 s.readTag.2 with
          | none => rfl
          | some t => exact hsame t (skipFieldWith_length (fun _ _ => skipMessage_length) ht)

/-- The inside of a group, with enough fuel. -/
def skipGroup (s : CodedInputStream) : Option CodedInputStream :=
  skipMessage (s.buffer.length + 1) s

theorem skipMessage_eq {fuel : Nat} (h : s.buffer.length < fuel) : skipMessage fuel s = skipGroup s :=
  skipMessage_fuel h (Nat.lt_succ_self _)

theorem skipField_eq : skipField tag s = skipFieldWith skipGroup tag s :=
  skipFieldWith_congr fun _ ht => skipMessage_eq (Nat.lt_succ_of_le ht)

theorem skipField_length (h : skipField tag s = some s') : s'.buffer.length ≤ s.buffer.length :=
  skipFieldWith_length (fun _ _ => skipMessage_length) h

/-- One tag of a group. -/
theorem skipGroup_eq : skipGroup s =
    if s.readTag.1 = 0 then some s.readTag.2
    else if getTagWireType s.readTag.1 = some .endGroup then some s.readTag.2
    else (skipField s.readTag.1 s.readTag.2).bind skipGroup := by
  rw [skipGroup, skipMessage]
  split
  · rfl
  · next htag =>
    have hshort : s.readTag.2.buffer.length < s.buffer.length := readTagNoLastTag_lt htag
    split
    · rfl
    · have hfield : skipFieldWith (skipMessage s.buffer.length) s.readTag.1 s.readTag.2 =
          skipField s.readTag.1 s.readTag.2 :=
        (skipFieldWith_congr fun _ ht => skipMessage_eq (Nat.lt_of_le_of_lt ht hshort)).trans
          skipField_eq.symm
      rw [hfield]
      cases ht : skipField s.readTag.1 s.readTag.2 with
      | none => rfl
      | some t => exact skipMessage_eq (Nat.lt_of_le_of_lt (skipField_length ht) hshort)

/-! ## Messages -/

variable {M : Type} {c : ProtoClass M} {m : M}

theorem ProtoKind.read_length {k : ProtoKind} {v : k.Value} (h : k.read s = some (v, s')) :
    s'.buffer.length ≤ s.buffer.length := by
  cases k with
  | uint32 =>
    obtain ⟨r, hr, hsome⟩ := Option.map_eq_some_iff.mp h
    cases hsome
    exact Nat.le_of_lt (readVarint_length hr)
  | int32 =>
    obtain ⟨r, hr, hsome⟩ := Option.map_eq_some_iff.mp h
    cases hsome
    exact Nat.le_of_lt (readVarint_length hr)
  | string =>
    obtain ⟨r, hr, hvalid⟩ := Option.bind_eq_some_iff.mp h
    obtain ⟨l, hl, hraw⟩ := Option.bind_eq_some_iff.mp hr
    split at hvalid
    · cases hvalid
      exact Nat.le_trans (readRaw_length hraw) (Nat.le_of_lt (readVarint_length hl))
    · cases hvalid

theorem fieldOf_zero (c : ProtoClass M) : c.fieldOf 0 = none := if_neg fun h => Nat.lt_irrefl 0 h.1

/-- More fuel makes no difference. -/
theorem mergePartial_fuel {fuel fuel' : Nat} (h : s.buffer.length < fuel)
    (h' : s.buffer.length < fuel') :
    c.mergePartialFromCodedStream fuel m s = c.mergePartialFromCodedStream fuel' m s := by
  induction fuel generalizing m s fuel' with
  | zero => exact absurd h (Nat.not_lt_zero _)
  | succ fuel ih =>
    cases fuel' with
    | zero => exact absurd h' (Nat.not_lt_zero _)
    | succ fuel' =>
      by_cases htag : s.readTagNoLastTag.1 = 0
      · simp only [ProtoClass.mergePartialFromCodedStream, htag, fieldOf_zero, true_or, if_true]
      · have hshort := readTagNoLastTag_lt htag
        rw [ProtoClass.mergePartialFromCodedStream, ProtoClass.mergePartialFromCodedStream]
        split
        · next f _ =>
          cases hv : f.kind.read s.readTagNoLastTag.2 with
          | none => rfl
          | some v =>
            have hread := ProtoKind.read_length hv
            exact ih (by omega) (by omega)
        · split
          · rfl
          · cases ht : skipField s.readTagNoLastTag.1 s.readTagNoLastTag.2 with
            | none => rfl
            | some t =>
              have hskip := skipField_length ht
              exact ih (by omega) (by omega)

/-- The parser's loop, with enough fuel. -/
def mergeAll (c : ProtoClass M) (m : M) (s : CodedInputStream) : Option (M × CodedInputStream) :=
  c.mergePartialFromCodedStream (s.buffer.length + 1) m s

/-- A field of the message. -/
theorem mergeAll_known {f : ProtoField M} (hf : c.fieldOf s.readTagNoLastTag.1 = some f) :
    mergeAll c m s =
      (f.kind.read s.readTagNoLastTag.2).bind fun v => mergeAll c (f.set v.1 m) v.2 := by
  have hshort : s.readTagNoLastTag.2.buffer.length < s.buffer.length :=
    readTagNoLastTag_lt fun hzero => by
      rw [hzero, fieldOf_zero] at hf
      cases hf
  rw [mergeAll, ProtoClass.mergePartialFromCodedStream]
  rw [hf]
  dsimp only
  cases hv : f.kind.read s.readTagNoLastTag.2 with
  | none => rfl
  | some v =>
    exact mergePartial_fuel (Nat.lt_of_le_of_lt (ProtoKind.read_length hv) hshort)
      (Nat.lt_succ_self _)

/-- The end, or something else than a field of the message. -/
theorem mergeAll_unknown (hf : c.fieldOf s.readTagNoLastTag.1 = none) :
    mergeAll c m s =
      if s.readTagNoLastTag.1 = 0 ∨ getTagWireType s.readTagNoLastTag.1 = some .endGroup then
        some (m, s.readTagNoLastTag.2)
      else (skipField s.readTagNoLastTag.1 s.readTagNoLastTag.2).bind (mergeAll c m) := by
  rw [mergeAll, ProtoClass.mergePartialFromCodedStream]
  rw [hf]
  dsimp only
  split
  · rfl
  · next htag =>
    have hshort := readTagNoLastTag_lt fun hzero => htag (.inl hzero)
    cases ht : skipField s.readTagNoLastTag.1 s.readTagNoLastTag.2 with
    | none => rfl
    | some t =>
      exact mergePartial_fuel (Nat.lt_of_le_of_lt (skipField_length ht) hshort) (Nat.lt_succ_self _)

end MmDriver

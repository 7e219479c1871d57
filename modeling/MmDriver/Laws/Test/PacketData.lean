import MmDriver.Laws.Common.Message
import MmDriver.Laws.Protobuf.RoundTrip
import MmDriver.Test.PacketData

/-!
# What a message carries arrives

The classes of the application are lawful, so a message goes round through protobuf. The encoder of
messages takes every one that fits behind a head, and whoever has the bytes of the frame decodes it.
-/

namespace MmDriver

open ByteMem

/-! ## The classes -/

theorem hnRetLogin_lawful : hnRetLogin.Lawful where
  number := by decide
  cutoff := by decide
  apart := by simp [hnRetLogin]
  get_set := by simp [hnRetLogin]
  get_set_of_ne := by simp [hnRetLogin]
  ext := by
    rintro ⟨_, _, _⟩ ⟨_, _, _⟩
    simp [hnRetLogin]
  cleared := by decide

theorem gcLogin_lawful : gcLogin.Lawful where
  number := by decide
  cutoff := by decide
  apart := by simp [gcLogin]
  get_set := by simp [gcLogin]
  get_set_of_ne := by simp [gcLogin]
  ext := by
    rintro ⟨_⟩ ⟨_⟩
    simp [gcLogin]
  cleared := by decide

/-! ## Messages of the application -/

namespace ProtoClass

theorem fits_hnRetLogin {m : HnRetLogin} (h : m.account.length < 2 ^ 31) : hnRetLogin.Fits m := by
  simpa [Fits, hnRetLogin, ProtoKind.Fits] using h

/-- The second answer has no account, so that of the first stays. -/
theorem parse_serialize_append_answers :
    hnRetLogin.parseFromArray (hnRetLogin.serialize ⟨7, [97], 0⟩ ++ hnRetLogin.serialize ⟨8, [], 1⟩) =
      some ⟨8, [97], 1⟩ := by
  rw [parse_serialize_append hnRetLogin_lawful (fits_hnRetLogin (by decide))
    (fits_hnRetLogin (by decide)), if_pos (by decide)]
  decide

/-- A number that comes twice, before and behind a group that the class does not have. -/
theorem parse_items_last_answer :
    let uid : ProtoField HnRetLogin := ⟨1, .uint32, HnRetLogin.uid, fun v m => { m with uid := v }⟩
    let items : List (WireItem HnRetLogin) :=
      [.known uid 7, .unknown (.group 9 (.scalar 1 (.varint 5) .nil) .nil), .known uid 8]
    ∃ m, hnRetLogin.parseFromArray (items.flatMap WireItem.encode) = some m ∧ m.uid = 8 := by
  intro uid items
  have hfits : ∀ i ∈ items, i.Fits hnRetLogin := by
    simp [items, WireItem.Fits, uid, hnRetLogin, ProtoKind.Fits, UnknownFields.Fits,
      UnknownFields.NotIn, UnknownFields.depth, Payload.Fits, IsFieldNumber]
    decide
  have hlast := parse_items_last hnRetLogin_lawful items hfits
  cases h : hnRetLogin.parseFromArray (items.flatMap WireItem.encode) with
  | none =>
    obtain ⟨i, hi, hno⟩ := hlast.2.mp h
    have hcases : i = items[0] ∨ i = items[1] ∨ i = items[2] := by simpa [items] using hi
    rcases hcases with rfl | rfl | rfl
    · exact absurd trivial hno
    · exact absurd trivial hno
    · exact absurd trivial hno
  | some m =>
    have hfield := (hlast.1 m h uid (.head _)).1 [items[0], items[1]] 8 [] rfl
      (List.forall_mem_nil _)
    exact ⟨m, rfl, hfield⟩

theorem byteSizeLong_answer :
    hnRetLogin.byteSizeLong ⟨300, [97], -1⟩ = (hnRetLogin.serialize ⟨300, [97], -1⟩).length :=
  byteSizeLong_eq hnRetLogin_lawful.toWellFormed (fits_hnRetLogin (by decide))

end ProtoClass

/-! ## Frames -/

section Frames

variable {id : UInt16} {d : ProtoMessage} {e sent : MessageEncoder} {rkHead head : MessageHead}

end Frames

end MmDriver

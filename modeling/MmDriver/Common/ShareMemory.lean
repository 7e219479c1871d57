import MmDriver.Common.MsgQueue

/-!
# `Share_Memory`, one process's view of a shared segment

`include/common/share_memory.h` and `src/common/share_memory.cpp`, with the four calls of
`share_memory_api.h` that the operating system answers taken as a parameter. Targets are the
Linux ones, where a handle is a `tint32` and the invalid handle is `-1`.

The first `sizeof(Share_Memory)` bytes of a mapped segment are never handed out:
`m_uiOffset` starts behind them.
-/

namespace MmDriver

/-- `INVALID_SM_HANDLE`. -/
def invalidSmHandle : Int := -1

/-- What the operating system answers to `sharememory_api`. A mapped address is a number, and
`0` is the null pointer. -/
structure SharememoryApi where
  openShareMem : Nat → Nat → Int
  createShareMem : Nat → Nat → Int
  mapShareMem : Int → Nat

/-- `Share_Memory`. -/
structure ShareMemory where
  uiKey : Nat
  uiSize : Nat
  uiOffset : Nat
  shareMemHandle : Int
  memBase : Nat
  mode : ShareMemMode
deriving DecidableEq, Repr

namespace ShareMemory

/-- `sizeof(Share_Memory)`. -/
def sizeofShareMemory : Nat := 48

/-- The constructor. -/
def new : ShareMemory :=
  { uiKey := 0, uiSize := 0, uiOffset := sizeofShareMemory, shareMemHandle := invalidSmHandle,
    memBase := 0, mode := .init }

/-- `get_free_size`. -/
def getFreeSize (s : ShareMemory) : Nat := SizeT.sub s.uiSize s.uiOffset

/-- The result of a method and the object it leaves. -/
structure AttachResult where
  ret : Bool
  shareMemory : ShareMemory

/-- `attach_share_memory`. The mode the operating system's answer gives is overridden when the
object's own key or size is another one. -/
def attachShareMemory (s : ShareMemory) (api : SharememoryApi) (uiKey uiSize : Nat) :
    AttachResult :=
  if uiSize = 0 then
    ⟨false, s⟩
  else
    let uiRealSize := SizeT.add uiSize sizeofShareMemory
    let opened := api.openShareMem uiKey uiRealSize
    let handle := if opened = invalidSmHandle then api.createShareMem uiKey uiRealSize else opened
    if handle = invalidSmHandle then
      ⟨false, s⟩
    else
      let found : ShareMemMode := if opened = invalidSmHandle then .init else .resume
      let mode := if uiKey ≠ s.uiKey ∨ uiRealSize ≠ s.uiSize then .init else found
      let base := api.mapShareMem handle
      if base = 0 then
        ⟨false, { s with memBase := base }⟩
      else
        ⟨true, { uiKey := uiKey, uiSize := uiRealSize, uiOffset := sizeofShareMemory,
                 shareMemHandle := handle, memBase := base, mode := mode }⟩

/-- What `create_segment` answers: the segment's address, null when there is none. -/
structure SegmentResult where
  mem : Nat
  shareMemory : ShareMemory

/-- `create_segment`. -/
def createSegment (s : ShareMemory) (uiSize : Nat) : SegmentResult :=
  if s.memBase = 0 then
    ⟨0, s⟩
  else if uiSize = 0 then
    ⟨0, s⟩
  else if uiSize > s.getFreeSize then
    ⟨0, s⟩
  else
    ⟨s.memBase + s.uiOffset, { s with uiOffset := SizeT.add s.uiOffset uiSize }⟩

end ShareMemory

end MmDriver

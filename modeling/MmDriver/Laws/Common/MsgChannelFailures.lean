import MmDriver.Common.TimerEx
import MmDriver.Laws.Common.MsgChannelAttach

/-!
# What `InitMessageQueue` reports

`InitMessageQueue` does not look at the result of `attach_share_memory`, and `Msg_Queue::init` not
at its address: where no segment is mapped, a queue header is written at the null pointer, and the
answer is `true`. The value that says a mapping failed is the platform's, and `attach_share_memory`
compares with the null pointer on both.
-/

namespace MmDriver

open ByteMem

/-- What a mapping that fails answers: `shmat`'s `(void*)-1`, and `MapViewOfFile`'s null. -/
def Platform.mapFailed : Platform → Nat
  | .linux => 2 ^ 64 - 1
  | .windows => 0

namespace MessageChannel

variable {n : Side → Nat} {m : Memory}

/-- The bytes that `attach_share_memory` asks for. -/
def realSize (n : Side → Nat) : Nat := SizeT.add (segmentSize n) ShareMemory.sizeofShareMemory

theorem realSize_eq (hn : ∀ s, n s < 2 ^ 31) :
    realSize n = 48 + (n .input + 48) + (n .output + 48) := by
  have hin := hn .input
  have hout := hn .output
  rw [realSize, segmentSize_eq hn, ShareMemory.sizeofShareMemory, SizeT.add_eq (by omega)]
  omega

/-- The address that the system answers for the segment's handle. -/
def baseFor (api : SharememoryApi) (key : Nat) (n : Side → Nat) : Nat :=
  api.mapShareMem (ShareMemory.handleFor api key (realSize n))

/-- The segment was opened or created, and mapped. -/
structure Mapped (platform : Platform) (api : SharememoryApi) (key : Nat) (n : Side → Nat) :
    Prop where
  handle : ShareMemory.handleFor api key (realSize n) ≠ invalidSmHandle
  mapped : baseFor api key n ≠ platform.mapFailed
  base : baseFor api key n ≠ 0

/-- The object's pointers and the header's sizes are those of a queue of `size` bytes. -/
structure Initialised (q : MsgQueue) (size : Nat) (m : Memory) : Prop where
  placed : q.msgBase = q.head + MsgQueue.sizeofHead
  memSize : q.memSize m = MsgQueue.allocSize size
  queueSize : q.queueSize m = size + MsgQueue.messageQueueReverseLength

/-- What a `true` stands for: a mapping of `mappedSize` bytes that holds both queues, side by side
behind its reserved bytes. -/
structure Established (platform : Platform) (api : SharememoryApi) (key : Nat) (n : Side → Nat)
    (mappedSize : Nat) (r : InitResult) : Prop where
  mapped : Mapped platform api key n
  initialised : ∀ s, Initialised (r.channel.queue s) (n s) r.mem
  behind : ∀ s, baseFor api key n + ShareMemory.sizeofShareMemory ≤ (r.channel.queue s).head
  inside : ∀ s, (r.channel.queue s).head + MsgQueue.allocSize (n s) ≤
    baseFor api key n + mappedSize
  disjoint : r.channel.msgInput.head + MsgQueue.allocSize (n .input) ≤ r.channel.msgOutput.head ∨
    r.channel.msgOutput.head + MsgQueue.allocSize (n .output) ≤ r.channel.msgInput.head

/-- Every failure is reported, before any queue header is touched. -/
structure Reports (platform : Platform) (api : SharememoryApi) (key : Nat) (n : Side → Nat)
    (mappedSize : Nat) (r : InitResult) : Prop where
  established : r.ret = true → Established platform api key n mappedSize r
  untouched : r.ret = false → r.headers = []

/-- The queue that a side of the sizes `n` has in a mapping at `base`. -/
def queueAt (base : Nat) (n : Side → Nat) : Side → MsgQueue
  | .input => ⟨base + 48, base + 48 + 32⟩
  | .output => ⟨base + 48 + (n .input + 48), base + 48 + (n .input + 48) + 32⟩

theorem placed_queueAt (s : ShareMemory) (n : Side → Nat) (side : Side) :
    (placed s n).queue side = queueAt s.memBase n side := by
  cases side <;> rfl

/-- The input queue's header is dereferenced in any case. -/
theorem headers_ne_nil (c : MessageChannel) (api : SharememoryApi) (m : Memory) (key : Nat)
    (nInputSize nOutputSize : Int) :
    (c.initMessageQueue api m key nInputSize nOutputSize).headers ≠ [] := by
  rw [initMessageQueue]
  dsimp only
  split <;> exact List.cons_ne_nil _ _

/-- So every failure is reported only where there is none. -/
theorem reports_iff_established {platform : Platform} {api : SharememoryApi} {key mappedSize : Nat}
    {r : InitResult} (hheaders : r.headers ≠ []) :
    Reports platform api key n mappedSize r ↔
      r.ret = true ∧ Established platform api key n mappedSize r := by
  constructor
  · intro hreports
    have hret : r.ret = true := by
      rw [← Bool.not_eq_false]
      exact fun hfalse => hheaders (hreports.untouched hfalse)
    exact ⟨hret, hreports.established hret⟩
  · rintro ⟨hret, hestablished⟩
    exact ⟨fun _ => hestablished, fun hfalse => absurd (hret.symm.trans hfalse) (by decide)⟩

/-- Where no segment is mapped, the failure is not reported. -/
theorem not_reports_of_not_mapped {platform : Platform} {api : SharememoryApi}
    {key mappedSize : Nat} (hmapped : ¬Mapped platform api key n) (c : MessageChannel) (m : Memory) :
    ¬Reports platform api key n mappedSize
      (c.initMessageQueue api m key (n .input) (n .output)) := by
  rw [reports_iff_established (headers_ne_nil c api m key (n .input) (n .output))]
  exact fun h => hmapped h.2.mapped

/-- A mapped segment is attached. -/
theorem Mapped.attach {platform : Platform} {api : SharememoryApi} {key : Nat}
    (h : Mapped platform api key n) (hn : ∀ s, n s < 2 ^ 31) (s : ShareMemory) :
    (s.attachShareMemory api key (segmentSize n)).ret = true := by
  have hpos : segmentSize n ≠ 0 := by
    rw [segmentSize_eq hn]
    omega
  have hhandle := h.handle
  have hbase := h.base
  rw [baseFor] at hbase
  rw [realSize] at hhandle hbase
  rw [ShareMemory.attachShareMemory_eq]
  dsimp only
  rw [if_neg hpos, if_neg hhandle, if_neg hbase]

/-- The queues of a segment that holds them lie in it, side by side. -/
theorem established_of_placed {platform : Platform} {api : SharememoryApi} {key mappedSize : Nat}
    (hn : ∀ s, n s < 2 ^ 31) (hmapped : Mapped platform api key n) {r : InitResult}
    (hqueue : ∀ s, r.channel.queue s = queueAt (baseFor api key n) n s)
    (hinit : ∀ s, Initialised (queueAt (baseFor api key n) n s) (n s) r.mem) :
    Established platform api key n mappedSize r ↔ realSize n ≤ mappedSize := by
  have hin := hn .input
  have hout := hn .output
  have hallocIn : MsgQueue.allocSize (n .input) = n .input + 48 := MsgQueue.allocSize_eq (by omega)
  have hallocOut : MsgQueue.allocSize (n .output) = n .output + 48 :=
    MsgQueue.allocSize_eq (by omega)
  have hinput : r.channel.msgInput = queueAt (baseFor api key n) n .input := hqueue .input
  have houtput : r.channel.msgOutput = queueAt (baseFor api key n) n .output := hqueue .output
  rw [realSize_eq hn]
  constructor
  · intro h
    have hinside := h.inside .output
    rw [hqueue, hallocOut] at hinside
    simp only [queueAt] at hinside
    omega
  · intro hfits
    refine ⟨hmapped, fun s => ?_, fun s => ?_, fun s => ?_, .inl ?_⟩
    · rw [hqueue]
      exact hinit s
    · rw [hqueue, ShareMemory.sizeofShareMemory]
      cases s with
      | input => exact Nat.le_refl _
      | output => exact Nat.le_add_right _ _
    · rw [hqueue]
      cases s with
      | input =>
        rw [hallocIn]
        simp only [queueAt]
        omega
      | output =>
        rw [hallocOut]
        simp only [queueAt]
        omega
    · rw [hinput, houtput, hallocIn]
      exact Nat.le_refl _

/-- A resumed segment is compared with the sizes, and nothing is written. -/
theorem initMessageQueue_found (c : MessageChannel) (api : SharememoryApi) (m : Memory) (key : Nat)
    (hn : ∀ s, n s < 2 ^ 31) {s : ShareMemory}
    (hmap : c.shareMemory.attachShareMemory api key (segmentSize n) = ⟨true, s⟩)
    (hbase : s.memBase ≠ 0) (hoffset : s.uiOffset = 48)
    (hsize : s.uiSize = 48 + (n .input + 48) + (n .output + 48)) (hmode : s.mode = .resume) :
    let r := c.initMessageQueue api m key (n .input) (n .output)
    r.mem = m ∧
      (r.ret = true ↔ ∀ side, Initialised (queueAt s.memBase n side) (n side) m) ∧
      (r.ret = true → r.channel = placed s n) := by
  have hin := hn .input
  have hout := hn .output
  have hsides : (∀ side, Initialised (queueAt s.memBase n side) (n side) m) ↔
      Initialised (queueAt s.memBase n .input) (n .input) m ∧
        Initialised (queueAt s.memBase n .output) (n .output) m :=
    ⟨fun h => ⟨h .input, h .output⟩, fun h side => by cases side; exacts [h.1, h.2]⟩
  have hwords : ∀ (q : MsgQueue) (size : Nat), q.msgBase = q.head + 32 →
      (Initialised q size m ↔ q.memSize m = MsgQueue.allocSize size ∧ q.queueSize m = size + 16) :=
    fun q size hq => ⟨fun h => ⟨h.memSize, h.queueSize⟩, fun h => ⟨hq, h.1, h.2⟩⟩
  rw [hsides, hwords _ _ rfl, hwords _ _ rfl, initMessageQueue_eq c api m key hn hmap hbase hoffset
    hsize, hmode, MsgQueue.init_resume c.msgInput m _ (show n .input < 2 ^ 62 by omega)]
  dsimp only [queueAt]
  by_cases hinput : (⟨s.memBase + 48, s.memBase + 48 + 32⟩ : MsgQueue).memSize m =
      MsgQueue.allocSize (n .input) ∧
    (⟨s.memBase + 48, s.memBase + 48 + 32⟩ : MsgQueue).queueSize m = n .input + 16
  · rw [if_pos hinput]
    dsimp only
    rw [if_neg (show ¬true = false by decide), and_iff_right hinput,
      MsgQueue.init_resume c.msgOutput m _ (show n .output < 2 ^ 62 by omega)]
    split
    · next houtput => exact ⟨rfl, iff_of_true rfl houtput, fun _ => rfl⟩
    · next houtput =>
      exact ⟨rfl, iff_of_false Bool.false_ne_true houtput, fun hret => absurd hret Bool.false_ne_true⟩
  · rw [if_neg hinput]
    dsimp only
    rw [if_pos rfl]
    exact ⟨rfl, iff_of_false Bool.false_ne_true fun h => hinput h.1,
      fun hret => absurd hret Bool.false_ne_true⟩

/-- **What `InitMessageQueue` reports**, on an object in any state: every failure, exactly when the
segment is mapped as long as it was asked for, and the headers of one that is resumed are those of
the two sizes. -/
theorem reports_iff (platform : Platform) (c : MessageChannel) (api : SharememoryApi) (m : Memory)
    (key : Nat) (n : Side → Nat) (hn : ∀ s, n s < 2 ^ 31) (mappedSize : Nat) :
    Reports platform api key n mappedSize
        (c.initMessageQueue api m key (n .input) (n .output)) ↔
      Mapped platform api key n ∧ realSize n ≤ mappedSize ∧
        (c.shareMemory.modeFor api key (realSize n) = .resume →
          ∀ s, Initialised (queueAt (baseFor api key n) n s) (n s) m) := by
  by_cases hmapped : Mapped platform api key n
  · rw [reports_iff_established (headers_ne_nil c api m key (n .input) (n .output))]
    obtain ⟨s, heq, hbase, hoffset, hsize, -, hmap, hmode⟩ :=
      attach_segment hn (hmapped.attach hn c.shareMemory)
    rw [hsize, ← realSize_eq hn] at hmap hmode
    rw [← hmode, and_iff_right hmapped]
    cases hfound : s.mode with
    | init =>
      obtain ⟨hret, hchannel, hattached, hmem, -⟩ :=
        initMessageQueue_init c api m key hn heq hbase hoffset hsize hfound
      generalize c.initMessageQueue api m key (n .input) (n .output) = r
        at hret hchannel hattached hmem ⊢
      have hqueue : ∀ side, r.channel.queue side = queueAt (baseFor api key n) n side := by
        intro side
        rw [hchannel, placed_queueAt, hmap, baseFor]
      rw [and_iff_right hret, established_of_placed hn hmapped hqueue fun side => ?_]
      · exact (and_iff_left fun h => absurd h (by decide)).symm
      · rw [← hqueue]
        refine ⟨(hattached.holds side).placed, ?_, (hattached.holds side).queueSize_eq⟩
        cases side with
        | input => exact hattached.inputMemSize
        | output => exact hmem
    | resume =>
      obtain ⟨hmem, hret, hchannel⟩ := initMessageQueue_found c api m key hn heq hbase hoffset hsize hfound
      generalize c.initMessageQueue api m key (n .input) (n .output) = r at hmem hret hchannel ⊢
      rw [hmap, ← baseFor] at hret
      rw [hret]
      constructor
      · rintro ⟨hmatch, hestablished⟩
        have hqueue : ∀ side, r.channel.queue side = queueAt (baseFor api key n) n side := by
          intro side
          rw [hchannel (hret.mpr hmatch), placed_queueAt, hmap, baseFor]
        refine ⟨(established_of_placed hn hmapped hqueue ?_).mp hestablished, fun _ => hmatch⟩
        rwa [hmem]
      · rintro ⟨hfits, hmatch⟩
        have hqueue : ∀ side, r.channel.queue side = queueAt (baseFor api key n) n side := by
          intro side
          rw [hchannel (hret.mpr (hmatch rfl)), placed_queueAt, hmap, baseFor]
        refine ⟨hmatch rfl, (established_of_placed hn hmapped hqueue ?_).mpr hfits⟩
        rw [hmem]
        exact hmatch rfl
  · exact iff_of_false (not_reports_of_not_mapped hmapped c m) fun h => hmapped h.1

theorem reports_iff_run :
    Reports .linux firstAttach 7 (fun _ => 16) 4096
        ((new ⟨0, 0⟩ ⟨0, 0⟩).initMessageQueue firstAttach (fun _ => 0) 7 16 16) ↔
      Mapped .linux firstAttach 7 (fun _ => 16) ∧ realSize (fun _ => 16) ≤ 4096 ∧
        (ShareMemory.new.modeFor firstAttach 7 (realSize fun _ => 16) = .resume →
          ∀ s, Initialised (queueAt (baseFor firstAttach 7 fun _ => 16) (fun _ => 16) s) 16
            (fun _ => 0)) :=
  reports_iff .linux (new ⟨0, 0⟩ ⟨0, 0⟩) firstAttach (fun _ => 0) 7 (fun _ => 16)
    (fun _ => by decide) 4096

/-- A system that creates the segment and maps none. -/
def failsToMap (platform : Platform) : SharememoryApi :=
  { openShareMem := fun _ _ => invalidSmHandle, createShareMem := fun _ _ => 1,
    mapShareMem := fun _ => platform.mapFailed }

/-- Both headers are written, at the null pointer, or behind the one that is none. The answer `true` is
that of the definitions, whose memory has every address: the program faults when it writes them. -/
theorem unmapped_not_reported :
    let r := (new ⟨0, 0⟩ ⟨0, 0⟩).initMessageQueue (failsToMap .windows) (fun _ => 0) 7 16 16
    let r' := (new ⟨0, 0⟩ ⟨0, 0⟩).initMessageQueue (failsToMap .linux) (fun _ => 0) 7 16 16
    r.ret = true ∧ r.headers = [0, 0] ∧
      ¬Reports .windows (failsToMap .windows) 7 (fun _ => 16) 4096 r ∧
      r'.ret = true ∧ ¬Reports .linux (failsToMap .linux) 7 (fun _ => 16) 4096 r' := by
  have hnot : ∀ platform : Platform, ¬Reports platform (failsToMap platform) 7 (fun _ => 16) 4096
      ((new ⟨0, 0⟩ ⟨0, 0⟩).initMessageQueue (failsToMap platform) (fun _ => 0) 7 16 16) :=
    fun platform => not_reports_of_not_mapped (n := fun _ => 16) (fun hmapped => hmapped.mapped rfl)
      (new ⟨0, 0⟩ ⟨0, 0⟩) (fun _ => 0)
  exact ⟨by decide, by decide, hnot .windows, by decide, hnot .linux⟩

end MessageChannel

end MmDriver

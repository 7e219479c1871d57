import MmDriver.Laws.Common.MsgChannel

/-!
# Attaching to a segment that is in use

A first object has initialised the segment and a run of calls has left messages pending. A
second object attaches with the same key and sizes, while the segment exists. Whether the
pending messages survive is decided by the second object's own members: the segment is resumed
only when it carries the same key and size already, and cleared otherwise.

`attach_keeps_iff` says exactly when the messages survive. A fresh object carries key and size
`0`, so a fresh object's attach loses every pending message.
-/

namespace MmDriver.MessageChannel

open ByteMem MsgFifo CallMachine
open MsgQueue (Holds Outcome)

variable {a b : MessageChannel} {n : Side → Nat} {m : Memory} {pending : Side → List Message}

/-! ## Two objects on one segment -/

/-- A call made on the second of two objects, or on the first. -/
def eitherStep (a b : MessageChannel) (m : Memory) (k : Bool × Call) : Memory × Outcome :=
  if k.1 then b.step m k.2 else a.step m k.2

/-- Objects with the same queues are one object to the segment. -/
theorem eitherStep_eq (hqueue : ∀ s, b.queue s = a.queue s) (m : Memory) {k : Bool × Call}
    (hk : Fits k.2) : eitherStep a b m k = a.step m k.2 := by
  unfold eitherStep
  split
  · rw [step_eq b m hk, step_eq a m hk, hqueue]
  · rfl

/-- Whichever of the two objects makes each call, the replies are the two FIFOs'. -/
theorem Attached.either_run (h : Attached a n m pending) (hqueue : ∀ s, b.queue s = a.queue s)
    {ks : List (Bool × Call)} (hks : ∀ k ∈ ks, Fits k.2) :
    (exec (eitherStep a b) m ks).2.map Outcome.reply =
      (exec (MsgFifo.stepAt n) pending (ks.map fun k => abs k.2)).2 := by
  have hsim : Simulates (eitherStep a b) (MsgFifo.stepAt n) (fun k => abs k.2)
      (fun k => Fits k.2) (Attached a n) (fun o r => o.reply = r) := by
    intro m pending k hk h
    rw [eitherStep_eq hqueue m hk]
    exact simulates a n m pending k.2 hk h
  obtain ⟨-, hreplies⟩ := hsim.exec h hks
  rw [← List.forall₂_eq_eq_eq]
  exact List.forall₂_map_left_iff.mpr hreplies

/-! ## What an attach keeps -/

/-- The attach `r` to the segment of `a` keeps the messages `pending` in memory `m`. -/
structure KeepsPending (a : MessageChannel) (n : Side → Nat) (m : Memory)
    (pending : Side → List Message) (r : InitResult) : Prop where
  ret : r.ret = true
  indices : ∀ s, (a.queue s).read r.mem = (a.queue s).read m ∧
    (a.queue s).write r.mem = (a.queue s).write m
  /-- Every later call, on either object, answers as the two FIFOs that hold `pending`. -/
  delivers : ∀ ks : List (Bool × Call), (∀ k ∈ ks, Fits k.2) →
    (exec (eitherStep a r.channel) r.mem ks).2.map Outcome.reply =
      (exec (MsgFifo.stepAt n) pending (ks.map fun k => abs k.2)).2

/-- The attaching object already carries the segment's key and size, and the output queue's
`mem_size_` is still what `init` wrote. -/
def Resumes (a b : MessageChannel) (key : Nat) (n : Side → Nat) (m : Memory) : Prop :=
  b.shareMemory.uiKey = key ∧ b.shareMemory.uiSize = a.shareMemory.uiSize ∧
    a.msgOutput.memSize m = MsgQueue.allocSize (n .output)

/-- The attaching object carries another key or size, and every index stands at the start of
its ring. -/
def FindsStart (a b : MessageChannel) (key : Nat) (m : Memory) : Prop :=
  ¬(b.shareMemory.uiKey = key ∧ b.shareMemory.uiSize = a.shareMemory.uiSize) ∧
    ∀ s, (a.queue s).read m = 0 ∧ (a.queue s).write m = 0

/-- Indices at the start of both rings: nothing is pending. -/
theorem Attached.empty_of_start (h : Attached a n m pending)
    (hstart : ∀ s, (a.queue s).read m = 0 ∧ (a.queue s).write m = 0) : pending = fun _ => [] := by
  funext s
  have hdist := (h.holds s).gap_eq
  rw [(hstart s).1, (hstart s).2] at hdist
  exact occupied_eq_zero hdist.symm

/-- The invariant of a placed channel is about where its mapping starts and how long it is. -/
theorem Attached.of_placed {s s' : ShareMemory} (h : Attached (placed s n) n m pending)
    (hbase : s'.memBase = s.memBase) (hsize : s'.uiSize = s.uiSize) :
    Attached (placed s' n) n m pending := by
  have hin : (placed s' n).msgInput = (placed s n).msgInput := by simp only [placed, hbase]
  have hout : (placed s' n).msgOutput = (placed s n).msgOutput := by simp only [placed, hbase]
  have hlimit : (placed s' n).shareMemory.memBase + (placed s' n).shareMemory.uiSize =
      (placed s n).shareMemory.memBase + (placed s n).shareMemory.uiSize := by
    simp only [placed, hbase, hsize]
  refine ⟨?_, ?_, ?_, fun side => ?_, ?_⟩
  · rw [hin, h.base]
    exact congrArg (· + _) hbase.symm
  · rw [hin, hout, h.layout]
  · rw [hout, hlimit, h.limit]
  · cases side with
    | input => rw [queue, hin]; exact h.holds .input
    | output => rw [queue, hout]; exact h.holds .output
  · rw [hin, h.inputMemSize]

theorem placed_queue {s s' : ShareMemory} (hbase : s'.memBase = s.memBase) (side : Side) :
    (placed s' n).queue side = (placed s n).queue side := by
  cases side <;> simp only [queue, placed, hbase]

/-- Resuming a segment that holds `pending` compares the sizes and writes nothing. -/
theorem initMessageQueue_resume (c : MessageChannel) (api : SharememoryApi) (key : Nat)
    (hn : ∀ s, n s < 2 ^ 31) {s : ShareMemory}
    (hmap : c.shareMemory.attachShareMemory api key (segmentSize n) = ⟨true, s⟩)
    (hbase : s.memBase ≠ 0) (hoffset : s.uiOffset = 48)
    (hsize : s.uiSize = 48 + (n .input + 48) + (n .output + 48)) (hmode : s.mode = .resume)
    (h : Attached (placed s n) n m pending) :
    let r := c.initMessageQueue api m key (n .input) (n .output)
    (r.ret = true ↔ (placed s n).msgOutput.memSize m = MsgQueue.allocSize (n .output)) ∧
      (r.ret = true → r.channel = placed s n ∧ r.mem = m) := by
  have hin := hn .input
  have hout := hn .output
  have hinput := MsgQueue.init_resume c.msgInput m (s.memBase + 48) (show n .input < 2 ^ 62 by omega)
  rw [if_pos ⟨h.inputMemSize, (h.holds .input).queueSize_eq⟩] at hinput
  have houtput := MsgQueue.init_resume c.msgOutput m (s.memBase + 48 + (n .input + 48))
    (show n .output < 2 ^ 62 by omega)
  rw [initMessageQueue_eq c api m key hn hmap hbase hoffset hsize, hmode]
  dsimp only
  rw [hinput]
  dsimp only
  rw [if_neg (show ¬true = false by decide), houtput]
  by_cases hmem : (placed s n).msgOutput.memSize m = MsgQueue.allocSize (n .output)
  · rw [if_pos ⟨hmem, (h.holds .output).queueSize_eq⟩]
    exact ⟨iff_of_true rfl hmem, fun _ => ⟨rfl, rfl⟩⟩
  · rw [if_neg fun hboth => hmem hboth.1]
    exact ⟨iff_of_false Bool.false_ne_true hmem, fun hret => absurd hret Bool.false_ne_true⟩

/-- **What an attach keeps.** The mode is `ESM_RESUME` when the object carries the segment's
key and size, and then the attach succeeds exactly when the output queue's `mem_size_` is
intact; otherwise both queues are cleared, which keeps the indices only where they already
stand at the start. -/
theorem attach_keeps_iff (b : MessageChannel) (api : SharememoryApi) (key : Nat)
    (hn : ∀ s, n s < 2 ^ 31) {s : ShareMemory} (h : Attached (placed s n) n m pending)
    (hsize : s.uiSize = 48 + (n .input + 48) + (n .output + 48))
    (hmap : (b.shareMemory.attachShareMemory api key (segmentSize n)).ret = true)
    (hexists : api.openShareMem key s.uiSize ≠ invalidSmHandle)
    (hsame : api.mapShareMem (api.openShareMem key s.uiSize) = s.memBase) :
    KeepsPending (placed s n) n m pending (b.initMessageQueue api m key (n .input) (n .output)) ↔
      Resumes (placed s n) b key n m ∨ FindsStart (placed s n) b key m := by
  obtain ⟨s', heq, hbase', hoffset', hsize', -, hmapped, hmode⟩ := attach_segment hn hmap
  have hsizes : s'.uiSize = s.uiSize := hsize'.trans hsize.symm
  have hbases : s'.memBase = s.memBase := by
    rw [hmapped, hsizes, ShareMemory.handleFor, if_neg hexists, hsame]
  have h' : Attached (placed s' n) n m pending := h.of_placed hbases hsizes
  have hqueue := placed_queue (n := n) hbases
  by_cases hown : b.shareMemory.uiKey = key ∧ b.shareMemory.uiSize = s.uiSize
  · -- the object's own key and size: the segment is resumed
    have hresume : s'.mode = .resume := by
      rw [hmode, hsizes, ShareMemory.modeFor, if_neg, if_neg hexists]
      rintro (hkey | hother)
      · exact hkey hown.1.symm
      · exact hother hown.2.symm
    obtain ⟨hret, hkeep⟩ := initMessageQueue_resume b api key hn heq hbase' hoffset' hsize' hresume h'
    have hmem : (placed s' n).msgOutput = (placed s n).msgOutput := hqueue .output
    rw [hmem] at hret
    generalize b.initMessageQueue api m key (n .input) (n .output) = r at hret hkeep ⊢
    refine ⟨fun hkeeps => .inl ⟨hown.1, hown.2, hret.mp hkeeps.ret⟩, ?_⟩
    rintro (⟨-, -, hintact⟩ | ⟨hother, -⟩)
    · obtain ⟨hchannel, hunchanged⟩ := hkeep (hret.mpr hintact)
      refine ⟨hret.mpr hintact, fun side => ?_, fun ks hks => ?_⟩
      · rw [hunchanged]
        exact ⟨rfl, rfl⟩
      · rw [hchannel, hunchanged]
        exact h.either_run hqueue hks
    · exact absurd hown hother
  · -- another key or size: both queues are cleared
    have hinit : s'.mode = .init := by
      rw [hmode, hsizes, ShareMemory.modeFor, if_pos]
      by_cases hkey : key = b.shareMemory.uiKey
      · exact .inr fun hsz => hown ⟨hkey.symm, hsz.symm⟩
      · exact .inl hkey
    obtain ⟨hret, hchannel, hempty, -, hwrite⟩ :=
      initMessageQueue_init b api m key hn heq hbase' hoffset' hsize' hinit
    generalize b.initMessageQueue api m key (n .input) (n .output) = r
      at hret hchannel hempty hwrite ⊢
    rw [hchannel] at hempty hwrite
    have hzero : ∀ side, ((placed s n).queue side).read r.mem = 0 ∧
        ((placed s n).queue side).write r.mem = 0 := fun side => by
      have hw := hwrite side
      have hr := (hempty.holds side).read_eq_write
      rw [hqueue] at hw hr
      exact ⟨hr.trans hw, hw⟩
    refine ⟨fun hkeeps => .inr ⟨hown, fun side => ?_⟩, ?_⟩
    · obtain ⟨hr, hw⟩ := hkeeps.indices side
      exact ⟨hr.symm.trans (hzero side).1, hw.symm.trans (hzero side).2⟩
    · rintro (⟨hkey, hsz, -⟩ | ⟨-, hstart⟩)
      · exact absurd ⟨hkey, hsz⟩ hown
      · refine ⟨hret, fun side => ?_, fun ks hks => ?_⟩
        · exact ⟨(hzero side).1.trans (hstart side).1.symm,
            (hzero side).2.trans (hstart side).2.symm⟩
        · rw [h.empty_of_start hstart, hchannel]
          exact (hempty.of_placed hbases.symm hsizes.symm).either_run hqueue hks

/-! ## From the first `InitMessageQueue` on -/

/-- The memory a run of calls leaves. -/
def memAfter (c : MessageChannel) (m : Memory) (ks : List Call) : Memory := (exec c.step m ks).1

/-- The messages a run of calls on a fresh segment leaves pending on each side. -/
def pendingAfter (n : Side → Nat) (ks : List Call) : Side → List Message :=
  (exec (MsgFifo.stepAt n) (fun _ => []) (ks.map abs)).1

/-- A first object initialises a segment and makes any calls on it; a second object, in any
state, attaches with the same key and sizes to the same segment. -/
theorem reattach_keeps_iff (output input : MsgQueue) (b : MessageChannel)
    (api api' : SharememoryApi) (m : Memory) (key : Nat) (n : Side → Nat) (hn : ∀ s, n s < 2 ^ 31)
    (hmap : (ShareMemory.new.attachShareMemory api key (segmentSize n)).ret = true)
    (ks : List Call) (hks : ∀ k ∈ ks, Fits k)
    (hmap' : (b.shareMemory.attachShareMemory api' key (segmentSize n)).ret = true)
    (hexists : api'.openShareMem key (48 + segmentSize n) ≠ invalidSmHandle)
    (hsame : api'.mapShareMem (api'.openShareMem key (48 + segmentSize n)) =
      api.mapShareMem (ShareMemory.handleFor api key (48 + segmentSize n))) :
    let r := (new output input).initMessageQueue api m key (n .input) (n .output)
    let m' := r.channel.memAfter r.mem ks
    KeepsPending r.channel n m' (pendingAfter n ks)
        (b.initMessageQueue api' m' key (n .input) (n .output)) ↔
      Resumes r.channel b key n m' ∨ FindsStart r.channel b key m' := by
  obtain ⟨s, -, hchannel, hmapped, hsize, hattached, -⟩ := new_attach_init output input hn hmap m
  generalize (new output input).initMessageQueue api m key (n .input) (n .output) = r
    at hchannel hattached ⊢
  have hsegment : 48 + segmentSize n = s.uiSize := by
    rw [segmentSize_eq hn, hsize]
    omega
  rw [hsegment] at hexists hsame
  rw [← hmapped] at hsame
  obtain ⟨hafter, -⟩ := (simulates r.channel n).exec hattached hks
  dsimp only
  rw [hchannel] at hafter ⊢
  exact attach_keeps_iff b api' key hn hafter hsize hmap' hexists hsame

/-! ## A fresh object attaches

One message of eight bytes is sent on the output side. The process that is to receive it starts
now, with an object of its own, and clears both queues. -/

/-- The system after `firstAttach`: the segment exists. -/
def secondAttach : SharememoryApi :=
  { openShareMem := fun _ _ => 1, createShareMem := fun _ _ => invalidSmHandle,
    mapShareMem := fun _ => 4096 }

/-- A message of eight bytes. -/
def oneMessage : List Call := [(.output, .append (fun _ => 65) 8)]

theorem reattach_keeps_iff_run :
    let r := (new ⟨0, 0⟩ ⟨0, 0⟩).initMessageQueue firstAttach (fun _ => 0) 7 16 16
    let m' := r.channel.memAfter r.mem oneMessage
    KeepsPending r.channel (fun _ => 16) m' (pendingAfter (fun _ => 16) oneMessage)
        ((new ⟨0, 0⟩ ⟨0, 0⟩).initMessageQueue secondAttach m' 7 16 16) ↔
      Resumes r.channel (new ⟨0, 0⟩ ⟨0, 0⟩) 7 (fun _ => 16) m' ∨
        FindsStart r.channel (new ⟨0, 0⟩ ⟨0, 0⟩) 7 m' :=
  reattach_keeps_iff ⟨0, 0⟩ ⟨0, 0⟩ (new ⟨0, 0⟩ ⟨0, 0⟩) firstAttach secondAttach (fun _ => 0) 7
    (fun _ => 16) (fun _ => by decide) (by decide) oneMessage (by simp [oneMessage, Fits])
    (by decide) (by decide) (by decide)

/-- The message is lost: `write_` was 16, and the attach cleared it. -/
theorem fresh_attach_loses_message :
    let r := (new ⟨0, 0⟩ ⟨0, 0⟩).initMessageQueue firstAttach (fun _ => 0) 7 16 16
    let m' := r.channel.memAfter r.mem oneMessage
    ¬KeepsPending r.channel (fun _ => 16) m' (pendingAfter (fun _ => 16) oneMessage)
      ((new ⟨0, 0⟩ ⟨0, 0⟩).initMessageQueue secondAttach m' 7 16 16) := by
  have hn : ∀ _ : Side, 16 < 2 ^ 31 := fun _ => by decide
  have hmap : (ShareMemory.new.attachShareMemory firstAttach 7
    (segmentSize fun _ => 16)).ret = true := by decide
  obtain ⟨s, -, hchannel, hmapped, hsize, hattached, hwrite⟩ :=
    new_attach_init ⟨0, 0⟩ ⟨0, 0⟩ hn hmap (fun _ => 0)
  generalize (new ⟨0, 0⟩ ⟨0, 0⟩).initMessageQueue firstAttach (fun _ => 0) 7 _ _ = r
    at hchannel hattached hwrite ⊢
  have hfits : ∀ k ∈ oneMessage, Fits k := by simp [oneMessage, Fits]
  obtain ⟨hafter, -⟩ := (simulates r.channel fun _ => 16).exec hattached hfits
  dsimp only
  rw [hchannel] at hattached hwrite hafter ⊢
  have hiff := attach_keeps_iff (new ⟨0, 0⟩ ⟨0, 0⟩) secondAttach 7 hn hafter hsize (by decide)
    (by rw [hsize]; decide) (by rw [hmapped, hsize]; decide)
  refine fun hkeeps => (hiff.mp hkeeps).elim (fun hresumes => ?_) fun hstart => ?_
  · exact absurd hresumes.1 (by decide)
  · obtain ⟨-, hmoved⟩ := (hattached.holds .output).append_indices (fun _ => 65)
      (show occupied [] + (8 + 8) ≤ 16 by decide)
    have hzero := (hstart.2 .output).2
    rw [oneMessage, exec_cons_state, exec_nil, step_eq _ _ (by simp [Fits]),
      MsgQueue.step, MsgQueue.AppendResult.answer_mem, hmoved, hwrite] at hzero
    exact absurd hzero (by decide)

end MmDriver.MessageChannel

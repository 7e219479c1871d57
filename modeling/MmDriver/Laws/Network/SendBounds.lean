import MmDriver.Laws.Network.ClientSend

/-!
# Where the senders write

A sender copies into the send buffer in `memcpy` and `memmove`. `stepWrites` lists these copies for
a call, and `sendStep_buffer` says that they are all that happens to the buffer. Where data is
cached the room is checked first. The one copy without a check is that of the fresh data a drained
connection could not send on; `bounds_iff_absorbs` is about it.
-/

namespace MmDriver

open ByteMem CallMachine

namespace World

/-! ## Copies into the buffer -/

/-- A `memcpy` or `memmove` of `len` bytes to the index `dst` of the send buffer. -/
structure BufferWrite where
  dst : Nat
  src : Nat → UInt8
  len : Nat

/-- The buffer after these copies. -/
def written (ws : List BufferWrite) (m : Memory) : Memory :=
  ws.foldl (fun m wr => copy m wr.dst wr.src wr.len) m

/-- Every byte that is written has an index below `C`. -/
def Inside (C : Nat) (ws : List BufferWrite) : Prop := ∀ wr ∈ ws, ∀ i < wr.len, wr.dst + i < C

/-- The copies of `cache`. -/
def cacheWrites (c : ClientSocket) (data : Nat → UInt8) (size dataRemainedBytes : Nat) :
    List BufferWrite :=
  if SizeT.sub c.nSendBufSize c.sendTail ≥ size then [⟨c.sendTail, data, size⟩]
  else if SizeT.add (SizeT.sub c.nSendBufSize c.sendTail) c.sendHead ≥ size then
    [⟨0, sendPtr c, dataRemainedBytes⟩, ⟨dataRemainedBytes, data, size⟩]
  else []

/-- The copies of `sendFresh`. -/
def freshWrites (w : World ω) (data : Nat → UInt8) (size : Nat) : List BufferWrite :=
  let r := sendLoop w.net data size
  match r.stop with
  | .stalled =>
    [⟨w.socket.sendTail, fun i => data (r.accepted + i), size - r.accepted⟩]
  | _ => []

/-- The copies of a call on a live connection. -/
def stepWrites (w : World ω) : SendCall → List BufferWrite
  | .sendData d =>
    if d.length = 0 then []
    else
      let r := flush w
      match r.1 with
      | .drained => freshWrites r.2.rewound (ofList d) d.length
      | .stalled => cacheWrites r.2.socket (ofList d) d.length
          (SizeT.sub r.2.socket.sendTail r.2.socket.sendHead)
      | .failed => []
  | .sendCache d =>
    if d.length = 0 then []
    else cacheWrites w.socket (ofList d) d.length
      (SizeT.sub w.socket.sendTail w.socket.sendHead)
  | .sendCacheData => []

/-! ## What the socket takes -/

/-- How many of `n` bytes a socket with this script accepts until it would block, and the script
it leaves. -/
def takes : List SendEvent → Nat → Nat × List SendEvent
  | sends, 0 => (0, sends)
  | [], _ + 1 => (0, [])
  | .accept k :: later, n + 1 =>
    let a := min k (min (TUint32.ofNat (n + 1)) (2 ^ 31 - 1))
    if a = 0 then (0, later)
    else
      let rest := takes later (n + 1 - a)
      (a + rest.1, rest.2)
  | .wouldBlock :: later, _ + 1 => (0, later)
  | .error :: later, _ + 1 => (0, later)

/-- One write that takes something: the script says how much. -/
theorem sendEx_takes {net : Net} {ptr : Nat → UInt8} {n : Nat} (hn : 0 < n)
    (hsent : (SocketApi.sendEx net ptr (TUint32.ofNat n)).ret > 0) :
    takes net.sends n =
      let r := SocketApi.sendEx net ptr (TUint32.ofNat n)
      let rest := takes r.net.sends (n - r.ret.toNat)
      (r.ret.toNat + rest.1, rest.2) := by
  obtain ⟨n, rfl⟩ := Nat.exists_eq_add_one_of_ne_zero (Nat.ne_of_gt hn)
  unfold SocketApi.sendEx at hsent ⊢
  split at hsent
  · exact absurd hsent (Int.not_lt.mpr ConnErrorCode.wouldBlock.toInt_nonpos)
  · next k later hsends =>
    rw [hsends, takes]
    exact if_neg (Nat.ne_of_gt (Int.natCast_pos.mp hsent))
  · exact absurd hsent (Int.not_lt.mpr ConnErrorCode.wouldBlock.toInt_nonpos)
  · exact absurd hsent (Int.not_lt.mpr ConnErrorCode.unknown.toInt_nonpos)

/-- One write that takes nothing ends what the script takes. -/
theorem sendEx_takes_none {net : Net} {ptr : Nat → UInt8} {n : Nat} (hn : 0 < n)
    (hsent : ¬(SocketApi.sendEx net ptr (TUint32.ofNat n)).ret > 0) :
    takes net.sends n = (0, (SocketApi.sendEx net ptr (TUint32.ofNat n)).net.sends) := by
  obtain ⟨n, rfl⟩ := Nat.exists_eq_add_one_of_ne_zero (Nat.ne_of_gt hn)
  unfold SocketApi.sendEx at hsent ⊢
  split at hsent
  · next hsends => rw [hsends, takes]
  · next k later hsends =>
    have hnone : min k (min (TUint32.ofNat (n + 1)) (2 ^ 31 - 1)) = 0 :=
      Nat.eq_zero_of_not_pos fun hpos => hsent (Int.natCast_pos.mpr hpos)
    rw [hsends, takes, if_pos hnone]
  · next later hsends => rw [hsends, takes]
  · next later hsends => rw [hsends, takes]

/-- The loop around `send_ex` takes what the script takes. -/
theorem sendLoop_takes (net : Net) (ptr : Nat → UInt8) (n : Nat) :
    (sendLoop net ptr n).accepted = (takes net.sends n).1 ∧
      (sendLoop net ptr n).net.sends = (takes net.sends n).2 := by
  fun_induction sendLoop net ptr n with
  | case1 net ptr n hn r hsent rest ih =>
    rw [sendEx_takes hn hsent]
    exact ⟨congrArg (r.ret.toNat + ·) ih.1, ih.2⟩
  | case2 net ptr n hn r hsent hfail =>
    rw [sendEx_takes_none hn hsent]
    exact ⟨rfl, rfl⟩
  | case3 net ptr n hn r hsent hfail =>
    rw [sendEx_takes_none hn hsent]
    exact ⟨rfl, rfl⟩
  | case4 net ptr n hn =>
    rw [Nat.eq_zero_of_not_pos hn, takes]
    exact ⟨rfl, rfl⟩

section Step

variable {ω : Type} {C : Nat} {w : World ω} {bytes out : List UInt8}

/-- What `flush` leaves to send and to hold. -/
theorem flush_takes (h : Buffered C w.socket bytes) (hC : C < 2 ^ 64) :
    ((flush w).1 = .drained ↔ (takes w.net.sends bytes.length).1 = bytes.length) ∧
      (flush w).2.net.sends = (takes w.net.sends bytes.length).2 ∧
      (flush w).2.socket.sendTail - (flush w).2.socket.sendHead =
        bytes.length - (takes w.net.sends bytes.length).1 := by
  obtain ⟨haccepted, hsends⟩ := sendLoop_takes w.net (sendPtr w.socket) bytes.length
  have hdrained := (sendLoop_sendsUpTo w.net (sendPtr w.socket) bytes.length).drained
  have hlen := h.length
  rw [flush_eq h hC]
  generalize sendLoop w.net (sendPtr w.socket) bytes.length = r at haccepted hsends hdrained
  rw [← haccepted]
  refine ⟨hdrained, hsends, ?_⟩
  show w.socket.sendTail - (w.socket.sendHead + r.accepted) = _
  rw [hlen, Nat.sub_sub]

/-! ### The copies are all that happens -/

theorem cache_buffer (c : ClientSocket) (data : Nat → UInt8) (size dataRemainedBytes : Nat) :
    (cache c data size dataRemainedBytes).2.sendBuffer =
      c.sendBuffer.map (written (cacheWrites c data size dataRemainedBytes)) := by
  unfold cache cacheWrites
  split
  · rfl
  · split
    · cases hm : c.sendBuffer with
      | none => simp [appended, compacted, hm]
      | some m =>
        have hptr : sendPtr c = fun i => m (c.sendHead + i) := by
          funext i
          simp only [sendPtr, hm]
        simp [appended, compacted, hm, hptr, written]
    · exact (congrFun Option.map_id _).symm

theorem sendFresh_buffer (cb : Callbacks ω) (data : Nat → UInt8) (size : Nat)
    (h : .error ∉ w.net.sends) :
    (sendFresh cb w data size).2.socket.sendBuffer =
      w.socket.sendBuffer.map (written (freshWrites w data size)) := by
  have hfailed := (sendLoop_sendsUpTo w.net data size).failed
  unfold sendFresh freshWrites
  generalize sendLoop w.net data size = r at hfailed
  obtain ⟨stop, accepted, net⟩ := r
  cases stop with
  | drained => exact (congrFun Option.map_id _).symm
  | stalled => rfl
  | failed => exact absurd (hfailed rfl) h

/-- The copies of a call make its buffer. -/
theorem sendStep_buffer (cb : Callbacks ω) (h : Stream C w out) (hC : C < 2 ^ 64)
    (k : SendCall) :
    (sendStep cb w k).1.socket.sendBuffer =
      w.socket.sendBuffer.map (written (stepWrites w k)) := by
  have hsame : (flush w).2.socket.sendBuffer = w.socket.sendBuffer := rfl
  obtain ⟨hok, hnext, -⟩ := h.flush hC
  have hlive : ¬¬w.socket.Live := not_not.mpr h.live
  have hnothing : w.socket.sendBuffer = w.socket.sendBuffer.map (written []) :=
    (congrFun Option.map_id _).symm
  cases k with
  | sendData d =>
    simp only [sendStep, sendData, stepWrites, if_neg hlive]
    split
    · exact hnothing
    · generalize flush w = r at hsame hok hnext
      obtain ⟨stop, w'⟩ := r
      cases stop with
      | drained =>
        have hfresh := sendFresh_buffer (w := w'.rewound) cb (ofList d) d.length hnext.noError
        exact hfresh.trans (congrArg _ hsame)
      | stalled => exact (cache_buffer _ _ _ _).trans (congrArg _ hsame)
      | failed => exact absurd rfl hok
  | sendCache d =>
    simp only [sendStep, sendCache, stepWrites, if_neg hlive]
    split
    · exact hnothing
    · exact cache_buffer _ _ _ _
  | sendCacheData =>
    simp only [sendStep, sendCacheData, stepWrites, if_neg hlive]
    generalize flush w = r at hsame hok
    obtain ⟨stop, w'⟩ := r
    cases stop with
    | drained => exact hsame.trans hnothing
    | stalled => exact hsame.trans hnothing
    | failed => exact absurd rfl hok

/-! ### Room -/

theorem Buffered.cacheWrites_inside (h : Buffered C w.socket bytes) (hC : C < 2 ^ 64)
    (data : Nat → UInt8) (size : Nat) :
    Inside C (cacheWrites w.socket data size bytes.length) := by
  have hlen := h.length
  have hhead := h.head_le
  have htail := h.tail_le
  have hend : SizeT.sub w.socket.nSendBufSize w.socket.sendTail = C - w.socket.sendTail := by
    rw [h.capacity, SizeT.sub_eq htail hC]
  have hall : SizeT.add (C - w.socket.sendTail) w.socket.sendHead =
      C - w.socket.sendTail + w.socket.sendHead := SizeT.add_eq (by omega)
  unfold cacheWrites
  rw [hend, hall]
  split
  · intro wr hmem i hi
    rw [List.mem_singleton] at hmem
    subst hmem
    dsimp only at hi ⊢
    omega
  · split
    · intro wr hmem i hi
      rcases List.mem_pair.mp hmem with rfl | rfl
      · dsimp only at hi ⊢
        omega
      · dsimp only at hi ⊢
        omega
    · exact fun wr hmem => absurd hmem List.not_mem_nil

/-- Caching succeeds only where there is room. -/
theorem Buffered.cache_full (h : Buffered C w.socket bytes) (hC : C < 2 ^ 64)
    (data : Nat → UInt8) {size : Nat} (hfull : C < bytes.length + size) :
    (World.cache w.socket data size bytes.length).1 = .sendNotEnoughBuffer := by
  rcases (h.cache hC data size).2 with ⟨-, hnext⟩ | ⟨hret, -⟩
  · have hlen := hnext.length
    have htail := hnext.tail_le
    rw [List.length_append, slice_length] at hlen
    omega
  · exact hret

end Step

/-! ## The bounds of a call -/

variable {ω : Type}

/-- The bytes the buffer would have to hold after a call: what is left of the earlier messages when
the socket has taken what it takes, and what it has not taken of the message. -/
def needed (w : World ω) : SendCall → Nat
  | .sendData d =>
    let remained := w.socket.sendTail - w.socket.sendHead
    let r := takes w.net.sends remained
    if r.1 = remained then d.length - (takes r.2 d.length).1 else remained - r.1 + d.length
  | .sendCache d => w.socket.sendTail - w.socket.sendHead + d.length
  | .sendCacheData =>
    let remained := w.socket.sendTail - w.socket.sendHead
    remained - (takes w.net.sends remained).1

/-- What a call owes a buffer of capacity `C`: it writes inside, it leaves `m_send_tail` inside,
and it reports a message that does not fit. -/
structure SendBounds (C : Nat) (cb : Callbacks ω) (w : World ω) (k : SendCall) : Prop where
  inside : Inside C (stepWrites w k)
  tail_le : (sendStep cb w k).1.socket.sendTail ≤ C
  reported : C < needed w k → (sendStep cb w k).2 = .sendNotEnoughBuffer

/-- A `send_data` for which the socket takes all pending bytes has at most `C` bytes of its message
left when the socket would block. -/
def Absorbs (C : Nat) (w : World ω) : SendCall → Prop
  | .sendData d =>
    let remained := w.socket.sendTail - w.socket.sendHead
    let r := takes w.net.sends remained
    r.1 = remained → d.length - (takes r.2 d.length).1 ≤ C
  | _ => True

variable {C : Nat} {w : World ω} {out : List UInt8}

theorem Stream.tail_le (h : Stream C w out) : w.socket.sendTail ≤ C := by
  obtain ⟨bytes, hbuffered, -⟩ := h.stream
  exact hbuffered.tail_le

/-- A call that takes no message needs no more than is there. -/
theorem Stream.not_full (h : Stream C w out) {n : Nat} (hn : n ≤ w.socket.sendTail) : ¬C < n :=
  Nat.not_lt.mpr (Nat.le_trans hn h.tail_le)

/-- A live connection keeps its stream in every call that absorbs its message. -/
theorem Stream.step_absorbs (cb : Callbacks ω) (h : Stream C w out) (hC : C < 2 ^ 64)
    {k : SendCall} (hk : Absorbs C w k) : ∃ out', Stream C (sendStep cb w k).1 out' := by
  cases k with
  | sendData d =>
    rcases Nat.eq_zero_or_pos d.length with hnone | hsome
    · refine ⟨out, ?_⟩
      simp only [sendStep, World.sendData, if_pos hnone]
      exact h
    · refine ⟨_, h.sendData cb hC hsome fun hdrained => ?_⟩
      obtain ⟨bytes, hbuffered, -⟩ := h.stream
      obtain ⟨hall, hsends, -⟩ := flush_takes hbuffered hC
      rw [(sendLoop_takes _ _ _).1, hsends, hbuffered.length]
      rw [hbuffered.length] at hall
      exact hk (hall.mp hdrained)
  | sendCache d =>
    rcases Nat.eq_zero_or_pos d.length with hnone | hsome
    · refine ⟨out, ?_⟩
      simp only [sendStep, World.sendCache, if_pos hnone]
      exact h
    · exact ⟨_, h.sendCache hC hsome⟩
  | sendCacheData => exact ⟨out, h.sendCacheData cb hC⟩

theorem Stream.sendCacheData_bounds (cb : Callbacks ω) (h : Stream C w out) (hC : C < 2 ^ 64) :
    SendBounds C cb w .sendCacheData := by
  have htail := (h.sendCacheData cb hC).tail_le
  refine ⟨fun wr hmem => absurd hmem List.not_mem_nil, htail, fun hfull => ?_⟩
  refine absurd hfull (h.not_full ?_)
  exact Nat.le_trans (Nat.sub_le _ _) (Nat.sub_le _ _)

/-- What `cache` does for a call that puts all of its message behind what is pending. -/
theorem Stream.cache_bounds (h : Stream C w out) (hC : C < 2 ^ 64) (data : Nat → UInt8)
    (size : Nat) :
    let remained := SizeT.sub w.socket.sendTail w.socket.sendHead
    Inside C (cacheWrites w.socket data size remained) ∧
      (C < w.socket.sendTail - w.socket.sendHead + size →
        (World.cache w.socket data size remained).1 = .sendNotEnoughBuffer) := by
  obtain ⟨bytes, hbuffered, -⟩ := h.stream
  have hlen := hbuffered.length
  have hhead := hbuffered.head_le
  have htail := hbuffered.tail_le
  have hremained : SizeT.sub w.socket.sendTail w.socket.sendHead = bytes.length := by
    rw [SizeT.sub_eq hhead (by omega), hlen]
  dsimp only
  rw [hremained, ← hlen]
  exact ⟨hbuffered.cacheWrites_inside hC data size, hbuffered.cache_full hC data⟩

theorem Stream.sendCache_bounds (cb : Callbacks ω) (h : Stream C w out) (hC : C < 2 ^ 64)
    (d : List UInt8) : SendBounds C cb w (.sendCache d) := by
  obtain ⟨out', hnext⟩ := h.step_absorbs cb hC (k := .sendCache d) trivial
  obtain ⟨hinside, hfull⟩ := h.cache_bounds hC (ofList d) d.length
  refine ⟨?_, hnext.tail_le, fun hneeded => ?_⟩
  · rw [stepWrites]
    split
    · exact fun wr hmem => absurd hmem List.not_mem_nil
    · exact hinside
  · have hsome : d.length ≠ 0 := fun hnone => by
      refine absurd hneeded (h.not_full ?_)
      rw [needed, hnone]
      exact Nat.sub_le _ _
    simp only [sendStep, World.sendCache, if_neg hsome, if_neg (not_not.mpr h.live)]
    exact hfull hneeded

/-- The fresh half of `send_data`: it copies what is left of the message to the start of the
buffer, and does not look at the capacity. -/
theorem freshWrites_inside_iff (data : Nat → UInt8) (size : Nat)
    (hnoError : .error ∉ w.net.sends) (hstart : w.socket.sendTail = 0) :
    Inside C (freshWrites w data size) ↔ size - (takes w.net.sends size).1 ≤ C := by
  have hloop := sendLoop_sendsUpTo w.net data size
  rw [← (sendLoop_takes w.net data size).1]
  unfold freshWrites
  generalize sendLoop w.net data size = r at hloop
  obtain ⟨stop, accepted, net⟩ := r
  cases stop with
  | drained =>
    have hall : accepted = size := hloop.drained.mp rfl
    refine iff_of_true (fun wr hmem => absurd hmem List.not_mem_nil) ?_
    rw [hall, Nat.sub_self]
    exact Nat.zero_le C
  | stalled =>
    constructor
    · intro hinside
      have hbytes := hinside _ (List.mem_singleton.mpr rfl)
      by_contra hlong
      have hlast := hbytes C (Nat.not_le.mp hlong)
      rw [hstart, Nat.zero_add] at hlast
      exact absurd hlast (Nat.lt_irrefl C)
    · intro hle wr hmem i hi
      rw [List.mem_singleton] at hmem
      subst hmem
      rw [hstart, Nat.zero_add]
      exact Nat.lt_of_lt_of_le hi hle
  | failed => exact absurd (hloop.failed rfl) hnoError

/-- `flush`, by what the script gives the pending bytes. -/
theorem Stream.flush_cases (h : Stream C w out) (hC : C < 2 ^ 64) :
    let remained := w.socket.sendTail - w.socket.sendHead
    let r := takes w.net.sends remained
    (World.flush w).2.net.sends = r.2 ∧
      ((World.flush w).1 = .drained ∧ r.1 = remained ∨
        (World.flush w).1 = .stalled ∧ r.1 ≠ remained ∧
          (World.flush w).2.socket.sendTail - (World.flush w).2.socket.sendHead = remained - r.1) := by
  obtain ⟨bytes, hbuffered, -⟩ := h.stream
  obtain ⟨hall, hsends, hleft⟩ := flush_takes hbuffered hC
  obtain ⟨hok, -, -⟩ := h.flush hC
  dsimp only
  rw [← hbuffered.length]
  refine ⟨hsends, ?_⟩
  cases hstop : (World.flush w).1 with
  | drained => exact .inl ⟨rfl, hall.mp hstop⟩
  | stalled =>
    refine .inr ⟨rfl, fun htook => ?_, hleft⟩
    exact SendStop.noConfusion (hstop.symm.trans (hall.mpr htook))
  | failed => exact absurd hstop hok

/-- `send_data` owes exactly that the fresh data it cannot send fits. -/
theorem Stream.sendData_bounds_iff (cb : Callbacks ω) (h : Stream C w out) (hC : C < 2 ^ 64)
    (d : List UInt8) : SendBounds C cb w (.sendData d) ↔ Absorbs C w (.sendData d) := by
  obtain ⟨hsends, hcases⟩ := h.flush_cases hC
  obtain ⟨-, hnext, -⟩ := h.flush hC
  have htail : Absorbs C w (.sendData d) → (sendStep cb w (.sendData d)).1.socket.sendTail ≤ C := by
    intro habsorbs
    obtain ⟨out', hstep⟩ := h.step_absorbs cb hC habsorbs
    exact hstep.tail_le
  rcases Nat.eq_zero_or_pos d.length with hnone | hsome
  · -- no message: nothing is done
    have habsorbs : Absorbs C w (.sendData d) := fun _ => by
      rw [hnone, Nat.zero_sub]
      exact Nat.zero_le C
    refine iff_of_true ⟨?_, htail habsorbs, fun hneeded => absurd hneeded (h.not_full ?_)⟩ habsorbs
    · rw [stepWrites, if_pos hnone]
      exact fun wr hmem => absurd hmem List.not_mem_nil
    · rw [needed, hnone, Nat.zero_sub]
      split
      · exact Nat.zero_le _
      · exact Nat.le_trans (Nat.sub_le _ _) (Nat.sub_le _ _)
  · have hnonempty : d.length ≠ 0 := Nat.ne_of_gt hsome
    rcases hcases with ⟨hstop, hall⟩ | ⟨hstop, hnot, hleft⟩
    · -- the pending bytes are gone, and the fresh data is sent
      have hwrites : stepWrites w (.sendData d) =
          freshWrites (World.flush w).2.rewound (ofList d) d.length := by
        simp only [stepWrites, if_neg hnonempty, hstop]
      have hinside := freshWrites_inside_iff (w := (World.flush w).2.rewound) (C := C) (ofList d)
        d.length hnext.noError rfl
      have hneeded : needed w (.sendData d) = d.length -
          (takes (World.flush w).2.net.sends d.length).1 := by
        rw [hsends]
        exact if_pos hall
      have hfits : Absorbs C w (.sendData d) ↔
          d.length - (takes (World.flush w).2.net.sends d.length).1 ≤ C := by
        rw [hsends]
        exact ⟨fun habsorbs => habsorbs hall, fun hle _ => hle⟩
      constructor
      · intro hbounds
        rw [hfits]
        exact hinside.mp (hwrites ▸ hbounds.inside)
      · intro habsorbs
        refine ⟨hwrites ▸ hinside.mpr (hfits.mp habsorbs), htail habsorbs, fun hfull => ?_⟩
        rw [hneeded] at hfull
        exact absurd (hfits.mp habsorbs) (Nat.not_le.mpr hfull)
    · -- the message is cached behind what is still pending
      have hreply : (sendStep cb w (.sendData d)).2 =
          (World.cache (World.flush w).2.socket (ofList d) d.length (SizeT.sub
            (World.flush w).2.socket.sendTail (World.flush w).2.socket.sendHead)).1 := by
        simp only [sendStep, World.sendData, if_neg hnonempty, if_neg (not_not.mpr h.live), hstop]
      have hwrites : stepWrites w (.sendData d) =
          cacheWrites (World.flush w).2.socket (ofList d) d.length (SizeT.sub
            (World.flush w).2.socket.sendTail (World.flush w).2.socket.sendHead) := by
        simp only [stepWrites, if_neg hnonempty, hstop]
      have hneeded : needed w (.sendData d) =
          (World.flush w).2.socket.sendTail - (World.flush w).2.socket.sendHead + d.length := by
        rw [hleft]
        exact if_neg hnot
      have habsorbs : Absorbs C w (.sendData d) := fun hall => absurd hall hnot
      obtain ⟨hinside, hfull⟩ := hnext.cache_bounds hC (ofList d) d.length
      refine iff_of_true ⟨hwrites ▸ hinside, htail habsorbs, fun hlong => ?_⟩ habsorbs
      rw [hneeded] at hlong
      exact hreply.trans (hfull hlong)

/-- One call, whatever it is. -/
theorem Stream.bounds_iff_absorbs (cb : Callbacks ω) (h : Stream C w out) (hC : C < 2 ^ 64)
    (k : SendCall) : SendBounds C cb w k ↔ Absorbs C w k := by
  cases k with
  | sendData d => exact h.sendData_bounds_iff cb hC d
  | sendCache d => exact iff_of_true (h.sendCache_bounds cb hC d) trivial
  | sendCacheData => exact iff_of_true (h.sendCacheData_bounds cb hC) trivial

/-! ## Runs -/

/-- **The send buffer's bounds, over every run.** On a socket that sends parts or would block, all
calls respect the capacity exactly when each `send_data` that drains the buffer leaves no more of
its message than the buffer holds. -/
theorem send_bounds_iff (cb : Callbacks ω) (C : Nat) (hC : C < 2 ^ 64) (w : World ω)
    (hw : Ready C w) (ks : List SendCall) (hks : ∀ k ∈ ks, k.message.length < 2 ^ 16) :
    Along (sendStep cb) (SendBounds C cb) w ks ↔ Along (sendStep cb) (Absorbs C) w ks := by
  refine Along.congr_invariant (fun w => ∃ out, Stream C w out)
    (fun k => k.message.length < 2 ^ 16) ?_ ?_ ⟨[], hw.stream⟩ hks
  · rintro w k - ⟨out, h⟩ habsorbs
    exact h.step_absorbs cb hC habsorbs
  · rintro w k - ⟨out, h⟩
    exact h.bounds_iff_absorbs cb hC k

theorem send_bounds_iff_run :
    Along (sendStep idle) (SendBounds 4 idle) smallConnection fourMessages ↔
      Along (sendStep idle) (Absorbs 4) smallConnection fourMessages :=
  send_bounds_iff idle 4 (by decide) smallConnection
    ⟨by decide, by decide, rfl, rfl, rfl, by decide, rfl⟩ fourMessages
    (by simp [fourMessages, SendCall.message])

/-- A connection with the default send buffer, on a socket that would block. -/
def stalledConnection : World Unit :=
  { smallConnection with
    socket := { smallConnection.socket with nSendBufSize := maxS2cPkgSize }
    net := ⟨[], [], [], [], []⟩ }

/-- One message of one byte more than the buffer holds is copied into it, past its end. -/
theorem long_message_out_of_bounds :
    ¬Along (sendStep idle) (SendBounds maxS2cPkgSize idle) stalledConnection
      [.sendData (List.replicate (maxS2cPkgSize + 1) 7)] := by
  have hready : Ready maxS2cPkgSize stalledConnection :=
    ⟨by decide, by decide, rfl, rfl, rfl, by decide, rfl⟩
  rintro ⟨hbounds, -⟩
  have habsorbs := (hready.stream.bounds_iff_absorbs idle (by decide) _).mp hbounds
  have hle : (List.replicate (maxS2cPkgSize + 1) (7 : UInt8)).length ≤ maxS2cPkgSize := by
    have hleft := habsorbs rfl
    rw [List.length_replicate] at hleft ⊢
    exact hleft
  rw [List.length_replicate] at hle
  exact absurd hle (by decide)

end World

end MmDriver

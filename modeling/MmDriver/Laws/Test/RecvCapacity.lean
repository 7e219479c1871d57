import MmDriver.Laws.Network.DisconnectOnce
import MmDriver.Laws.Test.NetSegmentation

/-!
# The capacity of a receive buffer

`set_buf_size` allocates `n` bytes for the receive buffer and keeps `n` in `m_nRecvBufSize`.
`recv_data` never looks at it: its limit is `max_c2s_pkg_size`, the default of `n`. So with a smaller
buffer it asks for bytes beyond the end, and with a larger one it gives up on frames that fit.

`loopReads` lists the reads of the loop with their places in the buffer. `capacity_kept_iff` says
which runs of `recv_ex` and `recv_data` keep to the capacity that was configured.
-/

namespace MmDriver

open ByteMem CallMachine Framing SocketApi

namespace World

variable {ω : Type}

/-! ## The reads and their places -/

/-- A read: where in the receive buffer it starts, for how many bytes it asks, and how many it
stores. -/
structure BufferRead where
  dst : Nat
  asked : Nat
  stored : Nat

/-- The reads of the loop of `recv_data`. -/
def loopReads (w : World ω) : List BufferRead :=
  let usBuffSize := TUint32.ofNat (SizeT.sub maxC2sPkgSize w.socket.recvBufferLen)
  if usBuffSize > 0 then
    let r := SocketApi.recvEx w.net usBuffSize
    let read : BufferRead := ⟨w.socket.recvBufferLen, usBuffSize, r.bytes.length⟩
    if r.ret > 0 then read :: loopReads (w.received r) else [read]
  else []
termination_by (streamOf w.net.recvs).length
decreasing_by
  next hread => exact SocketApi.recvEx_streamOf hread

/-- No read stores more than it asks for. -/
theorem recvEx_bytes_le (net : Net) (len : Nat) : (SocketApi.recvEx net len).bytes.length ≤ len := by
  unfold SocketApi.recvEx
  split
  · exact Nat.zero_le len
  · exact List.length_take_le len _
  · exact Nat.zero_le len
  · exact Nat.zero_le len
  · exact Nat.zero_le len

/-- What a read answers is the count of its bytes, where it is positive. -/
theorem recvEx_ret_pos {net : Net} {len : Nat} (h : (SocketApi.recvEx net len).ret > 0) :
    (SocketApi.recvEx net len).ret.toNat = (SocketApi.recvEx net len).bytes.length := by
  unfold SocketApi.recvEx at h ⊢
  split at h
  · exact absurd h (Int.not_lt.mpr ConnErrorCode.wouldBlock.toInt_nonpos)
  · exact Int.toNat_natCast _
  · exact absurd h (Int.not_lt.mpr ConnErrorCode.wouldBlock.toInt_nonpos)
  · exact absurd h (Int.lt_irrefl 0)
  · exact absurd h (Int.not_lt.mpr ConnErrorCode.unknown.toInt_nonpos)

theorem received_length {w : World ω} {len : Nat} (hlen : w.socket.recvBufferLen + len < 2 ^ 64)
    (hret : (SocketApi.recvEx w.net len).ret > 0) :
    (w.received (SocketApi.recvEx w.net len)).socket.recvBufferLen =
      w.socket.recvBufferLen + (SocketApi.recvEx w.net len).bytes.length := by
  have hcount := recvEx_ret_pos hret
  have hbytes := recvEx_bytes_le w.net len
  rw [received, hcount]
  exact SizeT.add_eq (by omega)

/-- A read that answers nothing stores nothing. -/
theorem recvEx_bytes_eq_nil {net : Net} {len : Nat} (h : ¬(SocketApi.recvEx net len).ret > 0) :
    (SocketApi.recvEx net len).bytes = [] := by
  unfold SocketApi.recvEx at h ⊢
  split at h
  · rfl
  · exact List.length_eq_zero_iff.mp (by simpa using h)
  · rfl
  · rfl
  · rfl

/-- Each read goes on where the one before ended. -/
theorem loopReads_isChain {w : World ω} (hlen : w.socket.recvBufferLen ≤ maxC2sPkgSize) :
    ((loopReads w).IsChain fun r r' => r'.dst = r.dst + r.stored) ∧
      ∀ r ∈ (loopReads w).head?, r.dst = w.socket.recvBufferLen := by
  have hmax : maxC2sPkgSize = 5120 := rfl
  fun_induction loopReads w with
  | case1 w usBuffSize hroom answer read hret ih =>
    have husBuffSize : usBuffSize = maxC2sPkgSize - w.socket.recvBufferLen := usBuffSize_eq hlen
    have hbytes := recvEx_bytes_le w.net usBuffSize
    have hnext : (w.received answer).socket.recvBufferLen = read.dst + read.stored :=
      received_length (by omega) hret
    have hstored : read.stored ≤ usBuffSize := hbytes
    have hdst : read.dst = w.socket.recvBufferLen := rfl
    obtain ⟨hchain, hhead⟩ := ih (by omega)
    rw [hnext] at hhead
    refine ⟨?_, fun r hr => Option.some.inj hr ▸ rfl⟩
    cases hreads : (w.received answer).loopReads with
    | nil => exact .singleton read
    | cons r rest =>
      rw [hreads] at hchain hhead
      exact .cons_cons (hhead r rfl) hchain
  | case2 w usBuffSize hroom answer read hret =>
    exact ⟨.singleton _, fun r hr => Option.some.inj hr ▸ rfl⟩
  | case3 w usBuffSize hroom => exact ⟨.nil, fun r hr => by cases hr⟩

/-- Together the reads store what the loop appends, where it leaves the connection. -/
theorem recvLoop_length (cb : Callbacks ω) {w : World ω}
    (hlen : w.socket.recvBufferLen ≤ maxC2sPkgSize)
    (hstop : (recvLoop cb w).1 = .wouldBlock ∨ (recvLoop cb w).1 = .recvNotEnoughBuffer) :
    (recvLoop cb w).2.socket.recvBufferLen =
      w.socket.recvBufferLen + ((loopReads w).map BufferRead.stored).sum := by
  have hmax : maxC2sPkgSize = 5120 := rfl
  fun_induction loopReads w with
  | case1 w usBuffSize hroom answer read hret ih =>
    have husBuffSize : usBuffSize = maxC2sPkgSize - w.socket.recvBufferLen := usBuffSize_eq hlen
    have hloop : recvLoop cb w = recvLoop cb (w.received answer) := by
      rw [recvLoop, if_pos hroom]
      exact if_pos hret
    have hstored : read.stored ≤ usBuffSize := recvEx_bytes_le w.net usBuffSize
    have hnext : (w.received answer).socket.recvBufferLen = w.socket.recvBufferLen + read.stored :=
      received_length (by omega) hret
    rw [hloop] at hstop ⊢
    rw [ih (by omega) hstop, hnext, List.map_cons, List.sum_cons, Nat.add_assoc]
  | case2 w usBuffSize hroom answer read hret =>
    have hstored : read.stored = 0 := congrArg List.length (recvEx_bytes_eq_nil hret)
    have hloop : recvLoop cb w = _ := recvLoop.eq_1 cb w
    rw [if_pos hroom] at hloop
    dsimp only at hloop
    rw [if_neg hret] at hloop
    rw [List.map_singleton, List.sum_singleton, hstored]
    split at hloop
    · rw [hloop] at hstop
      rcases hstop with hstop | hstop <;> cases hstop
    · split at hloop
      · rw [hloop]
        rfl
      · rw [hloop] at hstop
        rcases hstop with hstop | hstop <;> cases hstop
  | case3 w usBuffSize hroom =>
    rw [recvLoop, if_neg hroom]
    rfl

/-- Every read asks for the bytes up to `max_c2s_pkg_size`. -/
theorem loopReads_asked {w : World ω} (hlen : w.socket.recvBufferLen ≤ maxC2sPkgSize)
    {r : BufferRead} (hr : r ∈ loopReads w) :
    r.dst + r.asked = maxC2sPkgSize ∧ r.stored ≤ r.asked := by
  have hmax : maxC2sPkgSize = 5120 := rfl
  fun_induction loopReads w with
  | case1 w usBuffSize hroom answer read hret ih =>
    have husBuffSize : usBuffSize = maxC2sPkgSize - w.socket.recvBufferLen := usBuffSize_eq hlen
    have hasked : w.socket.recvBufferLen + usBuffSize = maxC2sPkgSize := by omega
    have hstored : read.stored ≤ usBuffSize := recvEx_bytes_le w.net usBuffSize
    rcases List.mem_cons.mp hr with rfl | hr
    · exact ⟨hasked, hstored⟩
    · have hnext : (w.received answer).socket.recvBufferLen = w.socket.recvBufferLen + read.stored :=
        received_length (by omega) hret
      exact ih (by omega) hr
  | case2 w usBuffSize hroom answer read hret =>
    have husBuffSize : usBuffSize = maxC2sPkgSize - w.socket.recvBufferLen := usBuffSize_eq hlen
    have hasked : w.socket.recvBufferLen + usBuffSize = maxC2sPkgSize := by omega
    rw [List.mem_singleton.mp hr]
    exact ⟨hasked, recvEx_bytes_le w.net usBuffSize⟩
  | case3 w usBuffSize hroom => exact absurd hr List.not_mem_nil

/-- A connection with room asks for what is missing to `max_c2s_pkg_size`. -/
theorem loopReads_of_room {w : World ω} (hlen : w.socket.recvBufferLen < maxC2sPkgSize) :
    ∃ r ∈ loopReads w, r.dst + r.asked = maxC2sPkgSize := by
  have hpos : maxC2sPkgSize - w.socket.recvBufferLen > 0 := Nat.sub_pos_of_lt hlen
  have hfill := Nat.add_sub_of_le (Nat.le_of_lt hlen)
  rw [loopReads, usBuffSize_eq (Nat.le_of_lt hlen), if_pos hpos]
  dsimp only
  split
  · exact ⟨_, List.mem_cons_self, hfill⟩
  · exact ⟨_, List.mem_cons_self, hfill⟩

/-! ## Calls -/

/-- What the poll loop calls. -/
inductive RecvCall where
  | recvEx
  | recvData
deriving DecidableEq, Repr

/-- One call. -/
def recvStep (cb : Callbacks ω) (w : World ω) : RecvCall → World ω × Unit
  | .recvEx => ((recvEx cb w).2, ())
  | .recvData => ((recvData cb w).2, ())

/-- The call gets as far as the socket. -/
def Reads (w : World ω) (k : RecvCall) : Prop :=
  w.socket.Live ∧ (k = .recvEx → w.socket.funOnRecvMessage = true)

instance (w : World ω) (k : RecvCall) : Decidable (Reads w k) :=
  inferInstanceAs (Decidable (_ ∧ _))

/-- The reads of a call. -/
def readsOf (w : World ω) (k : RecvCall) : List BufferRead := if Reads w k then loopReads w else []

/-! ## Frames -/

/-- A receive callback that takes whole frames: nothing before the first is complete, then at least
that one. It does not give up the connection. -/
structure CutsFrames (F : Framer UInt8) (cb : Callbacks ω) : Prop where
  waits : ∀ w m len, len < 2 ^ 31 → len < F.total (slice m 0 len) →
    (cb.onRecvMessage w (some m) len).1 = 0
  takes : ∀ w m len, len < 2 ^ 31 → F.total (slice m 0 len) ≤ len →
    F.total (slice m 0 len) ≤ (cb.onRecvMessage w (some m) len).1 ∧
      (cb.onRecvMessage w (some m) len).1 ≤ len
  stays : ∀ w m len, w.socket.Live → (cb.onRecvMessage w (some m) len).2.socket.Live

/-- What the connection has in its buffer, and what will arrive behind it. -/
def incoming (w : World ω) : List UInt8 := recvBytes w.socket ++ streamOf w.net.recvs

/-- What a connection with room for `n` bytes has when it has read. -/
def arrived (n : Nat) (w : World ω) : List UInt8 :=
  recvBytes w.socket ++ (offers w.net.recvs (n - w.socket.recvBufferLen)).bytes

/-- The first frame is at most `n` bytes long and will arrive, and a connection with room for `n`
bytes does not meet the end of the connection now. -/
structure FrameArrives (F : Framer UInt8) (n : Nat) (w : World ω) : Prop where
  stop : (offers w.net.recvs (n - w.socket.recvBufferLen)).stop = .full ∨
    (offers w.net.recvs (n - w.socket.recvBufferLen)).stop = .wouldBlock
  fits : F.total (incoming w) ≤ n
  complete : F.total (incoming w) ≤ (incoming w).length

/-- `recv_ex` accumulates the first frame until it is there, and then has it dispatched: the
callback sees it, and at least its bytes are taken. -/
structure Receives (F : Framer UInt8) (n : Nat) (cb : Callbacks ω) (w : World ω) : Prop where
  answers : (recvEx cb w).1 = true
  live : (recvEx cb w).2.socket.Live
  accumulated : (arrived n w).length < F.total (incoming w) →
    recvBytes (recvEx cb w).2.socket = arrived n w
  dispatched : F.total (incoming w) ≤ (arrived n w).length →
    (incoming w).take (F.total (incoming w)) <+: recvBytes (recvData cb w).2.socket ∧
      ∃ k, F.total (incoming w) ≤ k ∧
        recvBytes (recvEx cb w).2.socket = (recvBytes (recvData cb w).2.socket).drop k

/-! ## The property and its condition -/

/-- A call keeps to a receive buffer of `n` bytes. -/
structure CapacityKept (n : Nat) (cb : Callbacks ω) (w : World ω) (k : RecvCall) : Prop where
  reads : ∀ r ∈ readsOf w k, r.dst + r.asked ≤ n ∧ r.dst + r.stored ≤ n
  lengthRead : Reads w k → (recvData cb w).2.socket.recvBufferLen ≤ n
  length : (recvStep cb w k).1.socket.recvBufferLen ≤ n
  frames : k = .recvEx → Reads w k → ∀ F, CutsFrames F cb → FrameArrives F n w → Receives F n cb w

/-- A call that reads has at least `max_c2s_pkg_size` bytes of buffer, and when so many are there,
the first frame is not longer. -/
structure FitsPkgSize (n : Nat) (cb : Callbacks ω) (w : World ω) (k : RecvCall) : Prop where
  capacity : Reads w k → maxC2sPkgSize ≤ n
  frames : k = .recvEx → Reads w k → ∀ F, CutsFrames F cb → FrameArrives F n w →
    maxC2sPkgSize ≤ (arrived n w).length → F.total (incoming w) ≤ maxC2sPkgSize

/-- With the default size every call does. -/
theorem fitsPkgSize_default (cb : Callbacks ω) (w : World ω) (k : RecvCall) :
    FitsPkgSize maxC2sPkgSize cb w k :=
  ⟨fun _ => Nat.le_refl _, fun _ _ _ _ harrives _ => harrives.fits⟩

/-! ## What a call keeps -/

/-- Between two calls: a read has room up to `max_c2s_pkg_size`, no more than `n` bytes are there,
and a connection to read from has a buffer. -/
structure Sound (n : Nat) (w : World ω) : Prop where
  room : w.socket.recvBufferLen ≤ maxC2sPkgSize
  length : w.socket.recvBufferLen ≤ n
  allocated : w.socket.Live → w.socket.recvBuffer.isSome

section Step

variable {n : Nat} {cb : Callbacks ω} {w : World ω}

theorem sound_of_new (h : w.socket = ClientSocket.new) : Sound n w := by
  constructor
  · rw [h]
    exact Nat.zero_le _
  · rw [h]
    exact Nat.zero_le _
  · rw [h]
    exact fun hlive => absurd hlive (by decide)

theorem disconnect_socket (cb : Callbacks ω) (w : World ω) :
    (disconnect cb w).socket = ClientSocket.new := rfl

/-- The buffer when `recv_data` stops. -/
theorem Sound.atStop (h : Sound n w) (hn : maxC2sPkgSize ≤ n) (hlive : w.socket.Live) :
    Sound n w.atStop ∧ w.atStop.socket.Live := by
  have hread := offers_length_le w.net.recvs (maxC2sPkgSize - w.socket.recvBufferLen)
  have hlen : w.atStop.socket.recvBufferLen ≤ maxC2sPkgSize := by
    have hroom := h.room
    simp only [World.atStop, gathered]
    omega
  refine ⟨⟨hlen, Nat.le_trans hlen hn, fun _ => ?_⟩, hlive⟩
  simpa only [World.atStop, gathered, Option.isSome_map] using h.allocated hlive

theorem Sound.stopped (h : Sound n w) (stop : RecvStop) : Sound n (stopped cb w stop).2 := by
  cases stop with
  | full => exact h
  | wouldBlock => exact h
  | closed => exact sound_of_new (disconnect_socket cb w)
  | error => exact sound_of_new (disconnect_socket cb w)

theorem Sound.recvData (h : Sound n w) (hn : w.socket.Live → maxC2sPkgSize ≤ n) :
    Sound n (recvData cb w).2 := by
  by_cases hlive : w.socket.Live
  · rw [recvData_eq cb hlive h.room]
    exact (h.atStop (hn hlive) hlive).1.stopped w.stopOf
  · rw [World.recvData, if_neg hlive]
    exact h

theorem SendOnly.recvSide {c c' : ClientSocket} (h : SendOnly c c') :
    c'.recvBuffer = c.recvBuffer ∧ c'.recvBufferLen = c.recvBufferLen ∧ (c'.Live ↔ c.Live) := by
  rw [h]
  exact ⟨rfl, rfl, Iff.rfl⟩

theorem Sound.leaves (h : Sound n w) {w' : World ω} (hleaves : LeavesReceiving w w') :
    Sound n w' := by
  rcases hleaves with hnew | ⟨hsend, -⟩
  · exact sound_of_new hnew
  · obtain ⟨hbuffer, hlen, hlive⟩ := hsend.recvSide
    exact ⟨hlen ▸ h.room, hlen ▸ h.length, fun hl => hbuffer ▸ h.allocated (hlive.mp hl)⟩

theorem Sound.consumed (h : Sound n w) {k : Nat} (hk : k ≤ w.socket.recvBufferLen) :
    Sound n (w.consumed k) := by
  have hmax : maxC2sPkgSize = 5120 := rfl
  have hroom := h.room
  have hleft : SizeT.sub w.socket.recvBufferLen k = w.socket.recvBufferLen - k :=
    SizeT.sub_eq hk (by omega)
  have hle : (w.consumed k).socket.recvBufferLen ≤ w.socket.recvBufferLen := by
    simp only [World.consumed, hleft]
    exact Nat.sub_le _ _
  refine ⟨Nat.le_trans hle h.room, Nat.le_trans hle h.length, fun hlive => ?_⟩
  simpa only [World.consumed, Option.isSome_map] using h.allocated hlive

/-- Whatever the callback answers: no more is taken than is there. -/
theorem Sound.afterCallback (h : Sound n w) (iRet : ConnErrorCode) (nReadLen : Int) :
    Sound n (afterCallback cb iRet nReadLen w).2 := by
  have hmax : maxC2sPkgSize = 5120 := rfl
  have hroom := h.room
  unfold World.afterCallback
  split
  · exact sound_of_new (disconnect_socket cb w)
  · split
    · exact h
    · split
      · exact h
      · next hmore =>
        rw [TInt32.ofNat_eq (by omega)] at hmore
        exact h.consumed (by omega)

theorem Sound.recvEx (hcb : ∀ w m len, LeavesReceiving w (cb.onRecvMessage w m len).2)
    (h : Sound n w) (hn : Reads w .recvEx → maxC2sPkgSize ≤ n) : Sound n (recvEx cb w).2 := by
  cases hinstalled : w.socket.funOnRecvMessage with
  | false =>
    rw [World.recvEx, if_pos hinstalled]
    exact h
  | true =>
    have hdata : Sound n (World.recvData cb w).2 :=
      h.recvData fun hlive => hn ⟨hlive, fun _ => hinstalled⟩
    rw [World.recvEx, if_neg (by rw [hinstalled]; decide)]
    generalize World.recvData cb w = r at hdata
    dsimp only
    split
    · exact (hdata.leaves (hcb _ _ _)).afterCallback _ _
    · exact sound_of_new (disconnect_socket cb r.2)

theorem Sound.step (hcb : ∀ w m len, LeavesReceiving w (cb.onRecvMessage w m len).2)
    (h : Sound n w) {k : RecvCall} (hn : Reads w k → maxC2sPkgSize ≤ n) :
    Sound n (recvStep cb w k).1 := by
  cases k with
  | recvEx => exact h.recvEx hcb hn
  | recvData => exact h.recvData fun hlive => hn ⟨hlive, RecvCall.noConfusion⟩

/-! ## What the callback sees -/

variable {F : Framer UInt8}

theorem incoming_eq (n : Nat) (w : World ω) :
    incoming w =
      arrived n w ++ streamOf (offers w.net.recvs (n - w.socket.recvBufferLen)).rest := by
  rw [incoming, arrived, List.append_assoc, offers_streamOf]

/-- `recv_data` stops after `max_c2s_pkg_size` bytes. -/
theorem Sound.seen (h : Sound n w) (hn : maxC2sPkgSize ≤ n) (hlive : w.socket.Live) :
    recvBytes w.atStop.socket = (arrived n w).take maxC2sPkgSize := by
  have hlen := recvBytes_length w.socket
  have hroom := h.room
  rw [World.atStop, recvBytes_gathered (h.allocated hlive), arrived, List.take_append,
    List.take_of_length_le (by rw [hlen]; exact hroom), hlen,
    offers_bytes_take _ (Nat.sub_le_sub_right hn w.socket.recvBufferLen)]

theorem Sound.stopOf_full_iff (h : Sound n w) (hn : maxC2sPkgSize ≤ n) :
    w.stopOf = .full ↔ maxC2sPkgSize ≤ (arrived n w).length := by
  have hlen := recvBytes_length w.socket
  have hroom := h.room
  rw [stopOf, offers_full_iff, offers_bytes_take _ (Nat.sub_le_sub_right hn w.socket.recvBufferLen),
    List.length_take, arrived, List.length_append, hlen]
  omega

/-- With less than that the socket would block. -/
theorem FrameArrives.stopOf (harrives : FrameArrives F n w) (h : Sound n w)
    (hn : maxC2sPkgSize ≤ n) (hshort : (arrived n w).length < maxC2sPkgSize) :
    w.stopOf = .wouldBlock := by
  have hnotFull : w.stopOf ≠ .full := fun hfull =>
    absurd ((h.stopOf_full_iff hn).mp hfull) (Nat.not_le_of_lt hshort)
  have hlen := recvBytes_length w.socket
  rw [arrived, List.length_append, hlen] at hshort
  have hsame : offers w.net.recvs (maxC2sPkgSize - w.socket.recvBufferLen) =
      offers w.net.recvs (n - w.socket.recvBufferLen) :=
    offers_of_length_lt (Nat.sub_le_sub_right hn _) (by omega)
  have hstop := harrives.stop
  rw [← hsame] at hstop
  exact hstop.resolve_left hnotFull

/-- `recv_ex` has called the callback on `seen`, and goes on with its answer `a` in `w'`. -/
structure Called (F : Framer UInt8) (cb : Callbacks ω) (w : World ω) (seen : List UInt8) (a : Int)
    (w' : World ω) : Prop where
  eq : recvEx cb w =
    afterCallback cb (if w.stopOf = .full then .recvNotEnoughBuffer else .wouldBlock) a w'
  live : w'.socket.Live
  allocated : w'.socket.recvBuffer.isSome
  bytes : recvBytes w'.socket = seen
  waits : seen.length < F.total seen → a = 0
  takes : F.total seen ≤ seen.length → F.total seen ≤ a ∧ a ≤ seen.length

theorem Sound.called (hcb : ∀ w m len, LeavesReceiving w (cb.onRecvMessage w m len).2)
    (h : Sound n w) (hn : maxC2sPkgSize ≤ n) (hreads : Reads w .recvEx) (hcuts : CutsFrames F cb)
    (hstop : w.stopOf = .full ∨ w.stopOf = .wouldBlock) :
    ∃ a w', Called F cb w (recvBytes w.atStop.socket) a w' := by
  obtain ⟨hstopped, hlive⟩ := h.atStop hn hreads.1
  obtain ⟨m, hm⟩ := Option.isSome_iff_exists.mp (hstopped.allocated hlive)
  have hlen := recvBytes_length w.atStop.socket
  have hshort : w.atStop.socket.recvBufferLen < 2 ^ 31 :=
    Nat.lt_of_le_of_lt hstopped.room (by decide)
  have hbytes : slice m 0 w.atStop.socket.recvBufferLen = recvBytes w.atStop.socket := by
    rw [recvBytes, hm, Option.getD_some]
  have heq := recvEx_calls cb hreads.1 h.room (hreads.2 rfl) hstop
  have hwaits := hcuts.waits w.atStop m _ hshort
  have htakes := hcuts.takes w.atStop m _ hshort
  have hstays := hcuts.stays w.atStop m w.atStop.socket.recvBufferLen hlive
  have hleaves := hcb w.atStop (some m) w.atStop.socket.recvBufferLen
  rw [hbytes] at hwaits htakes
  rw [hm] at heq
  generalize cb.onRecvMessage w.atStop (some m) w.atStop.socket.recvBufferLen = read at *
  obtain ⟨a, w'⟩ := read
  rcases hleaves with hnew | ⟨hsend, -⟩
  · -- a closed connection is not live
    rw [hnew] at hstays
    exact absurd hstays (by decide)
  · obtain ⟨hbuffer, hsame, -⟩ := hsend.recvSide
    refine ⟨a, w', heq, hstays, ?_, ?_, ?_, ?_⟩
    · rw [hbuffer, hm]
      rfl
    · rw [recvBytes, recvBytes, hbuffer, hsame]
    · rwa [hlen]
    · rwa [hlen]

/-- The callback waits in a full buffer: the connection is given up. -/
theorem Called.gives_up {seen : List UInt8} {a : Int} {w' : World ω}
    (hcalled : Called F cb w seen a w') (hfull : w.stopOf = .full)
    (hshort : seen.length < F.total seen) : (recvEx cb w).1 = false := by
  rw [hcalled.eq, if_pos hfull, hcalled.waits hshort, afterCallback, if_pos (.inr ⟨rfl, rfl⟩)]

/-- The callback waits, and the socket would block. -/
theorem Called.accumulates {seen : List UInt8} {a : Int} {w' : World ω}
    (hcalled : Called F cb w seen a w') (hblock : w.stopOf = .wouldBlock)
    (hshort : seen.length < F.total seen) : recvEx cb w = (true, w') := by
  have hnot : ¬((0 : Int) < 0 ∨ (0 : Int) = 0 ∧
      ConnErrorCode.wouldBlock = .recvNotEnoughBuffer) := by
    rintro (hneg | ⟨-, hcode⟩)
    · exact absurd hneg (by decide)
    · exact ConnErrorCode.noConfusion hcode
  rw [hcalled.eq, hblock, if_neg RecvStop.noConfusion, hcalled.waits hshort, afterCallback,
    if_neg hnot, if_pos rfl]

/-- The callback takes what is complete. -/
theorem Called.dispatches {seen : List UInt8} {a : Int} {w' : World ω}
    (hcalled : Called F cb w seen a w') (hlen : seen.length ≤ maxC2sPkgSize)
    (hcomplete : F.total seen ≤ seen.length) :
    ∃ k, F.total seen ≤ k ∧ recvEx cb w = (true, w'.consumed k) ∧
      recvBytes (w'.consumed k).socket = seen.drop k := by
  have hmax : maxC2sPkgSize = 5120 := rfl
  have hpos := F.head_pos
  have hhead := F.head_le seen
  obtain ⟨hlow, hhigh⟩ := hcalled.takes hcomplete
  have hseen : w'.socket.recvBufferLen = seen.length := by
    rw [← hcalled.bytes, recvBytes_length]
  obtain ⟨k, rfl⟩ := Int.eq_ofNat_of_zero_le (show 0 ≤ a by omega)
  refine ⟨k, Int.ofNat_le.mp hlow, ?_, ?_⟩
  · have hnot : ¬((k : Int) < 0 ∨ (k : Int) = 0 ∧
        (if w.stopOf = .full then ConnErrorCode.recvNotEnoughBuffer else .wouldBlock) =
          .recvNotEnoughBuffer) := by omega
    rw [hcalled.eq, afterCallback, if_neg hnot, if_neg (by omega),
      if_neg (by rw [hseen, TInt32.ofNat_eq (by omega)]; omega), Int.toNat_natCast]
  · rw [recvBytes_consumed hcalled.allocated (by omega) (by omega), hcalled.bytes]

/-! ## One call -/

/-- What the callback sees is a first part of what is coming. -/
theorem seen_append (n : Nat) (w : World ω) :
    (arrived n w).take maxC2sPkgSize ++ ((arrived n w).drop maxC2sPkgSize ++
      streamOf (offers w.net.recvs (n - w.socket.recvBufferLen)).rest) = incoming w := by
  rw [← List.append_assoc, List.take_append_drop, ← incoming_eq]

section Frames

variable (hcb : ∀ w m len, LeavesReceiving w (cb.onRecvMessage w m len).2) (h : Sound n w)
  (hn : maxC2sPkgSize ≤ n) (hreads : Reads w .recvEx) (hcuts : CutsFrames F cb)

include hcb h hn hreads hcuts

/-- A frame that is not longer than `max_c2s_pkg_size`, or of which so much is not yet there, is
received. -/
theorem receives (harrives : FrameArrives F n w) (hfits : maxC2sPkgSize ≤ (arrived n w).length →
    F.total (incoming w) ≤ maxC2sPkgSize) : Receives F n cb w := by
  have hlive := hreads.1
  have hseen := h.seen hn hlive
  have hdata : (recvData cb w).2.socket = w.atStop.socket ∨ w.stopOf ≠ .full ∧
      w.stopOf ≠ .wouldBlock := by
    rw [recvData_eq cb hlive h.room]
    cases w.stopOf with
    | full => exact .inl rfl
    | wouldBlock => exact .inl rfl
    | closed => exact .inr ⟨RecvStop.noConfusion, RecvStop.noConfusion⟩
    | error => exact .inr ⟨RecvStop.noConfusion, RecvStop.noConfusion⟩
  have hstop : w.stopOf = .full ∨ w.stopOf = .wouldBlock := by
    rcases Nat.lt_or_ge (arrived n w).length maxC2sPkgSize with hshort | hlong
    · exact .inr (harrives.stopOf h hn hshort)
    · exact .inl ((h.stopOf_full_iff hn).mpr hlong)
  have hsocket : (recvData cb w).2.socket = w.atStop.socket :=
    hdata.resolve_right fun hnone => hstop.elim hnone.1 hnone.2
  obtain ⟨a, w', hcalled⟩ := h.called hcb hn hreads hcuts hstop
  rw [hseen] at hcalled
  have happend := seen_append n w
  rcases Nat.lt_or_ge (arrived n w).length (F.total (incoming w)) with hwait | hdone
  · -- the frame is not there yet, and there is room for the rest
    have hshort : (arrived n w).length < maxC2sPkgSize := Nat.lt_of_not_le fun hlong =>
      absurd (Nat.le_trans (hfits hlong) hlong) (Nat.not_le_of_lt hwait)
    have htake : (arrived n w).take maxC2sPkgSize = arrived n w :=
      List.take_of_length_le (Nat.le_of_lt hshort)
    rw [htake] at hcalled happend
    have heq := hcalled.accumulates (harrives.stopOf h hn hshort)
      (Framer.lt_total_of_append (happend.symm ▸ hwait))
    refine ⟨by rw [heq], by rw [heq]; exact hcalled.live, fun _ => by rw [heq]; exact hcalled.bytes,
      fun hle => absurd hle (Nat.not_le_of_lt hwait)⟩
  · -- the frame is there, in the part that was read
    have hle : F.total (incoming w) ≤ ((arrived n w).take maxC2sPkgSize).length := by
      rw [List.length_take]
      refine Nat.le_min.mpr ⟨?_, hdone⟩
      rcases Nat.lt_or_ge (arrived n w).length maxC2sPkgSize with hshort | hlong
      · exact Nat.le_trans hdone (Nat.le_of_lt hshort)
      · exact hfits hlong
    have htotal : F.total ((arrived n w).take maxC2sPkgSize) = F.total (incoming w) := by
      have hknown := Framer.total_of_append_le (happend.symm ▸ hle)
      rwa [happend] at hknown
    obtain ⟨k, hk, heq, hleft⟩ :=
      hcalled.dispatches (List.length_take_le _ _) (htotal.symm ▸ hle)
    refine ⟨by rw [heq], by rw [heq]; exact hcalled.live,
      fun hlt => absurd hdone (Nat.not_le_of_lt hlt), fun _ => ?_⟩
    rw [hsocket, hseen, heq]
    refine ⟨?_, k, htotal ▸ hk, hleft⟩
    rw [← happend, List.take_append_of_le_length (by rwa [happend])]
    exact List.take_prefix _ _

/-- A longer frame of which `max_c2s_pkg_size` bytes are there ends the connection. -/
theorem fits_of_receives (hreceives : Receives F n cb w)
    (hlong : maxC2sPkgSize ≤ (arrived n w).length) :
    F.total (incoming w) ≤ maxC2sPkgSize := by
  rcases Nat.lt_or_ge maxC2sPkgSize (F.total (incoming w)) with hover | hle
  · have hfull := (h.stopOf_full_iff hn).mpr hlong
    obtain ⟨a, w', hcalled⟩ := h.called hcb hn hreads hcuts (.inl hfull)
    rw [h.seen hn hreads.1] at hcalled
    have hseen : ((arrived n w).take maxC2sPkgSize).length = maxC2sPkgSize :=
      List.length_take_of_le hlong
    obtain ⟨rest, hrest⟩ : (arrived n w).take maxC2sPkgSize <+: incoming w := ⟨_, seen_append n w⟩
    have hwaits : ((arrived n w).take maxC2sPkgSize).length <
        F.total ((arrived n w).take maxC2sPkgSize) := by
      refine Framer.lt_total_of_append (t := rest) ?_
      rwa [hrest, hseen]
    have hfalse := hcalled.gives_up hfull hwaits
    rw [hreceives.answers] at hfalse
    exact absurd hfalse (by decide)
  · exact hle

end Frames

/-- A read with room asks for more than a smaller buffer has. -/
theorem not_kept_of_small {k : RecvCall} (hreads : Reads w k)
    (hroom : w.socket.recvBufferLen < maxC2sPkgSize) (hn : n < maxC2sPkgSize) :
    ¬CapacityKept n cb w k := by
  intro hkept
  obtain ⟨r, hr, hasked⟩ := loopReads_of_room hroom
  have hle := (hkept.reads r (by rwa [readsOf, if_pos hreads])).1
  rw [hasked] at hle
  exact absurd hn (Nat.not_lt_of_le hle)

/-- One call keeps to the capacity exactly under the condition. -/
theorem Sound.kept_iff (hcb : ∀ w m len, LeavesReceiving w (cb.onRecvMessage w m len).2)
    (h : Sound n w) (k : RecvCall) : CapacityKept n cb w k ↔ FitsPkgSize n cb w k := by
  constructor
  · intro hkept
    have hcapacity : Reads w k → maxC2sPkgSize ≤ n := by
      intro hreads
      rcases Nat.lt_or_ge w.socket.recvBufferLen maxC2sPkgSize with hroom | hfull
      · exact Nat.le_of_not_lt fun hsmall => not_kept_of_small hreads hroom hsmall hkept
      · exact Nat.le_trans hfull h.length
    refine ⟨hcapacity, fun hk hreads F hcuts harrives => ?_⟩
    exact fits_of_receives hcb h (hcapacity hreads) (hk ▸ hreads) hcuts
      (hkept.frames hk hreads F hcuts harrives)
  · intro hfits
    refine ⟨fun r hr => ?_, fun hreads => ?_, (h.step hcb hfits.capacity).length,
      fun hk hreads F hcuts harrives => ?_⟩
    · by_cases hreads : Reads w k
      · rw [readsOf, if_pos hreads] at hr
        obtain ⟨hasked, hstored⟩ := loopReads_asked h.room hr
        have hn := hfits.capacity hreads
        exact ⟨by omega, by omega⟩
      · rw [readsOf, if_neg hreads] at hr
        exact absurd hr List.not_mem_nil
    · exact (h.recvData fun _ => hfits.capacity hreads).length
    · exact receives hcb h (hfits.capacity hreads) (hk ▸ hreads) hcuts harrives
        (hfits.frames hk hreads F hcuts harrives)

end Step

/-! ## Runs -/

/-- **Receive capacity, over every run.** After `set_buf_size(n, m)` on an empty connection, the
calls keep to `n` bytes exactly when each that reads has `max_c2s_pkg_size` bytes of buffer or more
and finds no frame that is longer, once so many bytes are there. -/
theorem capacity_kept_iff {cb : Callbacks ω}
    (hcb : ∀ w m len, LeavesReceiving w (cb.onRecvMessage w m len).2) (w : World ω)
    (hempty : w.socket.recvBufferLen = 0) (n m : Nat) (recvMem sendMem : Memory)
    (ks : List RecvCall) :
    let sized := { w with socket := w.socket.setBufSize n m recvMem sendMem }
    Along (recvStep cb) (CapacityKept n cb) sized ks ↔
      Along (recvStep cb) (FitsPkgSize n cb) sized ks := by
  intro sized
  have hlen : sized.socket.recvBufferLen = 0 := hempty
  have hstart : Sound n sized :=
    ⟨hlen ▸ Nat.zero_le _, hlen ▸ Nat.zero_le _, fun _ => rfl⟩
  refine Along.congr_invariant (Sound n) (fun _ => True) ?_ ?_ hstart fun _ _ => trivial
  · exact fun w k _ h hfits => h.step hcb hfits.capacity
  · exact fun w k _ h => h.kept_iff hcb k

end World

/-! ## `NetService` -/

open World NetService

variable {σ : Type}

/-- `OnRecvMessage` leaves the connection alone. -/
theorem Session.callbacks_leavesReceiving (h : Handlers σ) (w : World (Session σ))
    (m : Option Memory) (len : Nat) :
    LeavesReceiving w ((Session.callbacks h).onRecvMessage w m len).2 := by
  have hleaves : ∀ (a : Int) (app : Session σ), LeavesReceiving w (a, { w with app := app }).2 :=
    fun a app => .inr ⟨SendOnly.refl w.socket, rfl⟩
  rw [Session.callbacks_onRecvMessage]
  exact hleaves _ _

/-- `OnRecvMessage` takes whole packets. -/
theorem Session.callbacks_cutsFrames (h : Handlers σ) :
    CutsFrames packetFramer (Session.callbacks h) := by
  have hret : ∀ (w : World (Session σ)) m len, len < 2 ^ 31 →
      ((Session.callbacks h).onRecvMessage w (some m) len).1 =
        ((len - (packetFramer.tail (slice m 0 len)).length : Nat) : Int) := by
    intro w m len hlen
    have hs : slice m 0 (slice m 0 len).length = slice m 0 len := by rw [slice_length]
    have heq := (@onRecvMessage_eq w.app.svc w.app.conn m 0 (slice m 0 len) hs
      (by rwa [slice_length])).1
    rwa [slice_length] at heq
  have hlives : ∀ (w : World (Session σ)) (a : Int) (app : Session σ), w.socket.Live →
      (a, { w with app := app }).2.socket.Live := fun w a app hlive => hlive
  constructor
  · intro w m len hlen hwaits
    have htail : packetFramer.tail (slice m 0 len) = slice m 0 len :=
      Framer.tail_of_lt (by rwa [slice_length])
    rw [hret w m len hlen, htail, slice_length, Nat.sub_self]
    rfl
  · intro w m len hlen hcomplete
    have htail : packetFramer.tail (slice m 0 len) = _ :=
      Framer.tail_of_le (by rwa [slice_length])
    have hle := packetFramer.tail_length_le
      ((slice m 0 len).drop (packetFramer.total (slice m 0 len)))
    rw [List.length_drop, slice_length] at hle
    rw [hret w m len hlen, htail]
    omega
  · intro w m len hlive
    rw [Session.callbacks_onRecvMessage]
    exact hlives w _ _ hlive

namespace World

/-- The connection of `cutConnection`, after `set_buf_size(n)`. -/
def sizedConnection (n : Nat) : World (Session Unit) :=
  { cutConnection with
    socket := cutConnection.socket.setBufSize n maxS2cPkgSize (fun _ => 0) fun _ => 0 }

theorem capacity_kept_iff_run :
    let cb := Session.callbacks idleHandlers
    Along (recvStep cb) (CapacityKept maxC2sPkgSize cb) (sizedConnection maxC2sPkgSize)
        [.recvEx, .recvEx] ↔
      Along (recvStep cb) (FitsPkgSize maxC2sPkgSize cb) (sizedConnection maxC2sPkgSize)
        [.recvEx, .recvEx] :=
  capacity_kept_iff (Session.callbacks_leavesReceiving idleHandlers) cutConnection rfl
    maxC2sPkgSize maxS2cPkgSize _ _ _

/-- With a buffer of 4096 bytes, the first read asks for 5120. -/
theorem small_buffer_overrun :
    let cb := Session.callbacks idleHandlers
    ¬Along (recvStep cb) (CapacityKept 4096 cb) (sizedConnection 4096) [.recvEx] := by
  intro cb h
  have hreads : Reads (sizedConnection 4096) .recvEx := ⟨⟨rfl, by decide⟩, fun _ => rfl⟩
  have hroom : (sizedConnection 4096).socket.recvBufferLen < maxC2sPkgSize :=
    show 0 < maxC2sPkgSize by decide
  exact not_kept_of_small hreads hroom (by decide) h.1

end World

end MmDriver

import MmDriver.Laws.Test.NetSegmentation

/-!
# The peer closes

`recv_data` reads on until the socket would block, the buffer is full or the peer has closed, and
only then does `recv_ex` call the receive callback; when the last read met the close, it does not
call it at all. So a frame is lost when the call that completes it also meets the close, and, as
always, when it does not fit the buffer. `Phase` follows a connection up to its end;
`delivered_iff` says that nothing else is lost.
-/

namespace MmDriver

open ByteMem Framing SocketApi NetService

/-! ## Scripts that end with a close -/

/-- Arriving bytes and waits, and then the peer's close. -/
def ClosesAtEnd : List RecvEvent → Prop
  | [] => False
  | .data _ _ :: later => ClosesAtEnd later
  | .wouldBlock :: later => ClosesAtEnd later
  | .closed :: later => later = []
  | .error :: _ => False

theorem closesAtEnd_append {evs : List RecvEvent} (h : Quiet evs) :
    ClosesAtEnd (evs ++ [.closed]) := by
  induction evs with
  | nil => rfl
  | cons e later ih =>
    have hlater : Quiet later :=
      ⟨fun hm => h.1 (List.mem_cons_of_mem e hm), fun hm => h.2 (List.mem_cons_of_mem e hm)⟩
    cases e with
    | data b bs => exact ih hlater
    | wouldBlock => exact ih hlater
    | closed => exact absurd List.mem_cons_self h.1
    | error => exact absurd List.mem_cons_self h.2

theorem streamOf_append_closed (evs : List RecvEvent) :
    streamOf (evs ++ [.closed]) = streamOf evs := by
  induction evs with
  | nil => rfl
  | cons e later ih =>
    cases e with
    | data b bs => exact congrArg (b :: bs ++ ·) ih
    | wouldBlock => exact ih
    | closed => exact ih
    | error => exact ih

theorem closesAtEnd_unread (bs : List UInt8) {later : List RecvEvent} (h : ClosesAtEnd later) :
    ClosesAtEnd (unread bs later) := by
  cases bs with
  | nil => exact h
  | cons b bs => exact h

/-- Reading does not change how a script ends; a reading that meets the close is at its end. -/
theorem ClosesAtEnd.offers {evs : List RecvEvent} (h : ClosesAtEnd evs) (room : Nat) :
    ClosesAtEnd (offers evs room).rest ∧ (offers evs room).stop ≠ .error ∧
      ((offers evs room).stop = .closed → streamOf (offers evs room).rest = []) := by
  induction evs generalizing room with
  | nil => exact h.elim
  | cons e later ih =>
    unfold MmDriver.offers
    split
    · exact ⟨h, RecvStop.noConfusion, fun hstop => absurd hstop RecvStop.noConfusion⟩
    · cases e with
      | data b bs =>
        dsimp only
        split
        · exact ih h _
        · exact ⟨closesAtEnd_unread _ h, RecvStop.noConfusion,
            fun hstop => absurd hstop RecvStop.noConfusion⟩
      | wouldBlock =>
        exact ⟨h, RecvStop.noConfusion, fun hstop => absurd hstop RecvStop.noConfusion⟩
      | closed =>
        have hnil : later = [] := h
        subst hnil
        exact ⟨rfl, RecvStop.noConfusion, fun _ => rfl⟩
      | error => exact h.elim

theorem ClosesAtEnd.work_pos {evs : List RecvEvent} (h : ClosesAtEnd evs) : 0 < work evs := by
  cases evs with
  | nil => exact h.elim
  | cons e later => cases e <;> simp only [work] <;> omega

/-! ## The phases of a connection -/

variable {σ : Type}

/-- A connection was lost after the bytes `read`: their frames are taken and dispatched, and the
disconnect callback was the last. -/
structure Gone (svc : NetService) (w : World (Session σ)) (read : List UInt8) : Prop where
  socket : w.socket = ClientSocket.new
  taken : w.app.taken = (packetFramer.frames read).flatten
  log : w.app.log = (svc.packetsOf (packetFramer.frames read)).map .packet ++ [.disconnect]

/-- A connection that still receives the stream `s`, of which it has read a first part. -/
structure Open (svc : NetService) (s : List UInt8) (w : World (Session σ)) (read : List UInt8) :
    Prop where
  receiving : Receiving svc [] w read
  notify : w.socket.funOnDisConnect = true
  closes : ClosesAtEnd w.net.recvs
  stream : read ++ streamOf w.net.recvs = s
  fits : ∀ f ∈ packetFramer.frames read, f.length ≤ maxC2sPkgSize

variable (h : Handlers σ) {svc : NetService} {s read : List UInt8} {w : World (Session σ)}

/-- A connection that was lost stays as it is. -/
theorem recvEx_gone (hw : w.socket = ClientSocket.new) :
    (World.recvEx (Session.callbacks h) w).2 = w := by
  have hnone : w.socket.funOnRecvMessage = false := by rw [hw]; rfl
  rw [World.recvEx, if_pos hnone]

/-- The frames a call completes all fitted the buffer. -/
theorem Open.fits_after (hw : Open svc s w read) :
    ∀ f ∈ packetFramer.frames (read ++ readOf w), f.length ≤ maxC2sPkgSize := by
  intro f hf
  rw [Framer.frames_append] at hf
  rcases List.mem_append.mp hf with hold | hnew
  · exact hw.fits f hold
  · refine Nat.le_trans ?_ hw.receiving.atStop_length
    exact Framer.length_le_of_mem hnew

/-- The complete frames in the buffer followed by what the next call of `recv_ex` reads. When that
call meets the close, these are lost. -/
def droppedBy (w : World (Session σ)) : List (List UInt8) :=
  packetFramer.frames (recvBytes w.socket ++ readOf w)

theorem Open.droppedBy_eq (hw : Open svc s w read) :
    droppedBy w = packetFramer.frames (packetFramer.tail read ++ readOf w) := by
  rw [droppedBy, hw.receiving.buffer]

/-- One call of an open connection: it goes on, with less to come; or it meets the close; or the
buffer is full of an incomplete frame. -/
theorem Open.recvEx (hw : Open svc s w read) :
    (Open svc s (World.recvEx (Session.callbacks h) w).2 (read ++ readOf w) ∧
        work (World.recvEx (Session.callbacks h) w).2.net.recvs ≤ work w.net.recvs - 1 ∧
        Continues w) ∨
      (w.stopOf = .closed ∧ Gone svc (World.recvEx (Session.callbacks h) w).2 read ∧
        packetFramer.frames s = packetFramer.frames read ++ droppedBy w) ∨
      (w.stopOf = .full ∧ droppedBy w = [] ∧
        Gone svc (World.recvEx (Session.callbacks h) w).2 read ∧
        ((∀ f ∈ packetFramer.frames s, f.length ≤ maxC2sPkgSize) →
          packetFramer.frames s = packetFramer.frames read)) := by
  obtain ⟨hcloses, hnoError, hend⟩ := hw.closes.offers (maxC2sPkgSize - w.socket.recvBufferLen)
  have hread := hw.stream
  rw [← offers_streamOf w.net.recvs (maxC2sPkgSize - w.socket.recvBufferLen),
    ← List.append_assoc] at hread
  have hread' : read ++ readOf w ++ streamOf (restOf w) = s := hread
  have hbytes := hw.receiving.atStop_bytes.1
  have hgo : Continues w → Open svc s (World.recvEx (Session.callbacks h) w).2 (read ++ readOf w) ∧
      work (World.recvEx (Session.callbacks h) w).2.net.recvs ≤ work w.net.recvs - 1 ∧
      Continues w := by
    intro hc
    obtain ⟨hnext, hnet, hnotify⟩ := hw.receiving.continues h hc
    have hrecvs : (World.recvEx (Session.callbacks h) w).2.net.recvs = restOf w :=
      congrArg Net.recvs hnet
    refine ⟨⟨hnext, hnotify.trans hw.notify, ?_, ?_, hw.fits_after⟩, ?_, hc⟩
    · rw [hrecvs]
      exact hcloses
    · rw [hrecvs]
      exact hread'
    · rw [hrecvs]
      exact offers_left_work hw.receiving hc
  cases hstop : w.stopOf with
  | wouldBlock => exact .inl (hgo (.inl hstop))
  | error => exact absurd hstop hnoError
  | closed =>
    obtain ⟨hsocket, hlog, htaken⟩ := hw.receiving.lost h (.inl hstop)
    rw [hw.notify] at hlog
    refine .inr (.inl ⟨rfl, ⟨hsocket, htaken, hlog⟩, ?_⟩)
    have hnothing : streamOf (restOf w) = [] := hend hstop
    rw [hnothing, List.append_nil] at hread'
    rw [← hread', Framer.frames_append, hw.droppedBy_eq]
  | full =>
    by_cases hnone : packetFramer.frames (recvBytes w.atStop.socket) = []
    · obtain ⟨hsocket, hlog, htaken⟩ := hw.receiving.stuck h hstop hnone
      rw [hw.notify] at hlog
      rw [hbytes] at hnone
      have hdropped := hw.droppedBy_eq.trans hnone
      refine .inr (.inr ⟨rfl, hdropped, ⟨hsocket, htaken, hlog⟩, fun hfit => ?_⟩)
      have hlong : maxC2sPkgSize ≤ (packetFramer.tail read ++ readOf w).length := by
        have hfull : (readOf w).length = maxC2sPkgSize - w.socket.recvBufferLen :=
          (offers_full_iff _ _).mp hstop
        rw [List.length_append, hfull, ← hw.receiving.length]
        omega
      have hsplit : packetFramer.frames s = packetFramer.frames read ++
          packetFramer.frames (packetFramer.tail read ++ readOf w ++ streamOf (restOf w)) := by
        rw [← hread', List.append_assoc, Framer.frames_append, List.append_assoc]
      have hrest := Framer.frames_append_eq_nil (t := streamOf (restOf w)) (by decide) hnone hlong
        fun f hf => hfit f (hsplit ▸ List.mem_append_right _ hf)
      rw [hsplit, hrest, List.append_nil]
    · exact .inl (hgo (.inr ⟨hstop, hnone⟩))

/-! ## Runs -/

/-- How a connection was lost that had read `read`: at the peer's close, with what the call had
completed; or with a full buffer. -/
def Loss (s read : List UInt8) (w : World (Session σ)) : Prop :=
  (w.stopOf = .closed ∧ packetFramer.frames s = packetFramer.frames read ++ droppedBy w) ∨
    ((∀ f ∈ packetFramer.frames s, f.length ≤ maxC2sPkgSize) →
      packetFramer.frames s = packetFramer.frames read)

/-- After `n` calls the connection is open, with less and less to come, or it was lost in one of
them. -/
theorem recvRun_phase (hw : Open svc s w []) (n : Nat) :
    (∃ read, Open svc s (recvRun h w n) read ∧
        work (recvRun h w n).net.recvs + n ≤ work w.net.recvs) ∨
      ∃ k read, Open svc s (recvRun h w k) read ∧ Gone svc (recvRun h w n) read ∧
        Loss s read (recvRun h w k) := by
  induction n with
  | zero => exact .inl ⟨[], hw, Nat.le_refl _⟩
  | succ n ih =>
    rcases ih with ⟨read, hopen, hwork⟩ | ⟨k, read, hopen, hgone, hloss⟩
    · have hpos := hopen.closes.work_pos
      rcases hopen.recvEx h with ⟨hnext, hless, -⟩ | ⟨hstop, hgone, hall⟩ | ⟨-, -, hgone, hall⟩
      · refine .inl ⟨_, hnext, ?_⟩
        have hless' : work (recvRun h w (n + 1)).net.recvs ≤
            work (recvRun h w n).net.recvs - 1 := hless
        omega
      · exact .inr ⟨n, read, hopen, hgone, .inl ⟨hstop, hall⟩⟩
      · exact .inr ⟨n, read, hopen, hgone, .inr hall⟩
    · have hsame : recvRun h w (n + 1) = recvRun h w n := recvEx_gone h hgone.socket
      exact .inr ⟨k, read, hopen, hsame ▸ hgone, hloss⟩

/-- A lost connection stays lost. -/
theorem recvRun_gone {k : Nat} (hgone : Gone svc (recvRun h w k) read) {n : Nat} (hn : k ≤ n) :
    Gone svc (recvRun h w n) read := by
  induction n, hn using Nat.le_induction with
  | base => exact hgone
  | succ n hn ih =>
    have hsame : recvRun h w (n + 1) = recvRun h w n := recvEx_gone h ih.socket
    exact hsame ▸ ih

/-- Before its first read, a connection whose script ends with the close is open. -/
theorem Fresh.open (hw : Fresh svc w) (hnotify : w.socket.funOnDisConnect = true)
    {evs : List RecvEvent} (hquiet : Quiet evs) (hscript : w.net.recvs = evs ++ [.closed]) :
    Open svc (streamOf evs) w [] := by
  refine ⟨hw.receiving, hnotify, ?_, ?_, ?_⟩
  · rw [hscript]
    exact closesAtEnd_append hquiet
  · rw [hscript, streamOf_append_closed, List.nil_append]
  · rw [Framer.frames_nil]
    exact fun f hf => absurd hf List.not_mem_nil

/-- Every frame of the stream `s` was taken, and its packets dispatched, before the disconnect
callback ran. -/
structure Delivered (svc : NetService) (conn : Nat) (s : List UInt8) (w : World (Session σ)) :
    Prop where
  taken : w.app.taken ++ (svc.peekAll conn s).2 = s
  log : w.app.log = (svc.peekAll conn s).1.map .packet ++ [.disconnect]

/-- A connection that was lost after `read` has delivered the stream exactly when no frame came
behind those of `read`. -/
theorem Gone.delivered_iff_nil (hgone : Gone svc w read) (conn : Nat) {rest : List (List UInt8)}
    (hrest : packetFramer.frames s = packetFramer.frames read ++ rest) :
    Delivered svc conn s w ↔ rest = [] := by
  constructor
  · intro hdelivered
    have htaken := hdelivered.taken
    have hsplit := packetFramer.flatten_frames s
    rw [hgone.taken, peekAll_eq] at htaken
    rw [hrest, List.flatten_append, List.append_assoc] at hsplit
    have htail : rest.flatten ++ packetFramer.tail s = packetFramer.tail s :=
      List.append_cancel_left (hsplit.trans htaken.symm)
    have hnil := List.flatten_eq_nil_iff.mp (List.append_left_eq_self.mp htail)
    rcases List.eq_nil_or_concat rest with hempty | ⟨fs, f, rfl⟩
    · exact hempty
    · have hmem : f ∈ packetFramer.frames s := by
        rw [hrest]
        simp
      exact absurd (hnil f (by simp)) (Framer.ne_nil_of_mem hmem)
  · rintro rfl
    rw [List.append_nil] at hrest
    refine ⟨?_, ?_⟩
    · rw [hgone.taken, peekAll_eq, ← hrest]
      exact packetFramer.flatten_frames s
    · rw [hgone.log, peekAll_eq, ← hrest]

/-- A stream that the peer closes, in any split: its frames are all delivered before the
disconnect callback runs exactly when each fits the receive buffer, and the call of `recv_ex` that
meets the close has completed none. -/
theorem delivered_iff (hw : Fresh svc w) (conn : Nat) (hnotify : w.socket.funOnDisConnect = true)
    {evs : List RecvEvent} (hquiet : Quiet evs) (hscript : w.net.recvs = evs ++ [.closed]) :
    (∃ N, ∀ n, N ≤ n → Delivered svc conn (streamOf evs) (recvRun h w n)) ↔
      (∀ f ∈ packetFramer.frames (streamOf evs), f.length ≤ maxC2sPkgSize) ∧
        ∀ n, (recvRun h w n).socket.Live → (recvRun h w n).stopOf = .closed →
          droppedBy (recvRun h w n) = [] := by
  have hopen := hw.open hnotify hquiet hscript
  generalize streamOf evs = s at hopen ⊢
  have hprefix : ∀ {read} {w' : World (Session σ)}, Open svc s w' read →
      ∃ rest, packetFramer.frames s = packetFramer.frames read ++ rest := fun hopen' =>
    (hopen'.stream ▸ Framer.frames_prefix _ _ : _ <+: packetFramer.frames s).imp fun _ => Eq.symm
  constructor
  · rintro ⟨N, hN⟩
    constructor
    · -- the frames that were taken all fitted, and they are all frames
      rcases recvRun_phase h hopen (N + work w.net.recvs) with ⟨read, hlate, hwork⟩ |
        ⟨k, read, hlate, hgone, -⟩
      · have hpos := hlate.closes.work_pos
        omega
      · obtain ⟨rest, hrest⟩ := hprefix hlate
        have hnone := (hgone.delivered_iff_nil conn hrest).mp (hN _ (Nat.le_add_right _ _))
        rw [hrest, hnone, List.append_nil]
        exact hlate.fits
    · intro n hlive hstop
      rcases recvRun_phase h hopen n with ⟨read, hlate, -⟩ | ⟨k, read, -, hgone, -⟩
      · rcases hlate.recvEx h with ⟨-, -, hc⟩ | ⟨-, hgone, hall⟩ | ⟨hfull, -⟩
        · rcases hc with hblock | ⟨hfull, -⟩
          · exact absurd (hstop.symm.trans hblock) RecvStop.noConfusion
          · exact absurd (hstop.symm.trans hfull) RecvStop.noConfusion
        · have hlater := recvRun_gone h (k := n + 1) hgone (Nat.le_max_right N (n + 1))
          exact (hlater.delivered_iff_nil conn hall).mp (hN _ (Nat.le_max_left N (n + 1)))
        · exact absurd (hstop.symm.trans hfull) RecvStop.noConfusion
      · rw [hgone.socket] at hlive
        exact absurd hlive (by decide)
  · rintro ⟨hfits, hlossless⟩
    refine ⟨work w.net.recvs, fun n hn => ?_⟩
    rcases recvRun_phase h hopen n with ⟨read, hlate, hwork⟩ | ⟨k, read, hlate, hgone, hloss⟩
    · have hpos := hlate.closes.work_pos
      omega
    · have hall : packetFramer.frames s = packetFramer.frames read ++ [] := by
        rcases hloss with ⟨hstop, hall⟩ | hall
        · rwa [hlossless k hlate.receiving.live hstop] at hall
        · rw [hall hfits, List.append_nil]
      exact (hgone.delivered_iff_nil conn hall).mpr rfl

/-! ## Runs on fixed scripts -/

/-- `cutConnection`, with another script. -/
def closingConnection (evs : List RecvEvent) : World (Session Unit) :=
  { cutConnection with net := ⟨evs, [], [], [], []⟩ }

/-- The last bytes of a login packet, a wait, and the close. -/
def waitsBeforeClose : List RecvEvent := [.data 0 [1, 0, 1, 42], .wouldBlock]

/-- The connection on which that script runs. -/
def waitingConnection : World (Session Unit) :=
  closingConnection (waitsBeforeClose ++ [.closed])

theorem waitingConnection_fresh : Fresh NetService.init waitingConnection :=
  ⟨by decide, rfl, rfl, rfl, rfl, rfl, rfl, rfl⟩

theorem delivered_iff_run :
    (∃ N, ∀ n, N ≤ n → Delivered NetService.init 1 (streamOf waitsBeforeClose)
        (recvRun idleHandlers waitingConnection n)) ↔
      (∀ f ∈ packetFramer.frames (streamOf waitsBeforeClose), f.length ≤ maxC2sPkgSize) ∧
        ∀ n, (recvRun idleHandlers waitingConnection n).socket.Live →
          (recvRun idleHandlers waitingConnection n).stopOf = .closed →
          droppedBy (recvRun idleHandlers waitingConnection n) = [] :=
  delivered_iff idleHandlers waitingConnection_fresh 1 rfl (by decide) rfl

/-- The same packet, and the close in the same call. -/
def closesAtOnce : List RecvEvent := [.data 0 [1, 0, 1, 42]]

/-- The call that reads both drops the packet and disconnects, whatever follows. -/
theorem closesAtOnce_not_delivered :
    ¬ ∃ N, ∀ n, N ≤ n → Delivered NetService.init 1 (streamOf closesAtOnce)
      (recvRun idleHandlers (closingConnection (closesAtOnce ++ [.closed])) n) := by
  rintro ⟨N, hN⟩
  have hfresh : Fresh NetService.init (closingConnection (closesAtOnce ++ [.closed])) :=
    ⟨by decide, rfl, rfl, rfl, rfl, rfl, rfl, rfl⟩
  have hopen := @Fresh.open _ _ _ hfresh rfl closesAtOnce (by decide) rfl
  have hstop : (closingConnection (closesAtOnce ++ [.closed])).stopOf = .closed := by
    decide +kernel
  have hdropped :
      droppedBy (closingConnection (closesAtOnce ++ [.closed])) = [[0, 1, 0, 1, 42]] := by
    have hread : readOf (closingConnection (closesAtOnce ++ [.closed])) = [0, 1, 0, 1, 42] := by
      decide +kernel
    rw [hopen.droppedBy_eq, hread]
    decide +kernel
  rcases hopen.recvEx idleHandlers with ⟨-, -, hwait | ⟨hfull, -⟩⟩ | ⟨-, hgone, hall⟩ | ⟨hfull, -⟩
  · exact absurd (hstop.symm.trans hwait) RecvStop.noConfusion
  · exact absurd (hstop.symm.trans hfull) RecvStop.noConfusion
  · have hlater := recvRun_gone idleHandlers (k := 1) hgone (Nat.le_max_right N 1)
    have hnone := (hlater.delivered_iff_nil 1 hall).mp (hN _ (Nat.le_max_left N 1))
    rw [hdropped] at hnone
    exact absurd hnone (List.cons_ne_nil _ _)
  · exact absurd (hstop.symm.trans hfull) RecvStop.noConfusion

end MmDriver

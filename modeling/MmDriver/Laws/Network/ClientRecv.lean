import MmDriver.Network.ClientSocket

/-!
# What one call of `recv_data` reads

`offers` is the loop of `recv_data` without the connection: the bytes the socket hands over while
there is room, why the reading stops, and what is left. `recvLoop_eq` says that the loop appends
exactly those bytes to the receive buffer.
-/

namespace MmDriver

open ByteMem SocketApi

/-- Why the reading stops. -/
inductive RecvStop where
  | full
  | wouldBlock
  | closed
  | error
deriving DecidableEq, Repr

/-- What a socket hands over to a reader with room for so many bytes. -/
structure Offer where
  bytes : List UInt8
  stop : RecvStop
  rest : List RecvEvent
deriving DecidableEq, Repr

/-- Reading on as long as there is room. -/
def offers : List RecvEvent → Nat → Offer
  | [], room => ⟨[], if room = 0 then .full else .wouldBlock, []⟩
  | e :: later, room =>
    if room = 0 then ⟨[], .full, e :: later⟩
    else
      match e with
      | .data b bs =>
        if (b :: bs).length ≤ room then
          let o := offers later (room - (b :: bs).length)
          { o with bytes := b :: bs ++ o.bytes }
        else ⟨(b :: bs).take room, .full, unread ((b :: bs).drop room) later⟩
      | .wouldBlock => ⟨[], .wouldBlock, later⟩
      | .closed => ⟨[], .closed, .closed :: later⟩
      | .error => ⟨[], .error, later⟩

@[simp] theorem offers_zero (evs : List RecvEvent) : offers evs 0 = ⟨[], .full, evs⟩ := by
  cases evs <;> rfl

/-- No more bytes than there is room for. -/
theorem offers_length_le (evs : List RecvEvent) (room : Nat) :
    (offers evs room).bytes.length ≤ room := by
  induction evs generalizing room with
  | nil => exact Nat.zero_le room
  | cons e later ih =>
    unfold offers
    split
    · exact Nat.zero_le room
    · cases e with
      | data b bs =>
        dsimp only
        split
        · next hfit =>
          have hrest := ih (room - (b :: bs).length)
          simp only [List.length_append]
          omega
        · exact List.length_take_le room (b :: bs)
      | wouldBlock => exact Nat.zero_le room
      | closed => exact Nat.zero_le room
      | error => exact Nat.zero_le room

/-- Nothing of the stream is lost between what is read and what is left. -/
theorem offers_streamOf (evs : List RecvEvent) (room : Nat) :
    (offers evs room).bytes ++ streamOf (offers evs room).rest = streamOf evs := by
  induction evs generalizing room with
  | nil => rfl
  | cons e later ih =>
    unfold offers
    split
    · rfl
    · cases e with
      | data b bs =>
        dsimp only
        split
        · rw [List.append_assoc, ih, streamOf]
        · rw [streamOf_unread, ← List.append_assoc, List.take_append_drop, streamOf]
      | wouldBlock => rfl
      | closed => rfl
      | error => rfl

/-- The reader is full exactly when it has read as much as there was room for. -/
theorem offers_full_iff (evs : List RecvEvent) (room : Nat) :
    (offers evs room).stop = .full ↔ (offers evs room).bytes.length = room := by
  induction evs generalizing room with
  | nil =>
    cases room with
    | zero => exact iff_of_true rfl rfl
    | succ room => exact iff_of_false RecvStop.noConfusion (Nat.succ_ne_zero room).symm
  | cons e later ih =>
    unfold offers
    split
    · next hroom => exact iff_of_true rfl hroom.symm
    · next hroom =>
      have hnothing : (0 = room) = False := eq_false fun h => hroom h.symm
      cases e with
      | data b bs =>
        dsimp only
        split
        · next hfit =>
          rw [ih, List.length_append]
          omega
        · next hfit =>
          exact iff_of_true rfl (List.length_take_of_le (by omega))
      | wouldBlock => simp [hnothing]
      | closed => simp [hnothing]
      | error => simp [hnothing]

/-- A reader with less room reads a first part of what one with more room reads. -/
theorem offers_bytes_take (evs : List RecvEvent) {room room' : Nat} (h : room ≤ room') :
    (offers evs room).bytes = (offers evs room').bytes.take room := by
  induction evs generalizing room room' with
  | nil => exact List.take_nil.symm
  | cons e later ih =>
    by_cases hroom : room = 0
    · rw [hroom, offers_zero, List.take_zero]
    · have hroom' : room' ≠ 0 := fun h0 => hroom (Nat.le_zero.mp (h0 ▸ h))
      unfold offers
      rw [if_neg hroom, if_neg hroom']
      cases e with
      | data b bs =>
        dsimp only
        by_cases hfit : (b :: bs).length ≤ room
        · rw [if_pos hfit, if_pos (Nat.le_trans hfit h)]
          dsimp only
          rw [List.take_append, List.take_of_length_le hfit,
            ih (Nat.sub_le_sub_right h (b :: bs).length)]
        · rw [if_neg hfit]
          split
          · exact (List.take_append_of_le_length (Nat.le_of_not_le hfit)).symm
          · rw [List.take_take, Nat.min_eq_left h]
      | wouldBlock => exact List.take_nil.symm
      | closed => exact List.take_nil.symm
      | error => exact List.take_nil.symm

/-- Where the room does not end the reading, more room makes no difference. -/
theorem offers_of_length_lt {evs : List RecvEvent} {room room' : Nat} (h : room ≤ room')
    (hlt : (offers evs room').bytes.length < room) : offers evs room = offers evs room' := by
  induction evs generalizing room room' with
  | nil =>
    unfold offers
    rw [if_neg (Nat.ne_of_gt (Nat.zero_lt_of_lt hlt)),
      if_neg (Nat.ne_of_gt (Nat.lt_of_lt_of_le (Nat.zero_lt_of_lt hlt) h))]
  | cons e later ih =>
    have hroom : room ≠ 0 := Nat.ne_of_gt (Nat.zero_lt_of_lt hlt)
    have hroom' : room' ≠ 0 := Nat.ne_of_gt (Nat.lt_of_lt_of_le (Nat.zero_lt_of_lt hlt) h)
    unfold offers at hlt ⊢
    rw [if_neg hroom'] at hlt ⊢
    rw [if_neg hroom]
    cases e with
    | data b bs =>
      dsimp only at hlt ⊢
      split at hlt
      · next hfit' =>
        rw [List.length_append] at hlt
        have hfit : (b :: bs).length ≤ room := by omega
        rw [if_pos hfit, if_pos hfit', ih (Nat.sub_le_sub_right h _) (by omega)]
      · next hfit' =>
        rw [List.length_take_of_le (Nat.le_of_not_le hfit')] at hlt
        exact absurd h (Nat.not_le_of_lt hlt)
    | wouldBlock => rfl
    | closed => rfl
    | error => rfl

/-- What is left is a part of what there was: later events, and at most one piece cut short. -/
theorem offers_rest_mem {evs : List RecvEvent} {room : Nat} {e : RecvEvent}
    (he : e ∈ (offers evs room).rest) (hdata : ∀ b bs, e ≠ .data b bs) : e ∈ evs := by
  induction evs generalizing room with
  | nil => exact he
  | cons e' later ih =>
    unfold offers at he
    split at he
    · exact he
    · cases e' with
      | data b bs =>
        dsimp only at he
        split at he
        · exact List.mem_cons_of_mem _ (ih he)
        · cases hleft : (b :: bs).drop room with
          | nil =>
            rw [hleft] at he
            exact List.mem_cons_of_mem _ he
          | cons c cs =>
            rw [hleft] at he
            rcases List.mem_cons.mp he with heq | hlater
            · exact absurd heq (hdata c cs)
            · exact List.mem_cons_of_mem _ hlater
      | wouldBlock => exact List.mem_cons_of_mem _ he
      | closed => exact he
      | error => exact List.mem_cons_of_mem _ he

/-- The reading stops at a close only when the script says so. -/
theorem closed_of_offers {evs : List RecvEvent} {room : Nat}
    (h : (offers evs room).stop = .closed) : .closed ∈ evs := by
  induction evs generalizing room with
  | nil =>
    unfold offers at h
    split at h <;> exact absurd h RecvStop.noConfusion
  | cons e later ih =>
    unfold offers at h
    split at h
    · exact absurd h RecvStop.noConfusion
    · cases e with
      | data b bs =>
        dsimp only at h
        split at h
        · exact List.mem_cons_of_mem _ (ih h)
        · exact absurd h RecvStop.noConfusion
      | wouldBlock => exact absurd h RecvStop.noConfusion
      | closed => exact List.mem_cons_self
      | error => exact absurd h RecvStop.noConfusion

theorem error_of_offers {evs : List RecvEvent} {room : Nat}
    (h : (offers evs room).stop = .error) : .error ∈ evs := by
  induction evs generalizing room with
  | nil =>
    unfold offers at h
    split at h <;> exact absurd h RecvStop.noConfusion
  | cons e later ih =>
    unfold offers at h
    split at h
    · exact absurd h RecvStop.noConfusion
    · cases e with
      | data b bs =>
        dsimp only at h
        split at h
        · exact List.mem_cons_of_mem _ (ih h)
        · exact absurd h RecvStop.noConfusion
      | wouldBlock => exact absurd h RecvStop.noConfusion
      | closed => exact absurd h RecvStop.noConfusion
      | error => exact List.mem_cons_self

/-- How much a script still has to give: its bytes, and its events that are not bytes. -/
def work : List RecvEvent → Nat
  | [] => 0
  | .data _ bs :: later => bs.length + 1 + work later
  | _ :: later => 1 + work later

theorem work_unread (bs : List UInt8) (later : List RecvEvent) :
    work (unread bs later) = bs.length + work later := by
  cases bs with
  | nil => exact (Nat.zero_add _).symm
  | cons b bs => rfl

theorem streamOf_of_work {evs : List RecvEvent} (h : work evs = 0) : streamOf evs = [] := by
  cases evs with
  | nil => rfl
  | cons e later =>
    cases e <;> simp only [work] at h <;> omega

theorem offers_work_le (evs : List RecvEvent) (room : Nat) :
    work (offers evs room).rest ≤ work evs := by
  induction evs generalizing room with
  | nil => exact Nat.zero_le _
  | cons e later ih =>
    unfold offers
    split
    · exact Nat.le_refl _
    · cases e with
      | data b bs =>
        dsimp only
        split
        · exact Nat.le_trans (ih _) (Nat.le_add_left _ _)
        · simp only [work_unread, work, List.length_drop, List.length_cons]
          omega
      | wouldBlock => exact Nat.le_add_left _ _
      | closed => exact Nat.le_refl _
      | error => exact Nat.le_add_left _ _

/-- A call with room makes progress, short of the peer's close. -/
theorem offers_work {evs : List RecvEvent} {room : Nat} (hroom : room ≠ 0) (hne : evs ≠ [])
    (hstop : (offers evs room).stop ≠ .closed) : work (offers evs room).rest < work evs := by
  cases evs with
  | nil => exact absurd rfl hne
  | cons e later =>
    unfold offers at hstop ⊢
    rw [if_neg hroom] at hstop ⊢
    cases e with
    | data b bs =>
      dsimp only
      split
      · have hrest := offers_work_le later (room - (b :: bs).length)
        simp only [work]
        omega
      · simp only [work_unread, work, List.length_drop, List.length_cons]
        omega
    | wouldBlock => simp only [work]; omega
    | closed => exact absurd rfl hstop
    | error => simp only [work]; omega

/-! ## The loop of `recv_data` -/

namespace World

variable {ω : Type}

/-- Bytes read from the socket behind those in the receive buffer. -/
def gathered (w : World ω) (bytes : List UInt8) (recvs : List RecvEvent) : World ω :=
  { w with
    net := { w.net with recvs := recvs }
    socket := { w.socket with
      recvBuffer := w.socket.recvBuffer.map fun m =>
        copy m w.socket.recvBufferLen (ofList bytes) bytes.length
      recvBufferLen := w.socket.recvBufferLen + bytes.length } }

theorem gathered_nil (w : World ω) (recvs : List RecvEvent) :
    w.gathered [] recvs = { w with net := { w.net with recvs := recvs } } := by
  simp [gathered]

theorem gathered_nil_self (w : World ω) : w.gathered [] w.net.recvs = w := gathered_nil w _

/-- Reading twice is reading once. -/
theorem gathered_gathered (w : World ω) (l l' : List UInt8) (evs evs' : List RecvEvent) :
    (w.gathered l evs).gathered l' evs' = w.gathered (l ++ l') evs' := by
  simp only [gathered, Option.map_map, Function.comp_def, copy_append, List.length_append,
    Nat.add_assoc]

/-- What `recv_data` answers for the reason the reading stopped. -/
def stopped (cb : Callbacks ω) (w : World ω) : RecvStop → ConnErrorCode × World ω
  | .full => (.recvNotEnoughBuffer, w)
  | .wouldBlock => (.wouldBlock, w)
  | .closed => (.peerClosed, disconnect cb w)
  | .error => (.unknown, disconnect cb w)

/-- Arrived bytes are read with a positive count. -/
theorem recvEx_data_pos {net : Net} {b : UInt8} {bs : List UInt8} {later : List RecvEvent}
    {room : Nat} (hrecvs : net.recvs = .data b bs :: later) (hroom : 0 < room) :
    (SocketApi.recvEx net room).ret > 0 := by
  rw [SocketApi.recvEx, hrecvs]
  simp only [List.length_take, List.length_cons, gt_iff_lt]
  omega

/-- A read of arrived bytes. -/
theorem received_data {w : World ω} {b : UInt8} {bs : List UInt8} {later : List RecvEvent}
    {room : Nat} (hrecvs : w.net.recvs = .data b bs :: later)
    (hlen : w.socket.recvBufferLen + room < 2 ^ 64) :
    w.received (SocketApi.recvEx w.net room) =
      w.gathered ((b :: bs).take room) (unread ((b :: bs).drop room) later) := by
  have hsum : SizeT.add w.socket.recvBufferLen ((b :: bs).take room).length =
      w.socket.recvBufferLen + ((b :: bs).take room).length := by
    have hle := List.length_take_le room (b :: bs)
    exact SizeT.add_eq (by omega)
  have hread : SocketApi.recvEx w.net room = ⟨((b :: bs).take room).length, (b :: bs).take room,
      { w.net with recvs := unread ((b :: bs).drop room) later }⟩ := by
    rw [SocketApi.recvEx, hrecvs]
  rw [hread]
  simp only [received, gathered, Int.toNat_natCast, hsum]

/-- The room `recv_data` computes. -/
theorem usBuffSize_eq {len : Nat} (h : len ≤ maxC2sPkgSize) :
    TUint32.ofNat (SizeT.sub maxC2sPkgSize len) = maxC2sPkgSize - len := by
  have hmax : maxC2sPkgSize = 5120 := rfl
  rw [SizeT.sub_eq h (by omega)]
  exact Nat.mod_eq_of_lt (by omega)

/-- The loop with a full buffer. -/
theorem recvLoop_full (cb : Callbacks ω) {w : World ω}
    (h : w.socket.recvBufferLen = maxC2sPkgSize) :
    recvLoop cb w = (.recvNotEnoughBuffer, w) := by
  rw [recvLoop, usBuffSize_eq (Nat.le_of_eq h), h, Nat.sub_self, if_neg (Nat.lt_irrefl 0)]

/-- The loop with room, by what the next read answers. -/
theorem recvLoop_room (cb : Callbacks ω) {w : World ω}
    (h : w.socket.recvBufferLen < maxC2sPkgSize) :
    recvLoop cb w =
      let r := SocketApi.recvEx w.net (maxC2sPkgSize - w.socket.recvBufferLen)
      if r.ret > 0 then recvLoop cb (w.received r)
      else if r.ret = 0 then (.peerClosed, disconnect cb { w with net := r.net })
      else if r.ret = ConnErrorCode.wouldBlock.toInt then (.wouldBlock, { w with net := r.net })
      else (.unknown, disconnect cb { w with net := r.net }) := by
  have hroom : maxC2sPkgSize - w.socket.recvBufferLen > 0 := Nat.sub_pos_of_lt h
  rw [recvLoop, usBuffSize_eq (Nat.le_of_lt h), if_pos hroom]

/-- The loop of `recv_data` reads what the socket offers to the room in the buffer. -/
theorem recvLoop_eq (cb : Callbacks ω) (w : World ω)
    (hlen : w.socket.recvBufferLen ≤ maxC2sPkgSize) :
    recvLoop cb w =
      let o := offers w.net.recvs (maxC2sPkgSize - w.socket.recvBufferLen)
      stopped cb (w.gathered o.bytes o.rest) o.stop := by
  have hmax : maxC2sPkgSize = 5120 := rfl
  have hself : ∀ w : World ω, w.gathered [] w.net.recvs = w := gathered_nil_self
  generalize hevs : w.net.recvs = evs
  induction evs generalizing w with
  | nil =>
    rcases Nat.eq_or_lt_of_le hlen with hfull | hroom
    · rw [recvLoop_full cb hfull, hfull, Nat.sub_self, offers_zero]
      simp only [stopped, ← hevs, hself]
    · have hread : SocketApi.recvEx w.net (maxC2sPkgSize - w.socket.recvBufferLen) =
          ⟨ConnErrorCode.wouldBlock.toInt, [], w.net⟩ := by rw [SocketApi.recvEx, hevs]
      have hoffer : offers [] (maxC2sPkgSize - w.socket.recvBufferLen) = ⟨[], .wouldBlock, []⟩ := by
        rw [offers, if_neg (Nat.sub_ne_zero_of_lt hroom)]
      rw [recvLoop_room cb hroom, hread, hoffer]
      simp only [stopped, ← hevs, hself]
      rfl
  | cons e later ih =>
    rcases Nat.eq_or_lt_of_le hlen with hfull | hroom
    · rw [recvLoop_full cb hfull, hfull, Nat.sub_self, offers_zero]
      simp only [stopped, ← hevs, hself]
    · have hpos : maxC2sPkgSize - w.socket.recvBufferLen ≠ 0 := Nat.sub_ne_zero_of_lt hroom
      rw [recvLoop_room cb hroom]
      unfold offers
      rw [if_neg hpos]
      cases e with
      | data b bs =>
        have hread := received_data hevs (by omega :
            w.socket.recvBufferLen + (maxC2sPkgSize - w.socket.recvBufferLen) < 2 ^ 64)
        have hret : (SocketApi.recvEx w.net (maxC2sPkgSize - w.socket.recvBufferLen)).ret > 0 :=
          recvEx_data_pos hevs (Nat.pos_of_ne_zero hpos)
        dsimp only
        rw [if_pos hret, hread]
        split
        · next hfit =>
          rw [List.take_of_length_le hfit, List.drop_of_length_le hfit, unread]
          have hlen' : (w.gathered (b :: bs) later).socket.recvBufferLen ≤ maxC2sPkgSize := by
            simp only [gathered]
            omega
          have hleft : maxC2sPkgSize - (w.gathered (b :: bs) later).socket.recvBufferLen =
              maxC2sPkgSize - w.socket.recvBufferLen - (b :: bs).length := by
            rw [Nat.sub_sub]
            rfl
          rw [ih (w.gathered (b :: bs) later) hlen' rfl, hleft]
          simp only [gathered_gathered]
        · next hfit =>
          have hfull : (w.gathered ((b :: bs).take (maxC2sPkgSize - w.socket.recvBufferLen))
              (unread ((b :: bs).drop (maxC2sPkgSize - w.socket.recvBufferLen)) later)
              ).socket.recvBufferLen = maxC2sPkgSize := by
            simp only [gathered]
            rw [List.length_take_of_le (by omega)]
            omega
          rw [recvLoop_full cb hfull, stopped]
      | wouldBlock =>
        have hread : SocketApi.recvEx w.net (maxC2sPkgSize - w.socket.recvBufferLen) =
            ⟨ConnErrorCode.wouldBlock.toInt, [], { w.net with recvs := later }⟩ := by
          rw [SocketApi.recvEx, hevs]
        rw [hread]
        dsimp only
        rw [gathered_nil]
        rfl
      | closed =>
        have hread : SocketApi.recvEx w.net (maxC2sPkgSize - w.socket.recvBufferLen) =
            ⟨0, [], w.net⟩ := by rw [SocketApi.recvEx, hevs]
        rw [hread]
        simp only [← hevs, hself]
        rfl
      | error =>
        have hread : SocketApi.recvEx w.net (maxC2sPkgSize - w.socket.recvBufferLen) =
            ⟨ConnErrorCode.unknown.toInt, [], { w.net with recvs := later }⟩ := by
          rw [SocketApi.recvEx, hevs]
        rw [hread]
        dsimp only
        rw [gathered_nil]
        rfl

/-! ## `recv_ex` -/

theorem close_close (w : World ω) : w.close.close = w.close := by
  simp [close, ClientSocket.new]

/-- A connection that was disconnected has no callback left to call, and nothing to close. -/
theorem disconnect_disconnect (cb : Callbacks ω) (w : World ω) :
    disconnect cb (disconnect cb w) = disconnect cb w := by
  have hnone : ∀ w' : World ω, disconnect cb w'.close = w'.close := fun w' => close_close w'
  exact hnone _

section RecvEx

variable (cb : Callbacks ω) {w : World ω}

/-- What a connection has gathered when `recv_data` stops. -/
def atStop (w : World ω) : World ω :=
  w.gathered (offers w.net.recvs (maxC2sPkgSize - w.socket.recvBufferLen)).bytes
    (offers w.net.recvs (maxC2sPkgSize - w.socket.recvBufferLen)).rest

/-- Why `recv_data` stops. -/
def stopOf (w : World ω) : RecvStop :=
  (offers w.net.recvs (maxC2sPkgSize - w.socket.recvBufferLen)).stop

theorem recvData_eq (hlive : w.socket.Live) (hlen : w.socket.recvBufferLen ≤ maxC2sPkgSize) :
    recvData cb w = stopped cb w.atStop w.stopOf := by
  rw [recvData, if_pos hlive, recvLoop_eq cb w hlen]
  rfl

/-- The socket has nothing more, or the buffer is full: the callback sees the buffer. -/
theorem recvEx_calls (hlive : w.socket.Live) (hlen : w.socket.recvBufferLen ≤ maxC2sPkgSize)
    (hcallback : w.socket.funOnRecvMessage = true)
    (hstop : w.stopOf = .full ∨ w.stopOf = .wouldBlock) :
    let read := cb.onRecvMessage w.atStop w.atStop.socket.recvBuffer w.atStop.socket.recvBufferLen
    recvEx cb w =
      afterCallback cb (if w.stopOf = .full then .recvNotEnoughBuffer else .wouldBlock) read.1
        read.2 := by
  have hnot : ¬w.socket.funOnRecvMessage = false := by rw [hcallback]; decide
  rw [recvEx, if_neg hnot, recvData_eq cb hlive hlen]
  rcases hstop with hstop | hstop
  · rw [hstop]
    rfl
  · rw [hstop]
    rfl

/-- The peer has closed, or the read failed: the connection is gone without a look at what the
same call has read. -/
theorem recvEx_lost (hlive : w.socket.Live) (hlen : w.socket.recvBufferLen ≤ maxC2sPkgSize)
    (hcallback : w.socket.funOnRecvMessage = true)
    (hstop : w.stopOf = .closed ∨ w.stopOf = .error) :
    recvEx cb w = (false, disconnect cb w.atStop) := by
  have hnot : ¬w.socket.funOnRecvMessage = false := by rw [hcallback]; decide
  rw [recvEx, if_neg hnot, recvData_eq cb hlive hlen]
  rcases hstop with hstop | hstop
  · rw [hstop, stopped]
    exact congrArg (Prod.mk false) (disconnect_disconnect cb w.atStop)
  · rw [hstop, stopped]
    exact congrArg (Prod.mk false) (disconnect_disconnect cb w.atStop)

end RecvEx

end World

end MmDriver

import MmDriver.Laws.Test.MessageLoop

/-!
# Frames shorter than a head

`MessageHead::Decode` asks for the six bytes of the first two fields and reads all fourteen, and
the loops look at no more than the length the head announces. The length they compare it with is
negative for a frame shorter than `sizeof(MessageHead)`, and so may be the one in the head.

So a handler is called for a short frame exactly when it announces that negative length and its id
has a handler (`handlers_wellFormed_iff`).
-/

namespace MmDriver

open ByteMem MessageChannel

/-! ## What `Decode` reads -/

namespace MessageHead

/-- `Decode` with `nSize` bytes is decided by these bytes. -/
def DecodesWithin (nSize : Nat) : Prop :=
  ∀ (h : MessageHead) (m m' : Memory) (a : Nat), (∀ i < nSize, m' (a + i) = m (a + i)) →
    h.decode m' a nSize = h.decode m a nSize

theorem decode_short (h : MessageHead) (m : Memory) (a : Nat) {n : Int} (hn : n < 6) :
    h.decode m a n = (false, h) := if_pos hn

/-- The last byte of the head is read. -/
theorem get_lastByte (m : Memory) {b : UInt8} (hb : m 13 ≠ b) :
    get (storeByte m 13 b) 0 ≠ get m 0 := by
  intro heq
  have hfield := congrArg MessageHead.nDstServiceID heq
  have hbits : loadBits 2 (storeByte m 13 b) 12 = loadBits 2 m 12 := Int16.ofBitVec_inj.mp hfield
  have hlow : storeByte m 13 b 12 = m 12 := storeByte_other (by decide)
  have hsmall : ∀ src, ofBytes src 2 < 2 ^ (8 * 2) := fun src => ofBytes_lt src 2
  have hbytes := congrArg BitVec.toNat hbits
  simp only [loadBits, BitVec.toNat_ofNat] at hbytes
  rw [Nat.mod_eq_of_lt (hsmall _), Nat.mod_eq_of_lt (hsmall _)] at hbytes
  simp only [ofBytes, Nat.reduceAdd, Nat.add_zero, hlow, storeByte_same] at hbytes
  refine hb (UInt8.toNat_inj.mp ?_)
  omega

/-- `Decode` keeps to the bytes it is given when it refuses them or has all fourteen. -/
theorem decodesWithin_iff (n : Nat) : DecodesWithin n ↔ n < 6 ∨ 14 ≤ n := by
  constructor
  · intro hwithin
    by_contra hnot
    rw [not_or, Nat.not_lt, Nat.not_le] at hnot
    have hsix : (6 : Int) ≤ n := Int.ofNat_le.mpr hnot.1
    have hsame := hwithin new (fun _ => 0) (storeByte (fun _ => 0) 13 1) 0 fun i hi =>
      storeByte_other (by omega)
    rw [decode_eq _ _ _ hsix, decode_eq _ _ _ hsix] at hsame
    exact get_lastByte (fun _ => 0) (by decide) (congrArg Prod.snd hsame)
  · rintro (hshort | hlong) h m m' a hbytes
    · rw [decode_short _ _ _ (by omega), decode_short _ _ _ (by omega)]
    · rw [decode_eq _ _ _ (by omega), decode_eq _ _ _ (by omega),
        get_congr fun i hi => hbytes i (by omega)]

end MessageHead

/-! ## What a received frame's head is -/

section Received

variable {buf : Memory} {x : MsgFifo.Message}

theorem byte_received (hbuf : slice buf 0 x.length = x) {i : Nat} (hi : i < x.length) :
    buf i = ofList x i := by
  rw [ofList, ← hbuf, slice_getD hi, Nat.zero_add]

/-- With fourteen bytes, all fields are the frame's. -/
theorem fields_received (hbuf : slice buf 0 x.length = x) (hx : 14 ≤ x.length) :
    MessageHead.get buf 0 = MessageHead.get (ofList x) 0 :=
  MessageHead.get_congr fun i hi => by
    rw [Nat.zero_add]
    exact byte_received hbuf (by omega)

/-- With six bytes, the length and the id are. -/
theorem start_received (hbuf : slice buf 0 x.length = x) (hx : 6 ≤ x.length) :
    (MessageHead.get buf 0).nSize = (MessageHead.get (ofList x) 0).nSize ∧
      (MessageHead.get buf 0).usMessageID = (MessageHead.get (ofList x) 0).usMessageID := by
  have hfield : ∀ n off, off + n ≤ 6 → loadBits n buf off = loadBits n (ofList x) off := by
    intro n off hin
    refine loadBits_congr fun i hi => ?_
    exact byte_received hbuf (by omega)
  constructor
  · exact congrArg Int32.ofBitVec (hfield 4 0 (by decide))
  · exact congrArg UInt16.ofBitVec (hfield 2 4 (by decide))

end Received

/-- The compared length, also below a head's size. -/
theorem messageBodySize_eq_sub {k : Nat} (hk : k < 2 ^ 16) : messageBodySize k = (k : Int) - 24 := by
  simp only [messageBodySize, MessageHead.sizeofMessageHead, SizeT.sub, TInt32.ofNat]
  omega

/-! ## The loop on any frames -/

/-- The frame's length field says what the loop compares it with. -/
def Announced (x : MsgFifo.Message) : Prop :=
  6 ≤ x.length ∧ (MessageHead.get (ofList x) 0).nSize.toInt = (x.length : Int) - 24

instance (x : MsgFifo.Message) : Decidable (Announced x) :=
  inferInstanceAs (Decidable (_ ∧ _))

/-- The comparison on a received frame, whatever stood in the buffer. -/
theorem announced_iff {buf : Memory} {x : MsgFifo.Message} (hbuf : slice buf 0 x.length = x)
    (hx : x.length < 2 ^ 16) :
    (MessageHead.new.decode buf 0 x.length).2.nSize.toInt = messageBodySize x.length ↔
      Announced x := by
  rw [messageBodySize_eq_sub hx]
  by_cases hsix : 6 ≤ x.length
  · rw [MessageHead.decode_eq _ _ _ (by omega), (start_received hbuf hsix).1, Announced,
      and_iff_right hsix]
  · rw [MessageHead.decode_short _ _ _ (by omega)]
    refine iff_of_false (fun hzero => ?_) fun h => hsix h.1
    have hnew : MessageHead.new.nSize.toInt = 0 := rfl
    dsimp only at hzero
    rw [hnew] at hzero
    omega

/-- The frames that the loop passes on to the dispatch, with a buffer of `cap` bytes: it stops at
one that does not fit or announces another length. -/
def passedWithin (cap : Nat) : List MsgFifo.Message → List MsgFifo.Message
  | [] => []
  | x :: xs => if x.length ≤ cap ∧ Announced x then x :: passedWithin x.length xs else []

theorem passedWithin_front (cap : Nat) (xs : List MsgFifo.Message) :
    passedWithin cap xs <+: xs := by
  induction xs generalizing cap with
  | nil => exact List.prefix_rfl
  | cons x xs ih =>
    rw [passedWithin]
    split
    · exact List.prefix_cons_inj x |>.mpr (ih x.length)
    · exact List.nil_prefix

/-- The turn that a frame is passed on in: its head is the frame's, as far as the frame goes. -/
structure TurnOf {η : Type} (dispatcher : Nat → Option η) (turn : MessageDispatch η)
    (x : MsgFifo.Message) : Prop where
  announced : Announced x
  handler : turn.handler =
    handlerOf dispatcher (MessageHead.get (ofList x) 0).usMessageID.toNat
  size : turn.rkMsgHead.nSize = (MessageHead.get (ofList x) 0).nSize
  fields : 14 ≤ x.length → turn.rkMsgHead = MessageHead.get (ofList x) 0

section Loop

variable {σ η : Type} {c : MessageChannel} {n : Side → Nat} {m : Memory}
  {pending : Side → List MsgFifo.Message} {s : Side} {dispatcher : Nat → Option η}
  {call : σ → Memory → MessageDispatch η → σ × Memory}

variable (dispatcher call) in
/-- The loop ends at a frame that is not passed on. -/
theorem messageLoop_stops {x : MsgFifo.Message} {xs : List MsgFifo.Message}
    (h : Attached c n m pending) (hpending : pending s = x :: xs) (app : σ) (buf : Memory)
    {cap : Nat} (hcap : cap < 2 ^ 16) (hstop : ¬(x.length ≤ cap ∧ Announced x)) (turns : Nat) :
    ∃ m', messageLoop (c.recv s) dispatcher call (turns + 1) app m buf cap = some ⟨app, m', []⟩ := by
  have hcases := h.recv_cases s buf hcap
  have hrefused := h.recv_refused (s := s) buf hcap
  rw [messageLoop]
  dsimp only at hcases ⊢
  generalize c.recv s m buf cap = r at hcases hrefused ⊢
  obtain ⟨hlen, ⟨hret, -⟩ | ⟨hret, ys, hfront, -⟩⟩ := hcases
  · exact ⟨r.mem, if_pos hret⟩
  · refine ⟨r.mem, ?_⟩
    rw [hpending] at hfront
    obtain ⟨hx, -⟩ := List.cons.inj hfront
    have hsize : r.msgLength = x.length := by rw [hx, slice_length]
    have hbuf : slice r.buf 0 x.length = x := by rw [← hsize, ← hx]
    -- what was received fitted, so it is its length field that is wrong
    have hnot : ¬Announced x := fun hannounced => hstop ⟨by
      by_contra hlong
      refine Bool.false_ne_true ((hrefused fun y zs hyz => ?_).1.symm.trans hret)
      rw [hpending] at hyz
      obtain ⟨rfl, -⟩ := List.cons.inj hyz
      exact Nat.lt_of_not_le hlong, hannounced⟩
    rw [if_neg (by rw [hret]; decide), hsize, if_pos]
    exact mt (announced_iff hbuf (hsize ▸ hlen)).mp hnot

/-- The loop dispatches the frames that are passed on, in order, each once. -/
theorem messageLoop_passes {I : σ → Prop} (hcall : LeavesQueue c n s I call)
    {xs : List MsgFifo.Message} (h : Attached c n m pending) (hpending : pending s = xs)
    {app : σ} (happ : I app) (buf : Memory) {cap : Nat} (hcap : cap < 2 ^ 16) {turns : Nat}
    (hturns : xs.length < turns) :
    ∃ r, messageLoop (c.recv s) dispatcher call turns app m buf cap = some r ∧
      List.Forall₂ (TurnOf dispatcher) r.dispatched (passedWithin cap xs) := by
  induction xs generalizing m pending app buf cap turns with
  | nil =>
    obtain ⟨turns, rfl⟩ := Nat.exists_eq_succ_of_ne_zero (Nat.ne_zero_of_lt hturns)
    obtain ⟨hret, hmem⟩ := h.recv_refused (s := s) buf hcap (by simp [hpending])
    refine ⟨⟨app, m, []⟩, ?_, .nil⟩
    rw [messageLoop]
    dsimp only
    rw [if_pos hret, hmem]
  | cons x xs ih =>
    obtain ⟨turns, rfl⟩ := Nat.exists_eq_succ_of_ne_zero (Nat.ne_zero_of_lt hturns)
    rw [passedWithin]
    by_cases hpass : x.length ≤ cap ∧ Announced x
    · rw [if_pos hpass]
      obtain ⟨hfit, hannounced⟩ := hpass
      have hsix : (6 : Int) ≤ x.length := Int.ofNat_le.mpr hannounced.1
      have hx : x ≠ [] := by
        rintro rfl
        exact absurd hannounced.1 (by decide)
      have hturn := h.recv_front hpending hx buf hfit hcap
      have hnext := h.recv_next s buf hcap
      have hgive : ¬((x = [] ∧ xs = []) ∨ cap < x.length) :=
        not_or.mpr ⟨fun hempty => hx hempty.1, Nat.not_lt_of_le hfit⟩
      rw [hpending, MsgFifo.step, if_neg hgive] at hnext
      rw [messageLoop]
      dsimp only at hturn ⊢
      generalize c.recv s m buf cap = r at hturn hnext ⊢
      obtain ⟨hret, hlen, hbuf⟩ := hturn
      rw [hlen] at hbuf
      have hsmall : x.length < 2 ^ 16 := Nat.lt_of_le_of_lt hfit hcap
      obtain ⟨hsize, hid⟩ := start_received hbuf hannounced.1
      have hequal := (announced_iff hbuf hsmall).mpr hannounced
      rw [if_neg (by rw [hret]; decide), hlen, if_neg (not_not.mpr hequal), turnOf,
        MessageHead.decode_eq _ _ _ hsix]
      generalize hdispatch : MessageDispatch.mk (η := η) _ _ _ = turn
      obtain ⟨happ', pending', hthen, hsame⟩ := hcall app r.mem turn _ happ hnext
      rw [Function.update_self] at hsame
      obtain ⟨t, hloop, hpassed⟩ := ih hthen hsame happ' r.buf hsmall
        (Nat.lt_of_succ_lt_succ hturns)
      refine ⟨{ t with dispatched := turn :: t.dispatched }, ?_, .cons ?_ hpassed⟩
      · rw [hloop]
        rfl
      · subst hdispatch
        exact ⟨hannounced, by rw [hid], hsize, fields_received hbuf⟩
    · rw [if_neg hpass]
      obtain ⟨m', hloop⟩ := messageLoop_stops dispatcher call h hpending app buf hcap hpass turns
      exact ⟨_, hloop, .nil⟩

/-! ## What the handlers are called for -/

/-- What the loops mean to accept: a frame with room for a head, its length in the head, and a head
decoded from it. -/
structure WellFormed (x : MsgFifo.Message) (rkMsgHead : MessageHead) : Prop where
  long : MessageHead.sizeofMessageHead ≤ x.length
  nonneg : 0 ≤ rkMsgHead.nSize.toInt
  size : rkMsgHead.nSize.toInt = (x.length : Int) - MessageHead.sizeofMessageHead
  fields : rkMsgHead = MessageHead.get (ofList x) 0

/-- The loop ends, and every handler it called was called for a well-formed frame: the turns are
those of the first pending frames. -/
def CallsWellFormed (xs : List MsgFifo.Message) (loop : Nat → Option (LoopResult σ η)) : Prop :=
  ∀ turns, xs.length < turns → ∃ r, loop turns = some r ∧
    List.Forall₂ (fun turn x => turn.handler ≠ none → WellFormed x turn.rkMsgHead)
      r.dispatched (xs.take r.dispatched.length)

/-- No frame that is passed on and has a handler is shorter than a head. -/
def NoShortCall (dispatcher : Nat → Option η) (xs : List MsgFifo.Message) : Prop :=
  ∀ x ∈ passedWithin messageLoopBufSize xs, x.length < MessageHead.sizeofMessageHead →
    handlerOf dispatcher (MessageHead.get (ofList x) 0).usMessageID.toNat = none

theorem TurnOf.wellFormed_iff {turn : MessageDispatch η} {x : MsgFifo.Message}
    (h : TurnOf dispatcher turn x) :
    (turn.handler ≠ none → WellFormed x turn.rkMsgHead) ↔
      (x.length < MessageHead.sizeofMessageHead →
        handlerOf dispatcher (MessageHead.get (ofList x) 0).usMessageID.toNat = none) := by
  rw [← h.handler]
  constructor
  · intro hwell hshort
    by_contra hhandler
    exact Nat.not_le_of_lt hshort (hwell hhandler).long
  · intro hnone hhandler
    have hlong : MessageHead.sizeofMessageHead ≤ x.length :=
      Nat.le_of_not_lt fun hshort => hhandler (hnone hshort)
    have hsize : turn.rkMsgHead.nSize.toInt = (x.length : Int) - 24 := by
      rw [h.size]
      exact h.announced.2
    simp only [MessageHead.sizeofMessageHead] at hlong
    exact ⟨hlong, by omega, hsize, h.fields (by omega)⟩

/-- A property of all pairs is one of the second list, where the first list's part in it is. -/
theorem forall₂_iff_forall {α β : Type} {R P : α → β → Prop} {Q : β → Prop} {as : List α}
    {bs : List β} (h : List.Forall₂ R as bs) (hiff : ∀ a b, R a b → (P a b ↔ Q b)) :
    List.Forall₂ P as bs ↔ ∀ b ∈ bs, Q b := by
  induction h with
  | nil => simp
  | cons hab _ ih => rw [List.forall₂_cons, List.forall_mem_cons, hiff _ _ hab, ih]

/-- **The loop, entered with any bytes in its buffer.** -/
theorem messageLoop_wellFormed_iff {I : σ → Prop} (hcall : LeavesQueue c n s I call)
    (h : Attached c n m pending) {app : σ} (happ : I app) (buf : Memory) :
    CallsWellFormed (pending s)
        (fun turns => messageLoop (c.recv s) dispatcher call turns app m buf messageLoopBufSize) ↔
      NoShortCall dispatcher (pending s) := by
  have hrun : ∀ turns, (pending s).length < turns → ∃ r,
      messageLoop (c.recv s) dispatcher call turns app m buf messageLoopBufSize = some r ∧
      List.Forall₂ (TurnOf dispatcher) r.dispatched
        (passedWithin messageLoopBufSize (pending s)) :=
    fun turns hturns => messageLoop_passes hcall h rfl happ buf (by decide) hturns
  have hframes : ∀ {dispatched : List (MessageDispatch η)},
      List.Forall₂ (TurnOf dispatcher) dispatched (passedWithin messageLoopBufSize (pending s)) →
      (pending s).take dispatched.length = passedWithin messageLoopBufSize (pending s) :=
    fun hturns => by
      rw [hturns.length_eq]
      exact (List.prefix_iff_eq_take.mp (passedWithin_front _ _)).symm
  constructor
  · intro hwell
    obtain ⟨r, hr, hcalls⟩ := hwell _ (Nat.lt_succ_self _)
    obtain ⟨r', hr', hturns⟩ := hrun _ (Nat.lt_succ_self _)
    obtain rfl := Option.some.inj (hr.symm.trans hr')
    rw [hframes hturns] at hcalls
    exact (forall₂_iff_forall hturns fun _ _ hturn => hturn.wellFormed_iff).mp hcalls
  · intro hshort turns hlen
    obtain ⟨r, hr, hturns⟩ := hrun turns hlen
    refine ⟨r, hr, ?_⟩
    rw [hframes hturns]
    exact (forall₂_iff_forall hturns fun _ _ hturn => hturn.wellFormed_iff).mpr hshort

end Loop

/-! ## The three services -/

section Services

variable {σ : Type} {c : MessageChannel} {n : Side → Nat} {m : Memory}
  {pending : Side → List MsgFifo.Message}

/-- **Malformed frames.** `Decode` keeps to the bytes it is given except with 6 to 13 of them. A
handler is called for malformed frames only exactly when no short frame announces its negative
length and has a handler, from any bytes in the buffer, and from the cleared one of the ticks. -/
theorem handlers_wellFormed_iff (h : Attached c n m pending) (buf : Memory)
    (loginRet : σ → List UInt8 → σ) (connections : σ)
    (messageDispatcher : Nat → Option NetService.MessageHandler)
    (verify : σ → List UInt8 → σ × Option Driver.Message) (http : HttpService σ)
    (hhttp : http.kMCHttp2Login = c) (db : DBService) (hdb : db.kMCHttp2Login = c)
    (time : TimeData) :
    (∀ nSize, MessageHead.DecodesWithin nSize ↔ nSize < 6 ∨ 14 ≤ nSize) ∧
      (CallsWellFormed (pending .input) (fun turns => messageLoop c.recvMessasgeInput
          messageDispatcher (NetService.handleMsg loginRet) turns connections m buf
          messageLoopBufSize) ↔
        NoShortCall messageDispatcher (pending .input)) ∧
      (CallsWellFormed (pending .output) (fun turns => messageLoop c.recvMessageOutput
          http.messageDispatcher (HttpService.handle verify) turns http m buf
          messageLoopBufSize) ↔
        NoShortCall http.messageDispatcher (pending .output)) ∧
      (CallsWellFormed (pending .output) (fun turns => messageLoop c.recvMessageOutput
          db.messageDispatcher (fun svc m _ => (svc, m)) turns db m buf messageLoopBufSize) ↔
        NoShortCall db.messageDispatcher (pending .output)) ∧
      (CallsWellFormed (pending .input) (fun turns =>
          NetService.tickHttpMsg loginRet turns c messageDispatcher connections m) ↔
        NoShortCall messageDispatcher (pending .input)) ∧
      (CallsWellFormed (pending .output) (fun turns => HttpService.tick verify turns http m time) ↔
        NoShortCall http.messageDispatcher (pending .output)) ∧
      (CallsWellFormed (pending .output) (fun turns => DBService.tick turns db m time) ↔
        NoShortCall db.messageDispatcher (pending .output)) := by
  have hnet : LeavesQueue c n .input (fun _ => True) (NetService.handleMsg loginRet) :=
    NetService.handleMsg_leavesQueue loginRet .input
  have hhandle : LeavesQueue c n .output (fun svc : HttpService σ => svc.kMCHttp2Login = c)
      (HttpService.handle verify) := HttpService.handle_leavesQueue verify
  have hnone : LeavesQueue c n .output (fun _ => True)
      (fun (svc : DBService) m (_ : MessageDispatch DBMessageHandler) => (svc, m)) :=
    fun _ _ _ pending _ h => ⟨trivial, pending, h, rfl⟩
  refine ⟨MessageHead.decodesWithin_iff, ?_, ?_, ?_, ?_, ?_, ?_⟩
  · exact messageLoop_wellFormed_iff hnet h trivial buf
  · exact messageLoop_wellFormed_iff hhandle h hhttp buf
  · exact messageLoop_wellFormed_iff hnone h trivial buf
  · exact messageLoop_wellFormed_iff hnet h trivial _
  · subst hhttp
    refine messageLoop_wellFormed_iff hhandle h ?_ _
    rfl
  · subst hdb
    exact messageLoop_wellFormed_iff hnone h trivial _

end Services

/-! ## A frame of fourteen bytes

Its length field holds -10, and its id is the answer's to a login. -/

def shortFrame : MsgFifo.Message := [246, 255, 255, 255, 2, 0, 0, 0, 0, 0, 0, 0, 0, 0]

theorem shortFrame_passed : passedWithin messageLoopBufSize [shortFrame] = [shortFrame] := by
  decide

/-- Sent to the input queue of a channel. -/
def afterShortFrame (r : MessageChannel.InitResult) : Memory :=
  r.channel.memAfter r.mem (sendsOf .input [shortFrame])

theorem afterShortFrame_attached :
    let r := (MessageChannel.new ⟨0, 0⟩ ⟨0, 0⟩).initMessageQueue firstAttach (fun _ => 0) 7 256 256
    Attached r.channel (fun _ => 256) (afterShortFrame r)
      (Function.update (fun _ => []) .input [shortFrame]) := by
  have hmap : (ShareMemory.new.attachShareMemory firstAttach 7
    (segmentSize fun _ => 256)).ret = true := by decide
  obtain ⟨-, -, -, -, -, hattached, -⟩ :=
    new_attach_init ⟨0, 0⟩ ⟨0, 0⟩ (fun _ => by decide) hmap (fun _ => 0)
  exact hattached.sends .input (by simp [shortFrame]) (by decide)

theorem handlers_wellFormed_iff_run :
    let r := (MessageChannel.new ⟨0, 0⟩ ⟨0, 0⟩).initMessageQueue firstAttach (fun _ => 0) 7 256 256
    let m := afterShortFrame r
    (∀ nSize, MessageHead.DecodesWithin nSize ↔ nSize < 6 ∨ 14 ≤ nSize) ∧
      (CallsWellFormed [shortFrame] (fun turns => messageLoop r.channel.recvMessasgeInput
          NetService.initMessageDispatcher (NetService.handleMsg fun _ _ => ()) turns () m
          (fun _ => 255) messageLoopBufSize) ↔
        NoShortCall NetService.initMessageDispatcher [shortFrame]) ∧
      (CallsWellFormed [] (fun turns => messageLoop r.channel.recvMessageOutput
          HttpService.initDispatcher (HttpService.handle fun _ _ => ((), none)) turns
          (silentHttp r.channel) m (fun _ => 255) messageLoopBufSize) ↔
        NoShortCall HttpService.initDispatcher []) ∧
      (CallsWellFormed [] (fun turns => messageLoop r.channel.recvMessageOutput
          DBService.initDispatcher (fun (svc : DBService) m _ => (svc, m)) turns
          ⟨[], r.channel, DBService.initDispatcher⟩ m (fun _ => 255) messageLoopBufSize) ↔
        NoShortCall DBService.initDispatcher []) ∧
      (CallsWellFormed [shortFrame] (fun turns => NetService.tickHttpMsg (fun _ _ => ()) turns
          r.channel NetService.initMessageDispatcher () m) ↔
        NoShortCall NetService.initMessageDispatcher [shortFrame]) ∧
      (CallsWellFormed [] (fun turns => HttpService.tick (fun _ _ => ((), none)) turns
          (silentHttp r.channel) m idleTime) ↔
        NoShortCall HttpService.initDispatcher []) ∧
      (CallsWellFormed [] (fun turns =>
          DBService.tick turns ⟨[], r.channel, DBService.initDispatcher⟩ m idleTime) ↔
        NoShortCall DBService.initDispatcher []) := by
  have hattached := afterShortFrame_attached
  dsimp only at hattached ⊢
  generalize (MessageChannel.new ⟨0, 0⟩ ⟨0, 0⟩).initMessageQueue firstAttach (fun _ => 0) 7 256 256 = r
    at hattached ⊢
  exact handlers_wellFormed_iff hattached (fun _ => 255) (fun _ _ => ()) ()
    NetService.initMessageDispatcher (fun _ _ => ((), none)) (silentHttp r.channel) rfl
    ⟨[], r.channel, DBService.initDispatcher⟩ rfl idleTime

/-- `TickHttpMsg` calls the login handler for it, and six bytes are decoded as fourteen. -/
theorem short_frame_handled :
    let r := (MessageChannel.new ⟨0, 0⟩ ⟨0, 0⟩).initMessageQueue firstAttach (fun _ => 0) 7 256 256
    ¬CallsWellFormed [shortFrame] (fun turns => NetService.tickHttpMsg (fun _ _ => ()) turns
        r.channel NetService.initMessageDispatcher () (afterShortFrame r)) ∧
      ¬MessageHead.DecodesWithin 6 := by
  have hattached := afterShortFrame_attached
  dsimp only at hattached ⊢
  generalize (MessageChannel.new ⟨0, 0⟩ ⟨0, 0⟩).initMessageQueue firstAttach (fun _ => 0) 7 256 256 = r
    at hattached ⊢
  constructor
  · intro hwell
    have hshort := (messageLoop_wellFormed_iff (s := .input)
      (NetService.handleMsg_leavesQueue (fun _ _ => ()) .input) hattached trivial _).mp hwell
    have hmem : shortFrame ∈ passedWithin messageLoopBufSize [shortFrame] := by
      rw [shortFrame_passed]
      exact List.mem_singleton_self _
    exact absurd (hshort shortFrame hmem (by decide)) (by decide)
  · rw [MessageHead.decodesWithin_iff]
    decide

end MmDriver

import MmDriver.Laws.Common.Message
import MmDriver.Test.DBService
import MmDriver.Test.HttpService
import MmDriver.Test.NetService

/-!
# What one run of the message loop takes

The loop takes messages as long as none is longer than the one before it: the capacity of a
receive is the length of the last message. `messageLoop_eq` gives the messages taken and those
left, whatever the handlers do to the channel's other queue.

So a tick empties its queue exactly when the lengths of the pending messages fall, from the 2048
bytes of the buffer on (`tick_drains_iff`).
-/

namespace MmDriver

open ByteMem MessageChannel

/-! ## What is taken -/

/-- The messages taken with a buffer of `cap` bytes: each bounds the length of the next. -/
def takenWithin (cap : Nat) : List MsgFifo.Message → List MsgFifo.Message
  | [] => []
  | x :: xs => if x.length ≤ cap then x :: takenWithin x.length xs else []

/-- The messages left. -/
def leftWithin (cap : Nat) : List MsgFifo.Message → List MsgFifo.Message
  | [] => []
  | x :: xs => if x.length ≤ cap then leftWithin x.length xs else x :: xs

theorem takenWithin_append_left (cap : Nat) (xs : List MsgFifo.Message) :
    takenWithin cap xs ++ leftWithin cap xs = xs := by
  induction xs generalizing cap with
  | nil => rfl
  | cons x xs ih =>
    rw [takenWithin, leftWithin]
    split
    · rw [List.cons_append, ih]
    · rfl

/-- The lengths do not rise, and the first is at most `cap`. -/
def Falling (cap : Nat) (xs : List MsgFifo.Message) : Prop :=
  (cap :: xs.map List.length).IsChain (· ≥ ·)

theorem falling_cons (cap : Nat) (x : MsgFifo.Message) (xs : List MsgFifo.Message) :
    Falling cap (x :: xs) ↔ x.length ≤ cap ∧ Falling x.length xs := by
  rw [Falling, List.map_cons, List.isChain_cons_cons]
  exact Iff.rfl

/-- Nothing is left exactly when the lengths fall. -/
theorem leftWithin_eq_nil_iff (cap : Nat) (xs : List MsgFifo.Message) :
    leftWithin cap xs = [] ↔ Falling cap xs := by
  induction xs generalizing cap with
  | nil => simp [leftWithin, Falling]
  | cons x xs ih =>
    rw [leftWithin, falling_cons]
    split
    · next hle => rw [ih, and_iff_right hle]
    · next hlong => exact iff_of_false (List.cons_ne_nil x xs) fun hfall => hlong hfall.1

/-! ## Encoded messages -/

/-- A message that an encoder produced. -/
def Encoded (x : MsgFifo.Message) : Prop :=
  ∃ (e sent : MessageEncoder) (p : Driver.Message) (rkHead head : MessageHead),
    p.Honest ∧ e.encode (some p) rkHead = ⟨true, sent, head⟩ ∧ sent.frame = x

theorem Encoded.length {x : MsgFifo.Message} (h : Encoded x) :
    24 ≤ x.length ∧ x.length < 2 ^ 16 := by
  obtain ⟨e, sent, p, rkHead, head, hp, hencode, rfl⟩ := h
  obtain ⟨hsize, hsmall⟩ := MessageEncoder.getSize_encode hp hencode
  rw [MessageEncoder.frame, slice_length, hsize]
  exact ⟨Nat.le_add_right 24 _, hsmall⟩

theorem Encoded.ne_nil {x : MsgFifo.Message} (h : Encoded x) : x ≠ [] := by
  rintro rfl
  exact absurd h.length.1 (by decide)

/-- The turn of the loop that takes the message `x`. -/
def turnFor {η : Type} (dispatcher : Nat → Option η) (x : MsgFifo.Message) : MessageDispatch η :=
  let kMessageHead := MessageHead.get (ofList x) 0
  ⟨handlerOf dispatcher kMessageHead.usMessageID.toNat, kMessageHead,
    x.drop MessageHead.sizeofMessageHead⟩

/-- Where a message of at least a head's size was received, its head can be read from it. -/
theorem get_received {buf : Memory} {x : MsgFifo.Message} (hbuf : slice buf 0 x.length = x)
    (hx : 24 ≤ x.length) : MessageHead.get buf 0 = MessageHead.get (ofList x) 0 := by
  refine MessageHead.get_congr fun i hi => ?_
  have hin : i < x.length := by omega
  rw [Nat.zero_add, ofList, ← hbuf, slice_getD hin, Nat.zero_add]

theorem messageBodySize_eq {k : Nat} (hk : 24 ≤ k) (hk16 : k < 2 ^ 16) :
    messageBodySize k = ((k - 24 : Nat) : Int) := by
  rw [messageBodySize, MessageHead.sizeofMessageHead, SizeT.sub_eq hk (by omega),
    TInt32.ofNat_eq (by omega)]

/-- The handler of a message that has a whole head decodes the rest of it. -/
theorem ofInt_messageBodySize {k : Nat} (hk : 24 ≤ k) (hk16 : k < 2 ^ 16) :
    TUint16.ofInt (messageBodySize k) = k - 24 := by
  rw [messageBodySize_eq hk hk16, TUint16.ofInt]
  omega

/-- The length in an encoded message's head is the received length without the head. -/
theorem Encoded.nSize {x : MsgFifo.Message} (h : Encoded x) :
    (MessageHead.get (ofList x) 0).nSize.toInt = messageBodySize x.length := by
  obtain ⟨hlow, hhigh⟩ := h.length
  rw [messageBodySize_eq hlow hhigh]
  obtain ⟨e, sent, p, rkHead, head, hp, hencode, rfl⟩ := h
  obtain ⟨hsize, hsmall⟩ := MessageEncoder.getSize_encode hp hencode
  have hlen : sent.frame.length = sent.getSize := slice_length _ _ _
  have hself : slice (ofList sent.frame) 0 sent.getSize = sent.frame := by
    rw [← hlen, slice_ofList]
  rw [(MessageEncoder.decode_encode hp hencode hself).1, hlen, hsize, MessageEncoder.headFor,
    ← Driver.Message.body_length, Nat.add_sub_cancel_left]
  exact Int32.toInt_ofNat_of_lt (by omega)

/-- What a handler decodes is what stands behind the head, where there is a whole one. -/
theorem slice_body (buf : Memory) {len : Nat} (hlow : 24 ≤ len) (hhigh : len < 2 ^ 16) :
    slice buf MessageHead.sizeofMessageHead (TUint16.ofInt (messageBodySize len)) =
      (slice buf 0 len).drop MessageHead.sizeofMessageHead := by
  have hpart := slice_part buf 0 (show 24 + (len - 24) ≤ len by omega)
  rw [Nat.zero_add, List.take_of_length_le (by rw [List.length_drop, slice_length])] at hpart
  rw [ofInt_messageBodySize hlow hhigh]
  exact hpart

/-- A received message is decoded into its head and its body. -/
theorem Encoded.received {x : MsgFifo.Message} (h : Encoded x) {buf : Memory}
    (hbuf : slice buf 0 x.length = x) :
    (MessageHead.new.decode buf 0 x.length).2 = MessageHead.get (ofList x) 0 ∧
      slice buf MessageHead.sizeofMessageHead (TUint16.ofInt (messageBodySize x.length)) =
        x.drop MessageHead.sizeofMessageHead := by
  obtain ⟨hlow, hhigh⟩ := h.length
  constructor
  · rw [MessageHead.decode_eq _ _ _ (by omega)]
    exact get_received hbuf hlow
  · rw [slice_body buf hlow hhigh, hbuf]

/-! ## The loop -/

section Loop

variable {σ η : Type} {c : MessageChannel} {n : Side → Nat} {m : Memory}
  {pending : Side → List MsgFifo.Message} {s : Side} {dispatcher : Nat → Option η}
  {call : σ → Memory → MessageDispatch η → σ × Memory}

/-- The loop, as far as the next receive: it ends, or a message is handled. -/
theorem messageLoop_succ {recv : Memory → Memory → Nat → MsgQueue.PopResult} {turns : Nat} {app : σ}
    {buf : Memory} {bufSize : Nat} {r : LoopResult σ η}
    (h : messageLoop recv dispatcher call (turns + 1) app m buf bufSize = some r) :
    let received := recv m buf bufSize
    let goes := received.ret && decide
      ((MessageHead.new.decode received.buf 0 received.msgLength).2.nSize.toInt =
        messageBodySize received.msgLength)
    (goes = false ∧ r.app = app ∧ r.mem = received.mem) ∨
    (goes = true ∧
      let called := call app received.mem (turnOf dispatcher received.buf received.msgLength)
      ∃ rest, messageLoop recv dispatcher call turns called.1 called.2 received.buf
        received.msgLength = some rest ∧ r.app = rest.app ∧ r.mem = rest.mem) := by
  rw [messageLoop] at h
  dsimp only at h ⊢
  generalize recv m buf bufSize = received at h ⊢
  split at h
  · next hret =>
    obtain rfl := Option.some.inj h
    exact .inl ⟨by rw [hret, Bool.false_and], rfl, rfl⟩
  · next hret =>
    have htrue : received.ret = true := Bool.eq_true_of_not_eq_false hret
    rw [htrue, Bool.true_and]
    split at h
    · next hhead =>
      obtain rfl := Option.some.inj h
      exact .inl ⟨decide_eq_false hhead, rfl, rfl⟩
    · next hhead =>
      obtain ⟨rest, hrest, rfl⟩ := Option.map_eq_some_iff.mp h
      exact .inr ⟨decide_eq_true (not_not.mp hhead), rest, hrest, rfl, rfl⟩

/-- What a turn does leaves the queue it came from, in the states `I` of the service. -/
def LeavesQueue (c : MessageChannel) (n : Side → Nat) (s : Side) (I : σ → Prop)
    (call : σ → Memory → MessageDispatch η → σ × Memory) : Prop :=
  ∀ app m turn pending, I app → Attached c n m pending →
    I (call app m turn).1 ∧ ∃ pending', Attached c n (call app m turn).2 pending' ∧
      pending' s = pending s

/-- **The loop**: the messages that come out in turn, and those that are left. -/
theorem messageLoop_eq {I : σ → Prop} (hcall : LeavesQueue c n s I call)
    {xs : List MsgFifo.Message} (h : Attached c n m pending) (hpending : pending s = xs)
    (hxs : ∀ x ∈ xs, Encoded x) {app : σ} (happ : I app) (buf : Memory) {cap : Nat}
    (hcap : cap < 2 ^ 16) {turns : Nat} (hturns : xs.length < turns) :
    ∃ r, messageLoop (c.recv s) dispatcher call turns app m buf cap = some r ∧
      r.dispatched = (takenWithin cap xs).map (turnFor dispatcher) ∧
      ∃ pending', Attached c n r.mem pending' ∧ pending' s = leftWithin cap xs := by
  induction xs generalizing m pending app buf cap turns with
  | nil =>
    obtain ⟨turns, rfl⟩ := Nat.exists_eq_succ_of_ne_zero (Nat.ne_zero_of_lt hturns)
    obtain ⟨hret, hmem⟩ := h.recv_refused (s := s) buf hcap (by simp [hpending])
    refine ⟨⟨app, m, []⟩, ?_, rfl, pending, h, hpending⟩
    rw [messageLoop]
    dsimp only
    rw [if_pos hret, hmem]
  | cons x xs ih =>
    obtain ⟨turns, rfl⟩ := Nat.exists_eq_succ_of_ne_zero (Nat.ne_zero_of_lt hturns)
    have hx : Encoded x := hxs x List.mem_cons_self
    rw [takenWithin, leftWithin]
    by_cases hfit : x.length ≤ cap
    · rw [if_pos hfit, if_pos hfit]
      have hturn := h.recv_front hpending hx.ne_nil buf hfit hcap
      have hnext := h.recv_next s buf hcap
      have hgive : ¬((x = [] ∧ xs = []) ∨ cap < x.length) :=
        not_or.mpr ⟨fun hempty => hx.ne_nil hempty.1, Nat.not_lt_of_le hfit⟩
      rw [hpending, MsgFifo.step, if_neg hgive] at hnext
      generalize hr : c.recv s m buf cap = r at hturn hnext
      obtain ⟨hret, hlen, hbuf⟩ := hturn
      rw [hlen] at hbuf
      obtain ⟨hhead, hbody⟩ := hx.received hbuf
      have hturn : turnOf dispatcher r.buf x.length = turnFor dispatcher x := by
        rw [turnOf, hhead, hbody]
        rfl
      -- what the handler does leaves the rest of this queue
      obtain ⟨happ', pending', hthen, hsame⟩ := hcall app r.mem (turnFor dispatcher x) _ happ hnext
      rw [Function.update_self] at hsame
      obtain ⟨t, hloop, hdispatched, hleft⟩ := ih hthen hsame
        (fun y hy => hxs y (List.mem_cons_of_mem x hy)) happ' r.buf hx.length.2
        (Nat.lt_of_succ_lt_succ hturns)
      refine ⟨{ t with dispatched := turnFor dispatcher x :: t.dispatched }, ?_, ?_, hleft⟩
      · rw [messageLoop]
        dsimp only
        rw [hr, hret, if_neg (by decide), hlen, hhead, if_neg (not_not.mpr hx.nSize), hturn]
        exact congrArg _ hloop
      · exact congrArg (turnFor dispatcher x :: ·) hdispatched
    · rw [if_neg hfit, if_neg hfit]
      obtain ⟨hret, hmem⟩ := h.recv_refused (s := s) buf hcap fun y ys hys => by
        rw [hpending] at hys
        obtain ⟨rfl, -⟩ := List.cons.inj hys
        exact Nat.lt_of_not_le hfit
      refine ⟨⟨app, m, []⟩, ?_, rfl, pending, h, hpending⟩
      rw [messageLoop]
      dsimp only
      rw [if_pos hret, hmem]

/-- A tick that takes every pending message, each once and in order, and leaves the queue empty. -/
def Drains (q : MsgQueue) (dispatcher : Nat → Option η) (xs : List MsgFifo.Message)
    (tick : Nat → Option (LoopResult σ η)) : Prop :=
  ∀ turns, xs.length < turns → ∃ r, tick turns = some r ∧
    r.dispatched = xs.map (turnFor dispatcher) ∧ q.getUsedSize r.mem = 0

/-- When the loop drains its queue. -/
theorem runMessageLoop_drains_iff {I : σ → Prop} (hcall : LeavesQueue c n s I call)
    (h : Attached c n m pending) (hxs : ∀ x ∈ pending s, Encoded x) {app : σ} (happ : I app) :
    Drains (c.queue s) dispatcher (pending s)
        (fun turns => runMessageLoop (c.recv s) dispatcher call turns app m) ↔
      Falling messageLoopBufSize (pending s) := by
  have hrun : ∀ turns, (pending s).length < turns → ∃ r,
      runMessageLoop (c.recv s) dispatcher call turns app m = some r ∧
      r.dispatched = (takenWithin messageLoopBufSize (pending s)).map (turnFor dispatcher) ∧
      ∃ pending', Attached c n r.mem pending' ∧
        pending' s = leftWithin messageLoopBufSize (pending s) :=
    fun turns hturns => messageLoop_eq hcall h rfl hxs happ _ (by decide) hturns
  rw [← leftWithin_eq_nil_iff]
  constructor
  · intro hdrains
    obtain ⟨r, hr, -, hused⟩ := hdrains _ (Nat.lt_succ_self _)
    obtain ⟨r', hr', -, pending', hthen, hleft⟩ := hrun _ (Nat.lt_succ_self _)
    obtain rfl := Option.some.inj (hr.symm.trans hr')
    rw [(hthen.holds s).getUsedSize_eq, hleft] at hused
    exact MsgFifo.occupied_eq_zero hused
  · intro hnone turns hturns
    obtain ⟨r, hr, hdispatched, pending', hthen, hleft⟩ := hrun turns hturns
    have hall := takenWithin_append_left messageLoopBufSize (pending s)
    rw [hnone, List.append_nil] at hall
    rw [hall] at hdispatched
    refine ⟨r, hr, hdispatched, ?_⟩
    rw [(hthen.holds s).getUsedSize_eq, hleft, hnone, MsgFifo.occupied_nil]

end Loop

/-! ## The three services -/

variable {σ : Type} {c : MessageChannel} {n : Side → Nat} {m : Memory}
  {pending : Side → List MsgFifo.Message}

theorem NetService.handleMsg_leavesQueue (loginRet : σ → List UInt8 → σ) (s : Side) :
    LeavesQueue c n s (fun _ => True) (NetService.handleMsg loginRet) := by
  intro app m turn pending _ h
  have hmem : (NetService.handleMsg loginRet app m turn).2 = m := by
    unfold NetService.handleMsg
    split <;> rfl
  rw [hmem]
  exact ⟨trivial, pending, h, rfl⟩

/-- An answer goes to the input queue. -/
theorem HttpService.sendMsgToNetServer_attached (svc : HttpService σ)
    (h : Attached svc.kMCHttp2Login n m pending) (msg : Driver.Message) :
    (svc.sendMsgToNetServer m msg).2.1.kMCHttp2Login = svc.kMCHttp2Login ∧
      ∃ pending', Attached svc.kMCHttp2Login n (svc.sendMsgToNetServer m msg).2.2 pending' ∧
        pending' .output = pending .output := by
  unfold HttpService.sendMsgToNetServer
  dsimp only
  generalize hr : svc.kMsgEncoder.encode (some msg) _ = r
  obtain ⟨ret, sent, head⟩ := r
  cases ret with
  | false =>
    rw [if_pos rfl]
    exact ⟨rfl, pending, h, rfl⟩
  | true =>
    have hsize : sent.getSize < 2 ^ 16 := by
      obtain ⟨-, rfl⟩ := MessageEncoder.encode_true hr
      exact Nat.mod_lt _ (by decide)
    obtain ⟨hnext, -⟩ := h.send_next .input sent.getBuff hsize
    rw [if_neg (by dsimp only; decide)]
    exact ⟨rfl, _, hnext, Function.update_of_ne (by decide) _ _⟩

theorem HttpService.handle_leavesQueue (verify : σ → List UInt8 → σ × Option Driver.Message) :
    LeavesQueue c n .output (fun svc : HttpService σ => svc.kMCHttp2Login = c)
      (HttpService.handle verify) := by
  rintro svc m turn pending rfl h
  unfold HttpService.handle
  cases turn.handler with
  | none => exact ⟨rfl, pending, h, rfl⟩
  | some handler =>
    cases handler with
    | handleMsgDefault => exact ⟨rfl, pending, h, rfl⟩
    | handleMsgUserLogin =>
      dsimp only [HttpService.handleMsgUserLogin]
      cases (verify svc.web turn.pBuff).2 with
      | none => exact ⟨rfl, pending, h, rfl⟩
      | some msgRet =>
        exact HttpService.sendMsgToNetServer_attached
          { svc with web := (verify svc.web turn.pBuff).1 } h msgRet

/-- **What one tick takes.** The queue is emptied, with every message dispatched once and in order,
exactly when the lengths of the pending messages fall from the buffer's size on. -/
theorem tick_drains_iff (h : Attached c n m pending) (hxs : ∀ s, ∀ x ∈ pending s, Encoded x)
    (loginRet : σ → List UInt8 → σ) (connections : σ)
    (messageDispatcher : Nat → Option NetService.MessageHandler)
    (verify : σ → List UInt8 → σ × Option Driver.Message) (http : HttpService σ)
    (hhttp : http.kMCHttp2Login = c) (db : DBService) (hdb : db.kMCHttp2Login = c)
    (time : TimeData) :
    (Drains c.msgInput messageDispatcher (pending .input) (fun turns =>
          NetService.tickHttpMsg loginRet turns c messageDispatcher connections m) ↔
        Falling messageLoopBufSize (pending .input)) ∧
      (Drains c.msgOutput http.messageDispatcher (pending .output) (fun turns =>
          HttpService.tick verify turns http m time) ↔
        Falling messageLoopBufSize (pending .output)) ∧
      (Drains c.msgOutput db.messageDispatcher (pending .output) (fun turns =>
          DBService.tick turns db m time) ↔
        Falling messageLoopBufSize (pending .output)) := by
  refine ⟨?_, ?_, ?_⟩
  · exact runMessageLoop_drains_iff (NetService.handleMsg_leavesQueue loginRet .input) h
      (hxs .input) trivial
  · subst hhttp
    exact runMessageLoop_drains_iff (HttpService.handle_leavesQueue verify) h (hxs .output) rfl
  · subst hdb
    exact runMessageLoop_drains_iff (I := fun _ => True)
      (fun _ _ _ pending _ h => ⟨trivial, pending, h, rfl⟩) h (hxs .output) trivial

/-! ## A longer message behind a shorter one

A message without a body, and one with four bytes of body. The receive of the second offers the
24 bytes of the first. -/

/-- A message of id 2 without a body. -/
def noBytes : Driver.Message := { getMessageID := 2, encode := fun m _ _ => ⟨true, m, 0⟩ }

/-- What an encoder makes of a message. -/
def encodedBy (e : MessageEncoder) (p : Driver.Message) : MsgFifo.Message :=
  (e.encode (some p) MessageHead.new).encoder.frame

def shortThenLong : List MsgFifo.Message :=
  [encodedBy (MessageEncoder.new fun _ => 0) noBytes, encodedBy (MessageEncoder.new fun _ => 0) fourBytes]

theorem shortThenLong_encoded : ∀ x ∈ shortThenLong, Encoded x := by
  intro x hx
  simp only [shortThenLong, List.mem_cons, List.not_mem_nil, or_false] at hx
  rcases hx with rfl | rfl
  · exact ⟨_, _, noBytes, _, _, ⟨fun _ _ _ _ _ => Nat.zero_le _⟩, rfl, rfl⟩
  · exact ⟨_, _, fourBytes, _, _, fourBytes_honest, rfl, rfl⟩

theorem shortThenLong_lengths : shortThenLong.map List.length = [24, 28] := by
  simp only [shortThenLong, encodedBy, MessageEncoder.frame, List.map_cons, slice_length,
    List.map_nil]
  rfl

/-- Sent to the input queue of a channel. -/
def afterShortThenLong (r : MessageChannel.InitResult) : Memory :=
  r.channel.memAfter r.mem (sendsOf .input shortThenLong)

theorem afterShortThenLong_attached :
    let r := (MessageChannel.new ⟨0, 0⟩ ⟨0, 0⟩).initMessageQueue firstAttach (fun _ => 0) 7 256 256
    Attached r.channel (fun _ => 256) (afterShortThenLong r)
      (Function.update (fun _ => []) .input shortThenLong) := by
  have hmap : (ShareMemory.new.attachShareMemory firstAttach 7
    (segmentSize fun _ => 256)).ret = true := by decide
  obtain ⟨-, -, -, -, -, hattached, -⟩ :=
    new_attach_init ⟨0, 0⟩ ⟨0, 0⟩ (fun _ => by decide) hmap (fun _ => 0)
  have hfit : MsgFifo.occupied shortThenLong ≤ 256 := by
    have hsum : MsgFifo.occupied shortThenLong = ((shortThenLong.map List.length).map (8 + ·)).sum :=
      by rw [List.map_map]; rfl
    rw [hsum, shortThenLong_lengths]
    decide
  exact hattached.sends .input (fun x hx => (shortThenLong_encoded x hx).length.2) (by
    rw [MsgFifo.occupied_nil, Nat.zero_add]
    exact hfit)

/-- The web service of the example answers nothing. -/
def silentHttp (c : MessageChannel) : HttpService Unit :=
  ⟨1, [], c, MessageHead.new, MessageEncoder.new fun _ => 0, HttpService.initDispatcher, true, ()⟩

def idleTime : TimeData := ⟨2020, 6, 1, 10, 0, 0, 1, 0, 0⟩

theorem tick_drains_iff_run :
    let r := (MessageChannel.new ⟨0, 0⟩ ⟨0, 0⟩).initMessageQueue firstAttach (fun _ => 0) 7 256 256
    let m := afterShortThenLong r
    (Drains r.channel.msgInput NetService.initMessageDispatcher shortThenLong (fun turns =>
          NetService.tickHttpMsg (fun _ _ => ()) turns r.channel NetService.initMessageDispatcher () m) ↔
        Falling messageLoopBufSize shortThenLong) ∧
      (Drains r.channel.msgOutput HttpService.initDispatcher [] (fun turns =>
          HttpService.tick (fun _ _ => ((), none)) turns (silentHttp r.channel) m idleTime) ↔
        Falling messageLoopBufSize []) ∧
      (Drains r.channel.msgOutput DBService.initDispatcher [] (fun turns =>
          DBService.tick turns ⟨[], r.channel, DBService.initDispatcher⟩ m idleTime) ↔
        Falling messageLoopBufSize []) := by
  have hattached := afterShortThenLong_attached
  dsimp only at hattached ⊢
  generalize (MessageChannel.new ⟨0, 0⟩ ⟨0, 0⟩).initMessageQueue firstAttach (fun _ => 0) 7 256 256 = r
    at hattached ⊢
  refine tick_drains_iff hattached (fun s x hx => ?_) (fun _ _ => ()) ()
    NetService.initMessageDispatcher (fun _ _ => ((), none)) (silentHttp r.channel) rfl
    ⟨[], r.channel, DBService.initDispatcher⟩ rfl idleTime
  cases s with
  | input => exact shortThenLong_encoded x hx
  | output => exact absurd hx List.not_mem_nil

/-- `TickHttpMsg` leaves the longer message in the queue. -/
theorem longer_message_left :
    let r := (MessageChannel.new ⟨0, 0⟩ ⟨0, 0⟩).initMessageQueue firstAttach (fun _ => 0) 7 256 256
    ¬Drains r.channel.msgInput NetService.initMessageDispatcher shortThenLong (fun turns =>
        NetService.tickHttpMsg (fun _ _ => ()) turns r.channel NetService.initMessageDispatcher ()
          (afterShortThenLong r)) := by
  have hattached := afterShortThenLong_attached
  dsimp only at hattached ⊢
  generalize (MessageChannel.new ⟨0, 0⟩ ⟨0, 0⟩).initMessageQueue firstAttach (fun _ => 0) 7 256 256 = r
    at hattached ⊢
  have hnot : ¬Falling messageLoopBufSize shortThenLong := by
    rw [Falling, shortThenLong_lengths]
    decide
  exact mt (runMessageLoop_drains_iff (s := .input)
    (NetService.handleMsg_leavesQueue (fun _ _ => ()) .input) hattached shortThenLong_encoded
    trivial).mp hnot

end MmDriver

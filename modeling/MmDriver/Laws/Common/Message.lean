import MmDriver.Common.Message
import MmDriver.Laws.Common.MsgChannelAttach

/-!
# A message through a channel

`MessageEncoder::Encode` puts a head and a body into one buffer, a channel carries the buffer's
first `GetSize` bytes, and `MessageHead::Decode` reads the head out of what arrives. The two ends
agree on the fourteen bytes of the head, on the offset of the body and on three lengths.

Between the send and the receive any calls may be made on either queue of the segment. The
receive that takes the message is the one before which as many messages were taken as were
pending when it was sent.
-/

namespace MmDriver

open ByteMem CallMachine

/-! ## The head -/

namespace MessageHead

/-- The fourteen bytes `Encode` writes. -/
def put (h : MessageHead) (m : Memory) (a : Nat) : Memory :=
  let m := storeBits 4 m a h.nSize.toBitVec
  let m := storeBits 2 m (a + 4) h.usMessageID.toBitVec
  let m := storeBits 2 m (a + 6) h.nSrcServiceType.toBitVec
  let m := storeBits 2 m (a + 8) h.nScrServiceID.toBitVec
  let m := storeBits 2 m (a + 10) h.nDstServiceType.toBitVec
  storeBits 2 m (a + 12) h.nDstServiceID.toBitVec

/-- The head `Decode` reads. -/
def get (m : Memory) (a : Nat) : MessageHead :=
  { nSize := Int32.ofBitVec (loadBits 4 m a)
    usMessageID := UInt16.ofBitVec (loadBits 2 m (a + 4))
    nSrcServiceType := Int16.ofBitVec (loadBits 2 m (a + 6))
    nScrServiceID := Int16.ofBitVec (loadBits 2 m (a + 8))
    nDstServiceType := Int16.ofBitVec (loadBits 2 m (a + 10))
    nDstServiceID := Int16.ofBitVec (loadBits 2 m (a + 12)) }

theorem encode_eq (h : MessageHead) (m : Memory) (a : Nat) {n : Nat}
    (hn : sizeofMessageHead ≤ n) : h.encode m a n = (true, h.put m a) := by
  rw [encode, if_neg (Nat.not_lt_of_le hn)]
  rfl

theorem decode_eq (h : MessageHead) (m : Memory) (a : Nat) {n : Int} (hn : 6 ≤ n) :
    h.decode m a n = (true, get m a) := by
  have hnot : ¬n < 4 + 2 := Int.not_lt_of_ge hn
  rw [decode, if_neg hnot]
  rfl

/-- A head is read from its own bytes. -/
theorem get_congr {m m' : Memory} {a a' : Nat} (h : ∀ i < 14, m' (a' + i) = m (a + i)) :
    get m' a' = get m a := by
  have hfield : ∀ n off, off + n ≤ 14 → loadBits n m' (a' + off) = loadBits n m (a + off) := by
    intro n off hin
    refine loadBits_congr fun i hi => ?_
    rw [Nat.add_assoc, Nat.add_assoc]
    exact h (off + i) (by omega)
  have hsize : loadBits 4 m' a' = loadBits 4 m a := hfield 4 0 (by omega)
  rw [get, get, hsize, hfield 2 4 (by omega), hfield 2 6 (by omega), hfield 2 8 (by omega),
    hfield 2 10 (by omega), hfield 2 12 (by omega)]

/-- A head that was written reads back. -/
theorem get_put (h : MessageHead) (m : Memory) (a : Nat) : get (h.put m a) a = h := by
  -- each field is read past the later ones, which lie behind it
  simp (disch := omega) only [get, put, loadBits_storeBits, loadBits_storeBits_other,
    Int32.ofBitVec_toBitVec, Int16.ofBitVec_toBitVec, UInt16.ofBitVec_toBitVec]

/-- Writing a head changes no byte outside its fourteen. -/
theorem put_outside (h : MessageHead) {m : Memory} {a b : Nat} (hb : ¬(a ≤ b ∧ b < a + 14)) :
    h.put m a b = m b := by
  rw [put, storeBits_outside (by omega), storeBits_outside (by omega), storeBits_outside (by omega),
    storeBits_outside (by omega), storeBits_outside (by omega), storeBits_outside (by omega)]

end MessageHead

/-! ## The encoder -/

namespace Driver.Message

/-- The message's own `Encode` keeps to the capacity it is given and reports the length. -/
structure Honest (p : Driver.Message) : Prop where
  fits : ∀ m a cap, cap < 2 ^ 16 → (p.encode m a cap).ret = true → (p.encode m a cap).nBufSize ≤ cap

/-- What the body's `Encode` leaves in the encoder's buffer. -/
def encodeBody (p : Driver.Message) (e : MessageEncoder) : MessageEncodeResult :=
  p.encode e.szMsgBuf MessageHead.sizeofMessageHead
    (messageBufSize - MessageHead.sizeofMessageHead)

/-- The encoded body. -/
def body (p : Driver.Message) (e : MessageEncoder) : List UInt8 :=
  slice (p.encodeBody e).mem MessageHead.sizeofMessageHead (p.encodeBody e).nBufSize

@[simp] theorem body_length (p : Driver.Message) (e : MessageEncoder) :
    (p.body e).length = (p.encodeBody e).nBufSize := slice_length _ _ _

end Driver.Message

namespace MessageEncoder

/-- The head `Encode` leaves in the caller's hands. -/
def headFor (e : MessageEncoder) (p : Driver.Message) (rkHead : MessageHead) : MessageHead :=
  { rkHead with
    usMessageID := p.getMessageID, nSize := Int32.ofNat (p.encodeBody e).nBufSize }

/-- A successful `Encode`: the body behind its head. -/
theorem encode_true {e sent : MessageEncoder} {p : Driver.Message} {rkHead head : MessageHead}
    (h : e.encode (some p) rkHead = ⟨true, sent, head⟩) :
    (p.encodeBody e).ret = true ∧
      sent = ⟨(e.headFor p rkHead).put (p.encodeBody e).mem 0,
        TUint16.ofNat (MessageHead.sizeofMessageHead + (p.encodeBody e).nBufSize)⟩ := by
  rw [encode] at h
  dsimp only at h
  rw [← Driver.Message.encodeBody, MessageHead.encode_eq _ _ _ (Nat.le_refl _)] at h
  by_cases hbody : (p.encodeBody e).ret = false
  · rw [if_pos hbody] at h
    exact absurd (congrArg EncodeResult.ret h) Bool.false_ne_true
  · rw [if_neg hbody, if_neg (by dsimp only; decide)] at h
    exact ⟨Bool.eq_true_of_not_eq_false hbody, (congrArg EncodeResult.encoder h).symm⟩

/-- `Encode` succeeds where the message's own does: the head always has its room. -/
theorem encode_of_body {e : MessageEncoder} {p : Driver.Message} (rkHead : MessageHead)
    (hbody : (p.encodeBody e).ret = true) :
    e.encode (some p) rkHead =
      ⟨true, (e.encode (some p) rkHead).encoder, e.headFor p rkHead⟩ := by
  rw [encode]
  dsimp only
  rw [← Driver.Message.encodeBody, MessageHead.encode_eq _ _ _ (Nat.le_refl _), hbody]
  rfl

variable {e sent : MessageEncoder} {p : Driver.Message} {rkHead head : MessageHead}

/-- The length of a message is the head's and the body's: the `tuint16` does not wrap. -/
theorem getSize_encode (hp : p.Honest) (h : e.encode (some p) rkHead = ⟨true, sent, head⟩) :
    sent.getSize = 24 + (p.body e).length ∧ 24 + (p.body e).length < 2 ^ 16 := by
  obtain ⟨hbody, rfl⟩ := encode_true h
  have hle : (p.encodeBody e).nBufSize ≤ messageBufSize - MessageHead.sizeofMessageHead :=
    hp.fits _ _ _ (by decide) hbody
  simp only [messageBufSize, MessageHead.sizeofMessageHead] at hle
  have hsmall : 24 + (p.encodeBody e).nBufSize < 2 ^ 16 := by omega
  rw [Driver.Message.body_length]
  exact ⟨Nat.mod_eq_of_lt hsmall, hsmall⟩

/-- The bytes of an encoded message are its head, with room behind it, and its body. -/
theorem frame_byte (hp : p.Honest) (h : e.encode (some p) rkHead = ⟨true, sent, head⟩)
    {buf : Memory} (hbuf : slice buf 0 sent.getSize = sent.frame) :
    ∀ i < 24 + (p.body e).length, buf i = (e.headFor p rkHead).put (p.encodeBody e).mem 0 i := by
  intro i hi
  obtain ⟨hsize, -⟩ := getSize_encode hp h
  obtain ⟨-, rfl⟩ := encode_true h
  rw [frame, hsize] at hbuf
  have hget := congrArg (·[i]?) hbuf
  simp only [slice_getElem?, if_pos hi, Nat.zero_add, Option.some.injEq] at hget
  exact hget

/-- Where an encoded message arrives, its head is read back and its body stands behind. -/
theorem decode_encode (hp : p.Honest) (h : e.encode (some p) rkHead = ⟨true, sent, head⟩)
    {buf : Memory} (hbuf : slice buf 0 sent.getSize = sent.frame) :
    MessageHead.get buf 0 = e.headFor p rkHead ∧ slice buf 24 (p.body e).length = p.body e := by
  have hbyte := frame_byte hp h hbuf
  constructor
  · rw [← MessageHead.get_put (e.headFor p rkHead) (p.encodeBody e).mem 0]
    refine MessageHead.get_congr fun i hi => ?_
    rw [Nat.zero_add]
    exact hbyte i (by omega)
  · rw [Driver.Message.body_length, Driver.Message.body]
    refine slice_congr fun i hi => ?_
    rw [← Driver.Message.body_length] at hi
    rw [hbyte (24 + i) (by omega), MessageHead.put_outside _ (by omega)]
    rfl

end MessageEncoder

/-! ## The channel -/

namespace MessageChannel

open MsgFifo (deliveredAt)
open MsgQueue (Holds Outcome)

variable {c : MessageChannel} {n : Side → Nat} {m : Memory} {pending : Side → List MsgFifo.Message}

/-- How many messages the calls of a run took from a side. -/
def takenFrom (c : MessageChannel) (m : Memory) (s : Side) (ks : List Call) : Nat :=
  (deliveredAt s (ks.map abs) ((exec c.step m ks).2.map Outcome.reply)).length

/-- The replies of a run are the two FIFOs'. -/
theorem Attached.replies_eq (h : Attached c n m pending) {ks : List Call} (hks : ∀ k ∈ ks, Fits k) :
    (exec c.step m ks).2.map Outcome.reply = (exec (MsgFifo.stepAt n) pending (ks.map abs)).2 := by
  obtain ⟨-, hreplies⟩ := (simulates c n).exec h hks
  rw [← List.forall₂_eq_eq_eq]
  exact List.forall₂_map_left_iff.mpr hreplies

/-- The send to a side. -/
def send (c : MessageChannel) : Side → Memory → (Nat → UInt8) → Nat → MsgQueue.AppendResult
  | .input => c.sendMessageInput
  | .output => c.sendMessageOutput

theorem send_input (c : MessageChannel) : c.send .input = c.sendMessageInput := rfl

theorem send_output (c : MessageChannel) : c.send .output = c.sendMessageOutput := rfl

/-- A send keeps the invariant, with what the FIFO leaves on its side, and answers as the FIFO. -/
theorem Attached.send_next (h : Attached c n m pending) (s : Side) (pmsg : Nat → UInt8) {len : Nat}
    (hlen : len < 2 ^ 16) :
    Attached c n (c.send s m pmsg len).mem (Function.update pending s
        (MsgFifo.step (n s) (pending s) (.append (slice pmsg 0 len))).1) ∧
      MsgFifo.Reply.appended (c.send s m pmsg len).ret =
        (MsgFifo.step (n s) (pending s) (.append (slice pmsg 0 len))).2 := by
  have hcall : Fits (s, .append pmsg len) := hlen
  obtain ⟨hnext, hreply⟩ := simulates c n m pending _ hcall h
  have hstep : c.step m (s, .append pmsg len) = (c.send s m pmsg len).answer := by cases s <;> rfl
  rw [hstep] at hnext hreply
  exact ⟨hnext, hreply⟩

/-- A send that is accepted puts the message behind those pending. -/
theorem Attached.send_accepted (h : Attached c n m pending) {s : Side} {pmsg : Nat → UInt8}
    {len : Nat} (hlen : len < 2 ^ 16) (hret : (c.send s m pmsg len).ret = true) :
    Attached c n (c.send s m pmsg len).mem
      (Function.update pending s (pending s ++ [slice pmsg 0 len])) := by
  obtain ⟨hnext, hreply⟩ := h.send_next s pmsg hlen
  rw [hret] at hreply
  rw [MsgFifo.step] at hnext hreply
  split at hreply
  · next hfit => rwa [if_pos hfit] at hnext
  · cases hreply

/-- The sends of a list of messages to a side. -/
def sendsOf (s : Side) (xs : List MsgFifo.Message) : List Call :=
  xs.map fun x => (s, .append (ofList x) x.length)

/-- Messages that fit are all pending once they are sent. -/
theorem Attached.sends (h : Attached c n m pending) (s : Side) {xs : List MsgFifo.Message}
    (hxs : ∀ x ∈ xs, x.length < 2 ^ 16)
    (hfit : MsgFifo.occupied (pending s) + MsgFifo.occupied xs ≤ n s) :
    Attached c n (c.memAfter m (sendsOf s xs)) (Function.update pending s (pending s ++ xs)) := by
  induction xs generalizing m pending with
  | nil => simpa [sendsOf, memAfter] using h
  | cons x xs ih =>
    rw [MsgFifo.occupied_cons] at hfit
    have hret : (c.send s m (ofList x) x.length).ret = true := by
      have hroom : MsgFifo.occupied (pending s) + (8 + x.length) ≤ n s := by omega
      have hfront := ((h.holds s).append_fits (ofList x) hroom).1
      cases s <;> exact hfront
    have hnext := h.send_accepted (hxs x List.mem_cons_self) hret
    rw [slice_ofList] at hnext
    have hrest := ih hnext (fun y hy => hxs y (List.mem_cons_of_mem x hy)) (by
      rw [Function.update_self, MsgFifo.occupied_append, MsgFifo.occupied_cons,
        MsgFifo.occupied_nil]
      omega)
    rw [Function.update_self, Function.update_idem, List.append_assoc] at hrest
    cases s <;> exact hrest

/-- The receive from a side. -/
def recv (c : MessageChannel) : Side → Memory → Memory → Nat → MsgQueue.PopResult
  | .input => c.recvMessasgeInput
  | .output => c.recvMessageOutput

theorem recv_input (c : MessageChannel) : c.recv .input = c.recvMessasgeInput := rfl

theorem recv_output (c : MessageChannel) : c.recv .output = c.recvMessageOutput := rfl

theorem recv_eq (c : MessageChannel) (s : Side) (m buf : Memory) {cap : Nat} (hcap : cap < 2 ^ 16) :
    c.recv s m buf cap = (c.queue s).pop m buf cap := by
  cases s with
  | input => exact recvMessage_eq c.msgInput m buf hcap
  | output => exact recvMessage_eq c.msgOutput m buf hcap

/-- A receive keeps the invariant, with what the FIFO leaves on its side. -/
theorem Attached.recv_next (h : Attached c n m pending) (s : Side) (buf : Memory) {cap : Nat}
    (hcap : cap < 2 ^ 16) :
    Attached c n (c.recv s m buf cap).mem
      (Function.update pending s (MsgFifo.step (n s) (pending s) (.pop cap)).1) := by
  have hcall : Fits (s, .pop buf cap) := hcap
  obtain ⟨hnext, -⟩ := simulates c n m pending _ hcall h
  have hstep : c.step m (s, .pop buf cap) = (c.recv s m buf cap).answer := by cases s <;> rfl
  rw [hstep, MsgQueue.PopResult.answer_mem] at hnext
  exact hnext

/-- The receive whose turn it is takes the message. -/
theorem Attached.recv_front (h : Attached c n m pending) {s : Side} {x : MsgFifo.Message}
    {xs : List MsgFifo.Message} (hfront : pending s = x :: xs) (hx : x ≠ []) (buf : Memory)
    {cap : Nat} (hcap : x.length ≤ cap) (hcap16 : cap < 2 ^ 16) :
    let r := c.recv s m buf cap
    r.ret = true ∧ r.msgLength = x.length ∧ slice r.buf 0 r.msgLength = x := by
  have hholds : Holds (c.queue s) (n s) m (x :: xs) := hfront ▸ h.holds s
  obtain ⟨hret, hlen, hbody, -⟩ :=
    hholds.pop_delivers buf (fun hempty => hx hempty.1) (Nat.not_lt_of_le hcap)
  rw [recv_eq c s m buf hcap16]
  exact ⟨hret, hlen, hbody⟩

/-- A receive with nothing to take, or too little room for the message, leaves everything. -/
theorem Attached.recv_refused (h : Attached c n m pending) {s : Side} (buf : Memory) {cap : Nat}
    (hcap16 : cap < 2 ^ 16) (hfront : ∀ x xs, pending s = x :: xs → cap < x.length) :
    (c.recv s m buf cap).ret = false ∧ (c.recv s m buf cap).mem = m := by
  rw [recv_eq c s m buf hcap16]
  have hret := (h.holds s).pop_refuses buf fun x xs hxs => .inr (hfront x xs hxs)
  exact ⟨hret, (MsgQueue.pop_false hret).1⟩

/-- A receive takes the front message of its side, or nothing. -/
theorem Attached.recv_cases (h : Attached c n m pending) (s : Side) (buf : Memory) {cap : Nat}
    (hcap16 : cap < 2 ^ 16) :
    let r := c.recv s m buf cap
    r.msgLength < 2 ^ 16 ∧
      ((r.ret = false ∧ Attached c n r.mem pending) ∨
        (r.ret = true ∧ ∃ xs, pending s = slice r.buf 0 r.msgLength :: xs ∧
          Attached c n r.mem (Function.update pending s xs))) := by
  have hle : (c.recv s m buf cap).msgLength ≤ cap := by
    rw [recv_eq c s m buf hcap16]
    exact MsgQueue.pop_msgLength_le _ _ _ _
  refine ⟨Nat.lt_of_le_of_lt hle hcap16, ?_⟩
  by_cases hgive : ∃ x xs, pending s = x :: xs ∧ ¬((x = [] ∧ xs = []) ∨ cap < x.length)
  · obtain ⟨x, xs, hfront, hchunk⟩ := hgive
    have hnext := h.recv_next s buf hcap16
    have hholds : Holds (c.queue s) (n s) m (x :: xs) := hfront ▸ h.holds s
    obtain ⟨hret, -, hbody, -⟩ := hholds.pop_delivers buf (not_or.mp hchunk).1 (not_or.mp hchunk).2
    rw [hfront, MsgFifo.step, if_neg hchunk] at hnext
    rw [← recv_eq c s m buf hcap16] at hret hbody
    exact .inr ⟨hret, xs, by rw [hfront, hbody], hnext⟩
  · have hret : (c.recv s m buf cap).ret = false := by
      rw [recv_eq c s m buf hcap16]
      refine (h.holds s).pop_refuses buf fun x xs hfront => ?_
      exact not_not.mp fun hchunk => hgive ⟨x, xs, hfront, hchunk⟩
    have hmem : (c.recv s m buf cap).mem = m := by
      rw [recv_eq c s m buf hcap16] at hret ⊢
      exact (MsgQueue.pop_false hret).1
    rw [hmem]
    exact .inl ⟨hret, h⟩

/-- A send is accepted exactly when the message fits, and then puts it behind those pending. -/
theorem Attached.send_cases (h : Attached c n m pending) (s : Side) (pmsg : Nat → UInt8) {len : Nat}
    (hlen : len < 2 ^ 16) :
    let r := c.send s m pmsg len
    (r.ret = true ↔ len + 8 ≤ (c.queue s).getFreeSize m) ∧
      Attached c n r.mem (Function.update pending s
        (if r.ret then pending s ++ [slice pmsg 0 len] else pending s)) := by
  obtain ⟨hnext, hreply⟩ := h.send_next s pmsg hlen
  have hret : (c.send s m pmsg len).ret = true ↔ len + 8 ≤ (c.queue s).getFreeSize m := by
    have hadd : SizeT.add len MsgQueue.queueMessageHeadLength = len + 8 := SizeT.add_eq (by
      change len + 8 < 2 ^ 64
      omega)
    have happend : (c.send s m pmsg len).ret = ((c.queue s).append m pmsg len).ret := by
      cases s <;> rfl
    rw [happend, MsgQueue.append, hadd]
    split
    · next hfull => exact iff_of_false Bool.false_ne_true (Nat.not_le_of_lt hfull)
    · next hroom => exact iff_of_true (MsgQueue.putMessage_ret ..) (Nat.le_of_not_lt hroom)
  refine ⟨hret, ?_⟩
  generalize c.send s m pmsg len = r at hnext hreply ⊢
  rw [MsgFifo.step] at hnext hreply
  split at hreply
  · next hfit =>
    rw [if_pos hfit] at hnext
    rw [if_pos (MsgFifo.Reply.appended.inj hreply)]
    exact hnext
  · next hfit =>
    rw [if_neg hfit] at hnext
    rw [MsgFifo.Reply.appended.inj hreply, if_neg Bool.false_ne_true]
    exact hnext

/-- What a receive gives its caller: the length, the head and the body agree with what `e` was
given, and with what it left in `sent`. -/
structure Arrived (e : MessageEncoder) (p : Driver.Message) (rkHead : MessageHead)
    (sent : MessageEncoder) (r : MsgQueue.PopResult) : Prop where
  ret : r.ret = true
  length : r.msgLength = sent.getSize
  /-- The length is the sum of the two parts: it did not wrap. -/
  noWrap : sent.getSize = MessageHead.sizeofMessageHead + (p.encodeBody e).nBufSize
  /-- Whatever the caller's head held before, `Decode` fills it. -/
  decoded : ∀ kMessageHead : MessageHead,
    let d := kMessageHead.decode r.buf 0 r.msgLength
    d.1 = true ∧ d.2.usMessageID = p.getMessageID ∧
      d.2.nSrcServiceType = rkHead.nSrcServiceType ∧ d.2.nScrServiceID = rkHead.nScrServiceID ∧
      d.2.nDstServiceType = rkHead.nDstServiceType ∧ d.2.nDstServiceID = rkHead.nDstServiceID ∧
      d.2.nSize.toInt = (r.msgLength : Int) - MessageHead.sizeofMessageHead
  body : slice r.buf MessageHead.sizeofMessageHead (r.msgLength - MessageHead.sizeofMessageHead) =
    p.body e

/-- A receive that answers the bytes of an encoded message has everything of it. -/
theorem Arrived.of_frame {e sent : MessageEncoder} {p : Driver.Message} {rkHead head : MessageHead}
    {r : MsgQueue.PopResult} (hp : p.Honest)
    (hencode : e.encode (some p) rkHead = ⟨true, sent, head⟩) (hret : r.ret = true)
    (hlen : r.msgLength = sent.getSize) (hbuf : slice r.buf 0 r.msgLength = sent.frame) :
    Arrived e p rkHead sent r := by
  obtain ⟨hsize, hsmall⟩ := MessageEncoder.getSize_encode hp hencode
  rw [hlen] at hbuf
  obtain ⟨hhead, hbody⟩ := MessageEncoder.decode_encode hp hencode hbuf
  refine ⟨hret, hlen, ?_, fun kMessageHead => ?_, ?_⟩
  · rw [hsize, Driver.Message.body_length]
    rfl
  · have hsigned : (Int32.ofNat (p.encodeBody e).nBufSize).toInt =
        ((24 + (p.body e).length : Nat) : Int) - MessageHead.sizeofMessageHead := by
      rw [Driver.Message.body_length] at hsmall ⊢
      rw [Int32.toInt_ofNat_of_lt (by omega)]
      simp only [MessageHead.sizeofMessageHead]
      omega
    rw [hlen, hsize, MessageHead.decode_eq _ _ _ (by omega), hhead]
    exact ⟨rfl, rfl, rfl, rfl, rfl, rfl, hsigned⟩
  · rw [hlen, hsize]
    simp only [MessageHead.sizeofMessageHead, Nat.add_sub_cancel_left]
    exact hbody

/-- **A message round-trips.** Where its own `Encode` succeeds the encoder's does, and where a
channel in any state accepts it and any calls follow, the receive whose turn it is gets the same
id, the same four service fields, the body's length and the body. -/
theorem message_round_trip (h : Attached c n m pending) {e sent : MessageEncoder}
    {p : Driver.Message} (hp : p.Honest) (hbody : (p.encodeBody e).ret = true)
    (rkHead : MessageHead) (hsent : sent = (e.encode (some p) rkHead).encoder) :
    (e.encode (some p) rkHead).ret = true ∧
      ∀ {m₁ : Memory} {spans : List Span},
        c.sendMessageOutput m sent.getBuff sent.getSize = ⟨true, m₁, spans⟩ →
        ∀ {between : List Call}, (∀ k ∈ between, Fits k) →
          c.takenFrom m₁ .output between = (pending .output).length →
          ∀ (buf : Memory) {cap : Nat}, sent.getSize ≤ cap → cap < 2 ^ 16 →
            Arrived e p rkHead sent (c.recvMessageOutput (exec c.step m₁ between).1 buf cap) := by
  have hencode := MessageEncoder.encode_of_body rkHead hbody
  rw [← hsent] at hencode
  refine ⟨congrArg MessageEncoder.EncodeResult.ret hencode, ?_⟩
  intro m₁ spans hsend between hbetween hturn buf cap hcap hcap16
  obtain ⟨hsize, hsmall⟩ := MessageEncoder.getSize_encode hp hencode
  have hlength : sent.frame.length = sent.getSize := slice_length _ _ _
  have hfits : sent.getSize < 2 ^ 16 := hsize ▸ hsmall
  have haccepted := h.send_accepted (s := .output) hfits
    (congrArg MsgQueue.AppendResult.ret hsend)
  rw [← MessageEncoder.frame, send, hsend] at haccepted
  obtain ⟨hthen, -⟩ := (simulates c n).exec haccepted hbetween
  rw [takenFrom, haccepted.replies_eq hbetween] at hturn
  have hfront := MsgFifo.exec_eq_of_delivered (Function.update_self ..) hturn
  have hnil : sent.frame ≠ [] := List.ne_nil_of_length_pos (by rw [hlength, hsize]; omega)
  obtain ⟨hret, hlen, hbuf⟩ := hthen.recv_front hfront hnil buf (hlength ▸ hcap) hcap16
  exact .of_frame hp hencode hret (hlen.trans hlength) hbuf

/-! ## One message, sent and received -/

/-- A message of id 3 with four bytes of body. -/
def fourBytes : Driver.Message :=
  { getMessageID := 3
    encode := fun m pBuff nBufSize =>
      if nBufSize < 4 then ⟨false, m, nBufSize⟩ else ⟨true, copy m pBuff (fun _ => 200) 4, 4⟩ }

theorem fourBytes_honest : fourBytes.Honest where
  fits m a cap hcap hret := by
    simp only [fourBytes] at hret ⊢
    split at hret
    · cases hret
    · next hroom =>
      rw [if_neg hroom]
      exact Nat.le_of_not_lt hroom

/-- Through queues of 64 bytes; the receiver looks at its other queue first. -/
theorem message_round_trip_run :
    let r := (new ⟨0, 0⟩ ⟨0, 0⟩).initMessageQueue firstAttach (fun _ => 0) 7 64 64
    let e := MessageEncoder.new fun _ => 255
    let encoded := e.encode (some fourBytes) ⟨0, 0, 1, -1, 2, 40⟩
    let sent := encoded.encoder
    let first := r.channel.sendMessageOutput r.mem sent.getBuff sent.getSize
    encoded.ret = true ∧ first.ret = true ∧
      Arrived e fourBytes ⟨0, 0, 1, -1, 2, 40⟩ sent (r.channel.recvMessageOutput
        (exec r.channel.step first.mem [(.input, .pop (fun _ => 0) 2048)]).1 (fun _ => 0)
        2048) := by
  have hmap : (ShareMemory.new.attachShareMemory firstAttach 7
    (segmentSize fun _ => 64)).ret = true := by decide
  obtain ⟨-, -, -, -, -, hattached, -⟩ :=
    new_attach_init ⟨0, 0⟩ ⟨0, 0⟩ (fun _ => by decide) hmap (fun _ => 0)
  generalize (new ⟨0, 0⟩ ⟨0, 0⟩).initMessageQueue firstAttach (fun _ => 0) 7 _ _ = r
    at hattached ⊢
  dsimp only
  have hsize : ((MessageEncoder.new fun _ => 255).encode (some fourBytes)
    ⟨0, 0, 1, -1, 2, 40⟩).encoder.getSize = 28 := rfl
  obtain ⟨hencoded, hthen⟩ := message_round_trip hattached fourBytes_honest
    (e := MessageEncoder.new fun _ => 255) rfl ⟨0, 0, 1, -1, 2, 40⟩ rfl
  generalize ((MessageEncoder.new fun _ => 255).encode (some fourBytes)
    ⟨0, 0, 1, -1, 2, 40⟩).encoder = sent at hsize hthen ⊢
  have hret : (r.channel.sendMessageOutput r.mem sent.getBuff sent.getSize).ret = true :=
    ((hattached.holds .output).append_fits _ (by rw [hsize]; decide)).1
  rcases hsend : r.channel.sendMessageOutput r.mem sent.getBuff sent.getSize with ⟨ret, m₁, spans⟩
  rw [hsend] at hret
  obtain rfl : ret = true := hret
  have hbetween : ∀ k ∈ [((.input, .pop (fun _ => 0) 2048) : Call)], Fits k := by simp [Fits]
  exact ⟨hencoded, rfl, hthen hsend hbetween (by simp [takenFrom, deliveredAt, abs])
    (fun _ => 0) (by rw [hsize]; decide) (by decide)⟩

end MessageChannel

end MmDriver

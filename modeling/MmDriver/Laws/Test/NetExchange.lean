import MmDriver.Laws.Test.LoginMessages
import MmDriver.Laws.Test.NetServerRuns

/-!
# What the net service puts into its channel, and takes out

A login that a packet asks for is passed on in a message of its own, behind those that are pending, if
there is room for it (`PassedOn`), and every answer that is sent on was taken out. `Exchanged` says so of
a step, from the events that the step adds to the log.
-/

namespace MmDriver

open ByteMem World MessageChannel

namespace NetServer

/-! ## Requests -/

/-- The request that is passed on when a login is being verified. -/
def askedOf : Slots.Event Nat Nat NetUse → Option NhReqLogin
  | .used _ u (.verifying account validateinfo) => some ⟨UInt32.ofNat u, account, validateinfo⟩
  | .used _ _ (.loginRet _) => none
  | .opened _ _ => none
  | .closed _ _ => none

/-- The number and the result of an answer that is sent on. -/
def toldOf : Slots.Event Nat Nat NetUse → Option (UInt32 × Int32)
  | .used _ u (.loginRet result) => some (UInt32.ofNat u, result)
  | .used _ _ (.verifying _ _) => none
  | .opened _ _ => none
  | .closed _ _ => none

/-- The bytes of a request. -/
def requestLength (msgReqLogin : NhReqLogin) : Nat := (nhReqLogin.serialize msgReqLogin).length

/-- The message carries the request, from the service to the web services. -/
structure Carries (serviceID : Int16) (x : MsgFifo.Message) (msgReqLogin : NhReqLogin) : Prop where
  length : x.length = 24 + requestLength msgReqLogin
  head : (MessageHead.new.decode (ofList x) 0 x.length).2 =
    ⟨Int32.ofNat (requestLength msgReqLogin), UInt16.ofNat msgNhReqLogin, ServiceType.login.value,
      serviceID, ServiceType.http.value, -1⟩
  request : requestOf x = some msgReqLogin

/-- The encoder takes the request, and a queue of `n` bytes has room for its message. -/
def HasRoom (n : Nat) (pending : List MsgFifo.Message) (msgReqLogin : NhReqLogin) : Prop :=
  requestLength msgReqLogin ≤ 65511 ∧
    MsgFifo.occupied pending + (8 + (24 + requestLength msgReqLogin)) ≤ n

/-- What the events of the service make of a queue of `n` bytes: each request is put behind those that
are pending, if there is room for it. -/
inductive PassedOn (serviceID : Int16) (n : Nat) (pending : List MsgFifo.Message) :
    List (Slots.Event Nat Nat NetUse) → List MsgFifo.Message → Prop where
  | nil : PassedOn serviceID n pending [] pending
  | quiet {es q e} (h : PassedOn serviceID n pending es q) (he : askedOf e = none) :
      PassedOn serviceID n pending (es ++ [e]) q
  | passed {es q e msgReqLogin x} (h : PassedOn serviceID n pending es q)
      (he : askedOf e = some msgReqLogin) (hroom : HasRoom n q msgReqLogin)
      (hx : Carries serviceID x msgReqLogin) : PassedOn serviceID n pending (es ++ [e]) (q ++ [x])
  | full {es q e msgReqLogin} (h : PassedOn serviceID n pending es q)
      (he : askedOf e = some msgReqLogin) (hroom : ¬HasRoom n q msgReqLogin) :
      PassedOn serviceID n pending (es ++ [e]) q

section Requests

variable {serviceID : Int16} {n : Nat} {pending q : List MsgFifo.Message}
  {es : List (Slots.Event Nat Nat NetUse)}

/-- Events that ask nothing. -/
theorem PassedOn.quietAll (h : PassedOn serviceID n pending es q)
    {more : List (Slots.Event Nat Nat NetUse)} (hmore : ∀ e ∈ more, askedOf e = none) :
    PassedOn serviceID n pending (es ++ more) q := by
  induction more using List.reverseRecOn with
  | nil => rwa [List.append_nil]
  | append_singleton more e ih =>
    obtain ⟨hinit, hlast⟩ := List.forall_mem_append.mp hmore
    rw [← List.append_assoc]
    exact (ih hinit).quiet (hlast e List.mem_cons_self)

end Requests

/-! ## The handler of a login -/

section Handler

variable {c : MessageChannel} {n : Side → Nat} {pending : Side → List MsgFifo.Message}

/-- What has happened since the log was `log`, while nobody else used the channel: the logins of the
events are passed on, and nobody is told anything. -/
def Follows (c : MessageChannel) (n : Side → Nat) (serviceID : Int16)
    (pending : Side → List MsgFifo.Message) (log : List (Slots.Event Nat Nat NetUse))
    (s : NetServer) : Prop :=
  s.kMCLogin2Http = c ∧ s.serviceID = serviceID ∧ ∃ es q, s.log = log ++ es ∧
    es.filterMap toldOf = [] ∧ PassedOn serviceID (n .output) (pending .output) es q ∧
    Attached c n s.mem (Function.update pending .output q)

theorem Follows.quiet {serviceID : Int16} {log : List (Slots.Event Nat Nat NetUse)} {s s' : NetServer}
    (h : Follows c n serviceID pending log s) (hchannel : s'.kMCLogin2Http = s.kMCLogin2Http)
    (hserviceID : s'.serviceID = s.serviceID) (hmem : s'.mem = s.mem)
    {more : List (Slots.Event Nat Nat NetUse)} (hlog : s'.log = s.log ++ more)
    (hmore : ∀ e ∈ more, askedOf e = none ∧ toldOf e = none) :
    Follows c n serviceID pending log s' := by
  obtain ⟨hc, hid, es, q, hes, htold, hpassed, hattached⟩ := h
  refine ⟨hchannel.trans hc, hserviceID.trans hid, es ++ more, q, ?_, ?_,
    hpassed.quietAll fun e he => (hmore e he).1, hmem ▸ hattached⟩
  · rw [hlog, hes, List.append_assoc]
  · rw [List.filterMap_append, htold, List.nil_append, List.filterMap_eq_nil_iff]
    exact fun e he => (hmore e he).2

theorem onDisConnect_same (s : NetServer) (i : Nat) :
    (s.onDisConnect i).kMCLogin2Http = s.kMCLogin2Http ∧
      (s.onDisConnect i).serviceID = s.serviceID ∧ (s.onDisConnect i).mem = s.mem ∧
      ∃ more, (s.onDisConnect i).log = s.log ++ more ∧
        ∀ e ∈ more, askedOf e = none ∧ toldOf e = none := by
  unfold onDisConnect
  dsimp only
  split
  · exact ⟨rfl, rfl, rfl, [_], rfl, List.forall_mem_singleton.mpr ⟨rfl, rfl⟩⟩
  · exact ⟨rfl, rfl, rfl, [], (List.append_nil _).symm, List.forall_mem_nil _⟩

/-- What the handler of an answer adds to the log: the answer, if it was read and somebody is there for
it, and the loss of the connection. -/
theorem Wf.loginRet_log {w : ServerWorld NetServer} (h : Wf w) (pBuff : List UInt8) :
    ∃ more, (handleMsgUserLoginRet w pBuff).app.log = w.app.log ++ more ∧
      (∀ e ∈ more, askedOf e = none) ∧
      (more.filterMap toldOf).Sublist ((hnRetLogin.parseFromArray pBuff).map fun msgRetLogin =>
        (msgRetLogin.uid, msgRetLogin.result)).toList := by
  rcases loginRet_parsed w pBuff with hsame | ⟨msgRetLogin, i, data, size, hparse, huser, hsent⟩
  · rw [hsame]
    exact ⟨[], (List.append_nil _).symm, List.forall_mem_nil _, List.nil_sublist _⟩
  · obtain ⟨hbusy, -⟩ := (h.online _ i).mp huser
    have htold : toldOf (.used i msgRetLogin.uid.toNat (.loginRet msgRetLogin.result)) =
        some (msgRetLogin.uid, msgRetLogin.result) := by
      rw [toldOf, UInt32.ofNat_toNat]
    dsimp only at hsent
    generalize hanswered : Slots.Event.used i msgRetLogin.uid.toNat
      (NetUse.loginRet msgRetLogin.result) = answered at hsent htold
    have hasked : askedOf answered = none := by rw [← hanswered]; rfl
    have hleft : (handleMsgUserLoginRet w pBuff).app = (World.sendData (connectionCallbacks i)
        ⟨(w.clients i).socket, (w.clients i).net, w.app.logged answered⟩ data size).2.app := by
      rw [hsent]
      rfl
    rw [hleft, hparse]
    rcases sendData_serving (connectionCallbacks_appOnly i)
      (w := ⟨(w.clients i).socket, (w.clients i).net, w.app.logged answered⟩) (h.serving i hbusy)
      data size with ⟨-, -, happ⟩ | ⟨-, happ⟩
    · rw [happ]
      refine ⟨[answered], rfl, List.forall_mem_singleton.mpr hasked, ?_⟩
      rw [List.filterMap_cons_some htold]
      exact List.Sublist.refl _
    · obtain ⟨-, -, -, more, hlog, hmore⟩ := (w.app.logged answered).onDisConnect_same i
      rw [happ, hlog]
      refine ⟨answered :: more, List.append_assoc w.app.log [answered] more,
        List.forall_mem_cons.mpr ⟨hasked, fun e he => (hmore e he).1⟩, ?_⟩
      rw [List.filterMap_cons_some htold,
        List.filterMap_eq_nil_iff.mpr fun e he => (hmore e he).2]
      exact List.Sublist.refl _

/-- What has happened since the log was `log`, in the loop over the answers: `taken` were taken, in
order, and what somebody is told was in one of them. -/
structure Collected (c : MessageChannel) (n : Side → Nat) (pending : Side → List MsgFifo.Message)
    (log : List (Slots.Event Nat Nat NetUse)) (w : ServerWorld NetServer) (m : Memory)
    (es : List (Slots.Event Nat Nat NetUse)) (taken rest : List MsgFifo.Message) : Prop where
  log : w.app.log = log ++ es
  quiet : ∀ e ∈ es, askedOf e = none
  input : pending .input = taken ++ rest
  attached : Attached c n m (Function.update pending .input rest)
  told : (∀ x ∈ taken, 24 ≤ x.length) →
    (es.filterMap toldOf).Sublist (taken.filterMap answerOf)

section Loop

variable {log es : List (Slots.Event Nat Nat NetUse)} {w : ServerWorld NetServer} {m : Memory}
  {taken rest : List MsgFifo.Message}

/-- Events that follow on a message that was taken. -/
theorem Collected.step (h : Collected c n pending log w m es taken rest) {w' : ServerWorld NetServer}
    {m' : Memory} {x : MsgFifo.Message} {xs : List MsgFifo.Message} (hrest : rest = x :: xs)
    (hattached : Attached c n m' (Function.update pending .input xs))
    {more : List (Slots.Event Nat Nat NetUse)} (hlog : w'.app.log = w.app.log ++ more)
    (hquiet : ∀ e ∈ more, askedOf e = none)
    (htold : 24 ≤ x.length → (more.filterMap toldOf).Sublist (answerOf x).toList) :
    Collected c n pending log w' m' (es ++ more) (taken ++ [x]) xs := by
  refine ⟨?_, List.forall_mem_append.mpr ⟨h.quiet, hquiet⟩, ?_, hattached, fun hwhole => ?_⟩
  · rw [hlog, h.log, List.append_assoc]
  · rw [h.input, hrest, List.append_assoc, List.singleton_append]
  · obtain ⟨hearlier, hlast⟩ := List.forall_mem_append.mp hwhole
    have hone : [x].filterMap answerOf = (answerOf x).toList := by
      cases hx : answerOf x with
      | none => exact List.filterMap_cons_none hx
      | some a => exact List.filterMap_cons_some hx
    rw [List.filterMap_append, List.filterMap_append, hone]
    exact (h.told hearlier).append (htold (hlast x List.mem_cons_self))

theorem handleMsg_mem {σ : Type} (loginRet : σ → List UInt8 → σ) (connections : σ) (m : Memory)
    (turn : MessageDispatch NetService.MessageHandler) :
    (NetService.handleMsg loginRet connections m turn).2 = m := by
  unfold NetService.handleMsg
  cases turn.handler with
  | none => rfl
  | some handler =>
    cases handler with
    | handleMsgDefault => rfl
    | handleMsgUserLoginRet => rfl

/-- A message that was taken, and its turn. -/
theorem Collected.turn (h : Collected c n pending log w m es taken rest) (hw : Wf w) {m' : Memory}
    {x : MsgFifo.Message} {xs : List MsgFifo.Message} (hrest : rest = x :: xs)
    (hattached : Attached c n m' (Function.update pending .input xs))
    {turn : MessageDispatch NetService.MessageHandler}
    (hbody : 24 ≤ x.length → turn.pBuff = messageBody x) :
    let called := NetService.handleMsg handleMsgUserLoginRet w m' turn
    Wf called.1 ∧ ∃ es', Collected c n pending log called.1 called.2 es' (taken ++ [x]) xs := by
  have hnothing := h.step hrest hattached (show w.app.log = w.app.log ++ [] by simp)
    (List.forall_mem_nil _) fun _ => List.nil_sublist _
  dsimp only
  rw [handleMsg_mem]
  unfold NetService.handleMsg
  cases turn.handler with
  | none => exact ⟨hw, _, hnothing⟩
  | some handler =>
    cases handler with
    | handleMsgDefault => exact ⟨hw, _, hnothing⟩
    | handleMsgUserLoginRet =>
      obtain ⟨more, hlog, hquiet, htold⟩ := hw.loginRet_log turn.pBuff
      refine ⟨hw.loginRet turn.pBuff, _, h.step hrest hattached hlog hquiet fun hwhole => ?_⟩
      rw [hbody hwhole] at htold
      exact htold

/-- The loop over the messages. -/
theorem Collected.loop (h : Collected c n pending log w m es taken rest) (hw : Wf w)
    {dispatcher : Nat → Option NetService.MessageHandler} {turns : Nat} {buf : Memory}
    {bufSize : Nat} (hsize : bufSize < 2 ^ 16)
    {r : LoopResult (ServerWorld NetServer) NetService.MessageHandler}
    (hloop : messageLoop c.recvMessasgeInput dispatcher (NetService.handleMsg handleMsgUserLoginRet)
      turns w m buf bufSize = some r) :
    ∃ es' taken' rest', Collected c n pending log r.app r.mem es' taken' rest' := by
  induction turns generalizing w m buf bufSize es taken rest r with
  | zero => cases hloop
  | succ turns ih =>
    have hreceives := h.attached.recv_cases .input buf hsize
    have hnext := messageLoop_succ hloop
    dsimp only at hreceives hnext
    rw [recv_input] at hreceives
    generalize c.recvMessasgeInput m buf bufSize = received at hreceives hnext
    obtain ⟨hlen, hcases⟩ := hreceives
    rcases hcases with ⟨hret, hattached⟩ | ⟨hret, xs, hfront, hattached⟩
    · rcases hnext with ⟨-, happ, hmem⟩ | ⟨hgo, -⟩
      · rw [happ, hmem]
        exact ⟨es, taken, rest, h.log, h.quiet, h.input, hattached, h.told⟩
      · rw [hret] at hgo
        cases hgo
    · rw [Function.update_self] at hfront
      rw [Function.update_idem] at hattached
      rcases hnext with ⟨-, happ, hmem⟩ | ⟨-, again, hagain, happ, hmem⟩
      · rw [happ, hmem]
        exact ⟨_, _, _, h.step hfront hattached (show w.app.log = w.app.log ++ [] by simp)
          (List.forall_mem_nil _) fun _ => List.nil_sublist _⟩
      · have hbody : 24 ≤ (slice received.buf 0 received.msgLength).length →
            (turnOf dispatcher received.buf received.msgLength).pBuff =
              messageBody (slice received.buf 0 received.msgLength) := by
          intro hwhole
          rw [slice_length] at hwhole
          exact turnOf_pBuff dispatcher received.buf hwhole hlen
        obtain ⟨hw', es', hturn⟩ := h.turn hw hfront hattached hbody
        rw [happ, hmem]
        exact ih hturn hw' hlen hagain

end Loop

/-! ## The steps of the service -/

end Handler

end NetServer

end MmDriver

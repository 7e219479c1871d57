import MmDriver.Lib.Slots
import MmDriver.Test.ConnectionPool
import MmDriver.Test.NetService
import MmDriver.Test.PacketData

/-!
# `NetService` and its connections

The rest of `test/NetService.h` and `test/NetService.cpp`: what becomes of a new connection and of a
lost one, the handlers of its packets, and of the messages that come back from the web services.

A failed assertion throws: `asserted` says that one has failed, and what runs after it is not followed.
`log` keeps when a connection is given out, under which number, what it is used for, and when it is
lost, in order.
-/

namespace MmDriver

open ByteMem

/-- What a connection is used for: a login is passed on for it, and its answer is sent on it. -/
inductive NetUse where
  | verifying (account validateinfo : List UInt8)
  | loginRet (result : Int32)
deriving DecidableEq, Repr

/-- `NetService` with the segment its channel is in. A pointer to a connection is its place in the
pool. -/
structure NetServer where
  svc : NetService
  serviceID : Int16
  connectionPool : ConnectionPool
  messageDispatcher : Nat → Option NetService.MessageHandler
  kMCLogin2Http : MessageChannel
  mem : Memory
  kMsgHead : MessageHead
  kMsgEncoder : MessageEncoder
  uIDGenerator : Nat
  kOnlineUser : Nat → Option Nat
  asserted : Bool
  log : List (Slots.Event Nat Nat NetUse)

namespace NetServer

/-- What `Init` leaves of a service with this channel. -/
def init (serviceID : Int16) (kMCLogin2Http : MessageChannel) (mem szMsgBuf : Memory) : NetServer where
  svc := NetService.init
  serviceID := serviceID
  connectionPool := ⟨[]⟩
  messageDispatcher := NetService.initMessageDispatcher
  kMCLogin2Http := kMCLogin2Http
  mem := mem
  kMsgHead := MessageHead.new
  kMsgEncoder := MessageEncoder.new szMsgBuf
  uIDGenerator := 1
  kOnlineUser := fun _ => none
  asserted := false
  log := []

/-- A connection of the pool. -/
def connection (s : NetServer) (i : Nat) : Connection :=
  s.connectionPool.clientSocketVec.getD i Connection.new

/-- `IPCheck`. -/
def ipCheck (uIP : Nat) : Bool :=
  (uIP ≥ 0x0A000000 && uIP ≤ 0x0AFFFFFF) || (uIP ≥ 0xAC100000 && uIP ≤ 0xAC1FFFFF) ||
    (uIP ≥ 0xC0A80000 && uIP ≤ 0xC0A8FFFF) || (uIP ≥ 0x7F000001 && uIP ≤ 0x7F000001)

/-- `GetUser`. -/
def getUser (s : NetServer) (uID : Nat) : Option Nat := s.kOnlineUser uID

/-- The members of a connection are changed. -/
def modifyConnection (s : NetServer) (i : Nat) (f : Connection → Connection) : NetServer :=
  { s with connectionPool := s.connectionPool.modify i f }

/-- The log goes on. -/
def logged (s : NetServer) (e : Slots.Event Nat Nat NetUse) : NetServer :=
  { s with log := s.log ++ [e] }

/-- `OnDisConnect`. -/
def onDisConnect (s : NetServer) (i : Nat) : NetServer :=
  let nUID := (s.connection i).nUID
  match s.kOnlineUser nUID with
  | some _ =>
    let s := { s with kOnlineUser := Function.update s.kOnlineUser nUID none }
    (s.modifyConnection i fun c => { c with nStatus := .unused }).logged (.closed i nUID)
  | none => { s with asserted := true }

/-- `SendMsgToHttp`: the answer of `SendMessageOutput` is not looked at. -/
def sendMsgToHttp (s : NetServer) (pkMessage : Driver.Message) : Bool × NetServer :=
  let kMsgHead := { s.kMsgHead with
    nSrcServiceType := ServiceType.login.value, nScrServiceID := s.serviceID,
    nDstServiceType := ServiceType.http.value, nDstServiceID := -1 }
  let r := s.kMsgEncoder.encode (some pkMessage) kMsgHead
  let s := { s with kMsgHead := r.head, kMsgEncoder := r.encoder }
  if r.ret = false then (false, s)
  else (true, { s with
    mem := (s.kMCLogin2Http.sendMessageOutput s.mem s.kMsgEncoder.getBuff s.kMsgEncoder.getSize).mem })

/-- `HandlePacketUserLogin`. -/
def handlePacketUserLogin (s : NetServer) (pConnect : Nat) (rkPacketHead : PacketHead) (m : Memory)
    (pBuff : Nat) : NetServer :=
  match cgLogin.decode m pBuff rkPacketHead.usPacketSize with
  | none => s
  | some ptLogin =>
    let s := s.modifyConnection pConnect fun c =>
      { c with nStatus := .verifying, sAccount := ptLogin.account }
    let nUID := (s.connection pConnect).nUID
    let msgReqLogin : NhReqLogin := ⟨UInt32.ofNat nUID, ptLogin.account, ptLogin.validateinfo⟩
    let s := s.logged (.used pConnect nUID (.verifying ptLogin.account ptLogin.validateinfo))
    (s.sendMsgToHttp (mReqLogin msgReqLogin)).2

/-- A packet's handler is called. -/
def handlePacket (m : Memory) (s : NetServer) (d : NetService.Dispatch) : NetServer :=
  match d.handler with
  | .handlePacketUserLogin => s.handlePacketUserLogin d.pConnect d.packetHead m d.pBuff
  | .handlePacketDefault => s

/-- `OnRecvMessage`. -/
def onRecvMessage (s : NetServer) (i : Nat) (m : Memory) (nRecvBufLen : Nat) : Int × NetServer :=
  let r := s.svc.onRecvMessage (some i) m 0 nRecvBufLen
  (r.ret, r.dispatched.foldl (handlePacket m) s)

/-- The callbacks of a connection. -/
def connectionCallbacks (i : Nat) : Callbacks NetServer where
  onDisConnect w := { w with app := w.app.onDisConnect i }
  onRecvMessage w pRecvBuf nRecvBufLen :=
    let r := w.app.onRecvMessage i (pRecvBuf.getD fun _ => 0) nRecvBufLen
    (r.1, { w with app := r.2 })

/-- `OnNewConnec`, with what the connection's new buffers hold. `insert` keeps an entry that is
there. -/
def onNewConnec (recvMem sendMem : Memory) (w : ServerWorld NetServer) (uClientIP : Nat) :
    Option Nat × ServerWorld NetServer :=
  if ipCheck uClientIP = false then (none, w)
  else
    let r := w.app.connectionPool.getIdleConnect
    let w := { w with app := { w.app with connectionPool := r.2 } }
    match r.1 with
    | none => (none, w)
    | some i =>
      let w := (w.onClient i fun v => ((), v.close)).2
      let w := (w.onClient i fun v => ((), { v with
        socket := { v.socket.setBufSize maxC2sPkgSize maxS2cPkgSize recvMem sendMem with
          funOnDisConnect := true, funOnRecvMessage := true } })).2
      let nUID := w.app.uIDGenerator
      let s := w.app.modifyConnection i fun c => { c with nStatus := .connected, nUID := nUID }
      let s := { s with
        uIDGenerator := TUint32.ofNat (nUID + 1)
        kOnlineUser := match s.kOnlineUser nUID with
          | some _ => s.kOnlineUser
          | none => Function.update s.kOnlineUser nUID (some i) }
      (some i, { w with app := s.logged (.opened i nUID) })

/-- The callbacks of the service. -/
def callbacks (recvMem sendMem : Memory) : ServerCallbacks NetServer where
  onConnect w uClientIP _ := onNewConnec recvMem sendMem w uClientIP
  client := connectionCallbacks

/-- `HandleMsgUserLoginRet`, with the bytes of the message. -/
def handleMsgUserLoginRet (w : ServerWorld NetServer) (pBuff : List UInt8) : ServerWorld NetServer :=
  match hnRetLogin.parseFromArray pBuff with
  | none => w
  | some msgRetLogin =>
    match w.app.getUser msgRetLogin.uid.toNat with
    | none => w
    | some pUser =>
      -- the encoder's buffer is written before it is read
      let r := (PacketEncoder.mk (fun _ => 0) 0).encode (pLoginRet (gcLogin.toProto ⟨msgRetLogin.result⟩))
      if r.1 = false then w
      else
        let answered := Slots.Event.used pUser msgRetLogin.uid.toNat (.loginRet msgRetLogin.result)
        let w := { w with app := w.app.logged answered }
        (w.onClient pUser fun v =>
          World.sendData (connectionCallbacks pUser) v (some r.2.szBuf) r.2.usSize).2

/-- `TickHttpMsg`. -/
def tickHttpMsg (turns : Nat) (w : ServerWorld NetServer) : Option (ServerWorld NetServer) :=
  (NetService.tickHttpMsg handleMsgUserLoginRet turns w.app.kMCLogin2Http w.app.messageDispatcher w
    w.app.mem).map fun r => { r.app with app := { r.app.app with mem := r.mem } }

/-- What the calls of a tick of the network answer. `config` says that the address is configured. -/
structure NetworkOutcome where
  config : Bool
  listen : SocketApi.ListenOutcome
  accepts : List SocketApi.AcceptOutcome
  recvMem : Memory
  sendMem : Memory
  select : SocketApi.SelectOutcome

/-- `TickNetwork`. -/
def tickNetwork (w : ServerWorld NetServer) (o : NetworkOutcome) : ServerWorld NetServer :=
  if w.validServer = false then
    if o.config = false then w else (w.openServer o.listen).2
  else
    let cb := callbacks o.recvMem o.sendMem
    let w := (w.acceptEx cb (o.accepts.take 10)).2
    (w.recv cb o.select).2

/-! ## Steps -/

/-- What happens to a server: the service opens its socket, tries to accept a connection, looks at its
clients, or takes its messages; and whoever else has the segment writes to it. -/
inductive NetAction where
  | openServer (o : SocketApi.ListenOutcome)
  | accept (recvMem sendMem : Memory) (o : SocketApi.AcceptOutcome)
  | recv (o : SocketApi.SelectOutcome)
  | tickHttpMsg (turns : Nat)
  | others (mem : Memory)

/-- One step. The service opens a socket when it has none, and accepts and receives when it has one;
the loop over the messages needs turns enough. -/
def act (w : ServerWorld NetServer) : NetAction → Option (ServerWorld NetServer)
  | .openServer o => if w.validServer then none else some (w.openServer o).2
  | .accept recvMem sendMem o =>
    if w.validServer then some (w.accept (callbacks recvMem sendMem) o).2 else none
  | .recv o => if w.validServer then some (w.recv (callbacks (fun _ => 0) fun _ => 0) o).2 else none
  | .tickHttpMsg turns => tickHttpMsg turns w
  | .others mem => some { w with app := { w.app with mem := mem } }

/-- A server whose service is initialized. -/
def start (s : NetServer) : ServerWorld NetServer where
  server := { ServerSocket.new with funOnConnect := true }
  clients := fun _ => Client.new
  opened := []
  closed := []
  faults := []
  app := s

end NetServer

end MmDriver

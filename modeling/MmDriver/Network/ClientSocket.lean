import MmDriver.Network.SocketApi

/-!
# `ClientSocket`, one TCP connection

`include/network/clientsocket.h` and `src/network/clientsocket.cpp`: the connection's status, its
two buffers, and the callbacks of the application.

A callback gets the connection and may call back into it. So a call runs in a `World`: the
connection, the operating system's side of it, and the application's own state, on which the
callbacks act. The `boost::function` members only say whether a callback is installed; what it
does is given by `Callbacks`.
-/

namespace MmDriver

open ByteMem

/-- `max_c2s_pkg_size`. -/
def maxC2sPkgSize : Nat := 0x1400

/-- `max_s2c_pkg_size`. -/
def maxS2cPkgSize : Nat := 0x2C00

/-- `enmTCPStatus`. -/
inductive TcpStatus where
  | closed
  | opened
  | connected
deriving DecidableEq, Repr

/-- `ClientSocket`. A buffer is `none` while its pointer is null. -/
structure ClientSocket where
  socketFd : Int
  socketStatus : TcpStatus
  uIP : Nat
  usPort : Nat
  nRecvBufSize : Nat
  recvBuffer : Option Memory
  recvBufferLen : Nat
  nSendBufSize : Nat
  sendBuffer : Option Memory
  sendHead : Nat
  sendTail : Nat
  funOnDisConnect : Bool
  funOnRecvMessage : Bool

/-- A connection with what is around it. -/
structure World (ω : Type) where
  socket : ClientSocket
  net : Net
  app : ω

/-- What the application's callbacks do. -/
structure Callbacks (ω : Type) where
  onDisConnect : World ω → World ω
  onRecvMessage : World ω → Option Memory → Nat → Int × World ω

namespace ClientSocket

/-- The constructor. -/
def new : ClientSocket where
  socketFd := invalidSocket
  socketStatus := .closed
  uIP := 0
  usPort := 0
  nRecvBufSize := 0
  recvBuffer := none
  recvBufferLen := 0
  nSendBufSize := 0
  sendBuffer := none
  sendHead := 0
  sendTail := 0
  funOnDisConnect := false
  funOnRecvMessage := false

/-- `set_fd`, with the answer of `set_non_block`. -/
def setFd (c : ClientSocket) (s : Int) (nonBlock : Bool) : Bool × ClientSocket :=
  if s = invalidSocket then (false, c)
  else (nonBlock, { c with socketFd := s, socketStatus := .connected })

/-- `set_ip_info`. -/
def setIpInfo (c : ClientSocket) (ip port : Nat) : ClientSocket :=
  { c with uIP := ip, usPort := port }

/-- `set_buf_size`. The new buffers hold whatever was there; the indices are not touched. -/
def setBufSize (c : ClientSocket) (nRecvBufSize nSendBufSize : Nat) (recvMem sendMem : Memory) :
    ClientSocket :=
  { c with
    recvBuffer := some recvMem
    sendBuffer := some sendMem
    nRecvBufSize := nRecvBufSize
    nSendBufSize := nSendBufSize }

/-- `valid`. -/
def valid (c : ClientSocket) : Bool :=
  c.socketFd ≠ invalidSocket && c.socketStatus = .connected

/-- A connection the calls work on: not `connected`, or without a descriptor, they answer
`conn_error_code_invalid_socket`. -/
def Live (c : ClientSocket) : Prop := c.socketStatus = .connected ∧ c.socketFd ≠ invalidSocket

instance (c : ClientSocket) : Decidable c.Live := inferInstanceAs (Decidable (_ ∧ _))

end ClientSocket

namespace World

variable {ω : Type}

/-- `close`: every member is as the constructor leaves it. -/
def close (w : World ω) : World ω :=
  { w with
    socket := ClientSocket.new
    net := if w.socket.socketFd ≠ invalidSocket then
        SocketApi.closesocketEx w.net w.socket.socketFd
      else w.net }

/-- `disconnect`. -/
def disconnect (cb : Callbacks ω) (w : World ω) : World ω :=
  (if w.socket.funOnDisConnect then cb.onDisConnect w else w).close

/-- `open`, with or without a local address. -/
def «open» (w : World ω) (localIp : Bool) (o : SocketApi.OpenOutcome) : Bool × World ω :=
  let w := w.close
  let r := SocketApi.socketEx w.net o
  let w := { w with net := r.2, socket := { w.socket with socketFd := r.1 } }
  if r.1 = invalidSocket then (false, w)
  else if localIp && !o.bind then (false, w.close)
  else (true, { w with socket := { w.socket with socketStatus := .opened } })

/-- `connect`. -/
def connect (w : World ω) (timeout : Int) (o : SocketApi.ConnectOutcome) : Bool × World ω :=
  if w.socket.socketStatus ≠ .opened ∨ w.socket.socketFd = invalidSocket then (false, w)
  else
    let r := SocketApi.connectNonblock w.net w.socket.socketFd timeout o
    let w := { w with net := r.2 }
    if r.1 = false then (false, w.close)
    else if o.setNonBlockAfter = false then (false, w.close)
    else (true, { w with socket := { w.socket with socketStatus := .connected } })

/-! ## Receiving -/

/-- The bytes of a read, appended to the receive buffer. -/
def received (w : World ω) (r : SocketApi.RecvResult) : World ω :=
  { w with
    net := r.net
    socket := { w.socket with
      recvBuffer := w.socket.recvBuffer.map fun m =>
        copy m w.socket.recvBufferLen (ofList r.bytes) r.bytes.length
      recvBufferLen := SizeT.add w.socket.recvBufferLen r.ret.toNat } }

/-- The loop of `recv_data`: it reads until the socket has nothing, fails or is closed, or until
`max_c2s_pkg_size` bytes are there. -/
def recvLoop (cb : Callbacks ω) (w : World ω) : ConnErrorCode × World ω :=
  let usBuffSize := TUint32.ofNat (SizeT.sub maxC2sPkgSize w.socket.recvBufferLen)
  if usBuffSize > 0 then
    let r := SocketApi.recvEx w.net usBuffSize
    if r.ret > 0 then recvLoop cb (w.received r)
    else if r.ret = 0 then (.peerClosed, disconnect cb { w with net := r.net })
    else if r.ret = ConnErrorCode.wouldBlock.toInt then (.wouldBlock, { w with net := r.net })
    else (.unknown, disconnect cb { w with net := r.net })
  else (.recvNotEnoughBuffer, w)
termination_by (SocketApi.streamOf w.net.recvs).length
decreasing_by
  next hread => exact SocketApi.recvEx_streamOf hread

/-- `recv_data`. -/
def recvData (cb : Callbacks ω) (w : World ω) : ConnErrorCode × World ω :=
  if w.socket.Live then recvLoop cb w else (.invalidSocket, w)

/-- The first `n` bytes of the receive buffer are dropped. -/
def consumed (w : World ω) (n : Nat) : World ω :=
  let len := SizeT.sub w.socket.recvBufferLen n
  { w with socket := { w.socket with
      recvBufferLen := len
      recvBuffer := w.socket.recvBuffer.map fun m => copy m 0 (fun i => m (n + i)) len } }

/-- What `recv_ex` does with the answer of the receive callback. -/
def afterCallback (cb : Callbacks ω) (iRet : ConnErrorCode) (nReadLen : Int) (w : World ω) :
    Bool × World ω :=
  if nReadLen < 0 ∨ (nReadLen = 0 ∧ iRet = .recvNotEnoughBuffer) then (false, disconnect cb w)
  else if nReadLen = 0 then (true, w)
  else if nReadLen > TInt32.ofNat w.socket.recvBufferLen then (false, w)
  else (true, w.consumed nReadLen.toNat)

/-- `recv_ex`. -/
def recvEx (cb : Callbacks ω) (w : World ω) : Bool × World ω :=
  if w.socket.funOnRecvMessage = false then (false, w)
  else
    let r := recvData cb w
    if r.1 = .success ∨ r.1 = .wouldBlock ∨ r.1 = .recvNotEnoughBuffer then
      let read := cb.onRecvMessage r.2 r.2.socket.recvBuffer r.2.socket.recvBufferLen
      afterCallback cb r.1 read.1 read.2
    else (false, disconnect cb r.2)

/-! ## Sending -/

/-- Why a loop around `send_ex` ended: nothing is left, the socket takes no more, or it failed. -/
inductive SendStop where
  | drained
  | stalled
  | failed
deriving DecidableEq, Repr

/-- What such a loop leaves: why it ended, how many bytes the socket accepted, and the socket. -/
structure SendLoop where
  stop : SendStop
  accepted : Nat
  net : Net

/-- The loop the senders share: `data_remained_bytes` bytes from `data_ptr` on, as long as
`send_ex` takes some. -/
def sendLoop (net : Net) (dataPtr : Nat → UInt8) (dataRemainedBytes : Nat) : SendLoop :=
  if 0 < dataRemainedBytes then
    let r := SocketApi.sendEx net dataPtr (TUint32.ofNat dataRemainedBytes)
    if r.ret > 0 then
      let rest := sendLoop r.net (fun i => dataPtr (r.ret.toNat + i))
        (dataRemainedBytes - r.ret.toNat)
      { rest with accepted := r.ret.toNat + rest.accepted }
    else if r.ret < 0 ∧ ConnErrorCode.wouldBlock.toInt ≠ r.ret then ⟨.failed, 0, r.net⟩
    else ⟨.stalled, 0, r.net⟩
  else ⟨.drained, 0, net⟩
termination_by dataRemainedBytes
decreasing_by
  next hpos hsent => exact Nat.sub_lt hpos (Int.pos_iff_toNat_pos.mp hsent)

/-- The send buffer's bytes from `m_send_head` on. -/
def sendPtr (c : ClientSocket) : Nat → UInt8 := fun i =>
  match c.sendBuffer with
  | some m => m (c.sendHead + i)
  | none => 0

/-- `memcpy` of fresh data to `m_send_tail`. -/
def appended (c : ClientSocket) (data : Nat → UInt8) (size : Nat) : ClientSocket :=
  { c with
    sendBuffer := c.sendBuffer.map fun m => copy m c.sendTail data size
    sendTail := SizeT.add c.sendTail size }

/-- `memmove` of the pending bytes to the start of the send buffer. -/
def compacted (c : ClientSocket) (dataRemainedBytes : Nat) : ClientSocket :=
  { c with
    sendBuffer := c.sendBuffer.map fun m => copy m 0 (fun i => m (c.sendHead + i)) dataRemainedBytes
    sendHead := 0
    sendTail := dataRemainedBytes }

/-- The three cases in which `send_cache` and `send_data` put fresh data behind pending bytes:
there is room at the end, there is room once the pending bytes are moved, or there is none. -/
def cache (c : ClientSocket) (data : Nat → UInt8) (size dataRemainedBytes : Nat) :
    ConnErrorCode × ClientSocket :=
  if SizeT.sub c.nSendBufSize c.sendTail ≥ size then (.success, appended c data size)
  else if SizeT.add (SizeT.sub c.nSendBufSize c.sendTail) c.sendHead ≥ size then
    (.success, appended (compacted c dataRemainedBytes) data size)
  else (.sendNotEnoughBuffer, c)

/-- `send_cache`. -/
def sendCache (w : World ω) (data : Option (Nat → UInt8)) (size : Nat) :
    ConnErrorCode × World ω :=
  match data with
  | none => (.invalidParam, w)
  | some data =>
    if size = 0 then (.invalidParam, w)
    else if ¬w.socket.Live then (.invalidSocket, w)
    else
      let r := cache w.socket data size (SizeT.sub w.socket.sendTail w.socket.sendHead)
      (r.1, { w with socket := r.2 })

/-- The pending bytes are sent, and `m_send_head` moves behind those the socket accepted. -/
def flush (w : World ω) : SendStop × World ω :=
  let r := sendLoop w.net (sendPtr w.socket) (SizeT.sub w.socket.sendTail w.socket.sendHead)
  (r.stop, { w with
    net := r.net
    socket := { w.socket with sendHead := SizeT.add w.socket.sendHead r.accepted } })

/-- `m_send_head` and `m_send_tail` back at the start. -/
def rewound (w : World ω) : World ω :=
  { w with socket := { w.socket with sendHead := 0, sendTail := 0 } }

/-- `send_cache_data`. -/
def sendCacheData (cb : Callbacks ω) (w : World ω) : ConnErrorCode × World ω :=
  if ¬w.socket.Live then (.invalidSocket, w)
  else
    let r := flush w
    match r.1 with
    | .drained => (.success, r.2.rewound)
    | .stalled => (.notSmoothSocket, r.2)
    | .failed => (.unknown, disconnect cb r.2)

/-- The second half of `send_data`, with the buffer empty: the fresh data goes to the socket, and
what it does not take into the buffer. -/
def sendFresh (cb : Callbacks ω) (w : World ω) (data : Nat → UInt8) (size : Nat) :
    ConnErrorCode × World ω :=
  let r := sendLoop w.net data size
  let w := { w with net := r.net }
  match r.stop with
  | .drained => (.success, w)
  | .stalled =>
    (.success, { w with
      socket := appended w.socket (fun i => data (r.accepted + i)) (size - r.accepted) })
  | .failed => (.unknown, disconnect cb w)

/-- `send_data`. -/
def sendData (cb : Callbacks ω) (w : World ω) (data : Option (Nat → UInt8)) (size : Nat) :
    ConnErrorCode × World ω :=
  match data with
  | none => (.invalidParam, w)
  | some data =>
    if size = 0 then (.invalidParam, w)
    else if ¬w.socket.Live then (.invalidSocket, w)
    else
      let r := flush w
      match r.1 with
      | .drained => sendFresh cb r.2.rewound data size
      | .stalled =>
        let c := cache r.2.socket data size
          (SizeT.sub r.2.socket.sendTail r.2.socket.sendHead)
        (c.1, { r.2 with socket := c.2 })
      | .failed => (.unknown, disconnect cb r.2)

end World

end MmDriver

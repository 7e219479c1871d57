import MmDriver.Network.ClientSocket

/-!
# `ServerSocket`, the socket that accepts

`include/network/serversocket.h` and `src/network/serversocket.cpp`. Its clients are objects of the
application, which hands out their addresses: `clients` is where they are, each with the operating
system's side of it.

What the system calls answer is given by the outcomes. A descriptor outside an `fd_set` is undefined
for `FD_SET` and `FD_ISSET`: `faults` keeps each one they were called with, and what the bit of such
a descriptor is found to be is left to the outcome.
-/

namespace MmDriver

open ByteMem

/-- `FD_SETSIZE`. -/
def fdSetSize : Int := 1024

/-- The descriptor has a bit in an `fd_set`. -/
def InFdSet (fd : Int) : Prop := 0 ≤ fd ∧ fd < fdSetSize

instance : DecidablePred InFdSet := fun _ => inferInstanceAs (Decidable (_ ∧ _))

/-- `ServerSocket`. -/
structure ServerSocket where
  socketFd : Int
  funOnConnect : Bool
  clientContainer : List Nat
deriving DecidableEq, Repr

/-- A `ClientSocket` in memory. -/
structure Client where
  socket : ClientSocket
  net : Net

/-- A server with its clients and the application. `opened` and `closed` are the descriptors that
`ServerSocket` itself gets and closes; one that it hands to a client is opened for the client too. -/
structure ServerWorld (ω : Type) where
  server : ServerSocket
  clients : Nat → Client
  opened : List Int
  closed : List Int
  faults : List Int
  app : ω

/-- The callbacks of the application: for a new connection, and those of each client. -/
structure ServerCallbacks (ω : Type) where
  onConnect : ServerWorld ω → Nat → Nat → Option Nat × ServerWorld ω
  client : Nat → Callbacks ω

/-- `ServerSocket`'s constructor. -/
def ServerSocket.new : ServerSocket := ⟨invalidSocket, false, []⟩

/-- A new `ClientSocket`. -/
def Client.new : Client := ⟨ClientSocket.new, ⟨[], [], [], [], []⟩⟩

namespace SocketApi

/-- What the calls of `ServerSocket::open` answer, in order. -/
structure ListenOutcome where
  socket : Int
  reuseAddr : Bool
  bind : Bool
  sndBuf : Bool
  rcvBuf : Bool
  listen : Bool
  setNonBlock : Bool
deriving DecidableEq, Repr

/-- What the calls of `ServerSocket::accept` answer: `select` with the bit it leaves for the socket,
`accept` with the peer's address, and `set_non_block` both times. With it comes what the new buffers
hold, and what the reads and writes of the new descriptor will meet. -/
structure AcceptOutcome where
  select : Int
  isSet : Bool
  fd : Int
  setNonBlock : Bool
  uIP : Nat
  usPort : Nat
  setNonBlockAgain : Bool
  recvs : List RecvEvent
  sends : List SendEvent

/-- What `select` answers for the clients, with the bits it leaves. -/
structure SelectOutcome where
  select : Int
  ready : Int → Bool

/-- `SOCKET_ERROR`. -/
def socketError : Int := -1

end SocketApi

namespace ServerWorld

open SocketApi

variable {ω : Type}

/-- A call on a client. -/
def onClient {α : Type} (w : ServerWorld ω) (i : Nat) (call : World ω → α × World ω) :
    α × ServerWorld ω :=
  let r := call ⟨(w.clients i).socket, (w.clients i).net, w.app⟩
  (r.1, { w with
    clients := Function.update w.clients i ⟨r.2.socket, r.2.net⟩
    app := r.2.app })

/-- `FD_SET` or `FD_ISSET` of a descriptor. -/
def fdBit (w : ServerWorld ω) (fd : Int) : ServerWorld ω :=
  if InFdSet fd then w else { w with faults := w.faults ++ [fd] }

/-- `ServerSocket::close`. -/
def closeServer (w : ServerWorld ω) : ServerWorld ω :=
  { w with
    closed := if w.server.socketFd ≠ invalidSocket then w.closed ++ [w.server.socketFd] else w.closed
    server := { w.server with socketFd := invalidSocket, funOnConnect := false } }

/-- `ServerSocket::open`. -/
def openServer (w : ServerWorld ω) (o : ListenOutcome) : Bool × ServerWorld ω :=
  let w := { w with server := { w.server with socketFd := o.socket } }
  if o.socket = invalidSocket then (false, w)
  else
    let w := { w with opened := w.opened ++ [o.socket] }
    if o.reuseAddr = false then (false, w.closeServer)
    else if o.bind = false then (false, w.closeServer)
    else if o.sndBuf = false then (false, w.closeServer)
    else if o.rcvBuf = false then (false, w.closeServer)
    else if o.listen = false then (false, w.closeServer)
    else if o.setNonBlock = false then (false, w.closeServer)
    else (true, w)

/-- `ServerSocket::valid`. -/
def validServer (w : ServerWorld ω) : Bool := w.server.socketFd ≠ invalidSocket

/-- What `accept` does with a descriptor: `m_funOnConnect` gives it a client, or it is closed. The
answer of the second `set_non_block` is not looked at. -/
def accepted (cb : ServerCallbacks ω) (w : ServerWorld ω) (o : AcceptOutcome) :
    Bool × ServerWorld ω :=
  let r := cb.onConnect w o.uIP o.usPort
  let w := r.2
  match r.1 with
  | none => (false, { w with closed := w.closed ++ [o.fd] })
  | some i =>
    let c := w.clients i
    let socket := (c.socket.setFd o.fd o.setNonBlockAgain).2.setIpInfo o.uIP o.usPort
    (true, { w with
      clients := Function.update w.clients i
        ⟨socket, { c.net with
          recvs := o.recvs, sends := o.sends, sent := [], opened := c.net.opened ++ [o.fd] }⟩
      server := { w.server with clientContainer := w.server.clientContainer ++ [i] } })

/-- `ServerSocket::accept`. -/
def accept (cb : ServerCallbacks ω) (w : ServerWorld ω) (o : AcceptOutcome) : Bool × ServerWorld ω :=
  if w.server.funOnConnect = false then (false, w)
  else
    let w := w.fdBit w.server.socketFd
    if o.select = socketError then (false, w)
    else if o.isSet then
      if o.fd = invalidSocket then (false, w)
      else
        let w := { w with opened := w.opened ++ [o.fd] }
        if o.setNonBlock = false then (false, { w with closed := w.closed ++ [o.fd] })
        else accepted cb w o
    else (false, w)

/-- `ServerSocket::accept_ex`, with the outcome of each try. -/
def acceptEx (cb : ServerCallbacks ω) (w : ServerWorld ω) : List AcceptOutcome → Nat × ServerWorld ω
  | [] => (0, w)
  | o :: os =>
    let r := accept cb w o
    if r.1 = false then (0, r.2)
    else
      let rest := acceptEx cb r.2 os
      (rest.1 + 1, rest.2)

/-- The first loop of `recv`: clients that are not valid leave the list, the others go into the
set. -/
def purge (w : ServerWorld ω) : ServerWorld ω :=
  let clientContainer := w.server.clientContainer.filter fun i => (w.clients i).socket.valid
  clientContainer.foldl (fun w i => w.fdBit (w.clients i).socket.socketFd)
    { w with server := { w.server with clientContainer := clientContainer } }

/-- `iMaxFD` behind the first loop. -/
def iMaxFD (w : ServerWorld ω) : Int :=
  w.server.clientContainer.foldl (fun fd i => max fd (w.clients i).socket.socketFd) invalidSocket

/-- A turn of the second loop. -/
def visit (cb : ServerCallbacks ω) (ready : Int → Bool) (w : ServerWorld ω) (i : Nat) :
    ServerWorld ω :=
  let fd := (w.clients i).socket.socketFd
  let w := w.fdBit fd
  if ready fd then (w.onClient i (World.recvEx (cb.client i))).2 else w

/-- `ServerSocket::recv`. -/
def recv (cb : ServerCallbacks ω) (w : ServerWorld ω) (o : SelectOutcome) : Bool × ServerWorld ω :=
  let w := w.purge
  if w.iMaxFD > 0 then
    if o.select ≤ 0 then (false, w)
    else (true, w.server.clientContainer.foldl (visit cb o.ready) w)
  else (false, w)

end ServerWorld

end MmDriver

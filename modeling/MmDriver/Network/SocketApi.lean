import MmDriver.Common.Types
import MmDriver.Lib.ByteMem

/-!
# The socket calls of a connection

`include/network/socketapi.h` and `src/network/socketapi.cpp`, in the Linux build. What the
operating system answers is not computed by the program: the outcomes of the reads and of the
writes of a connection are two scripts, consumed in order. When a script is at its end the socket
would block.

`Net` also keeps what has left the process: the bytes the socket accepted, and the descriptors that
were opened and closed, in order.
-/

namespace MmDriver

open ByteMem

/-- `enmConnErrorCode`. -/
inductive ConnErrorCode where
  | success
  | invalidSocket
  | recvNotEnoughBuffer
  | peerClosed
  | sendNotEnoughBuffer
  | invalidParam
  | unknown
  | notSmoothSocket
  | wouldBlock
deriving DecidableEq, Repr

/-- The enumerators' values. -/
def ConnErrorCode.toInt : ConnErrorCode → Int
  | .success => 0
  | .invalidSocket => -1
  | .recvNotEnoughBuffer => -2
  | .peerClosed => -3
  | .sendNotEnoughBuffer => -4
  | .invalidParam => -5
  | .unknown => -6
  | .notSmoothSocket => -7
  | .wouldBlock => -8

/-- A code is not a count of bytes. -/
theorem ConnErrorCode.toInt_nonpos (c : ConnErrorCode) : c.toInt ≤ 0 := by
  cases c <;> decide

/-- `INVALID_SOCKET`. -/
def invalidSocket : Int := -1

/-- What the next read of a socket meets: bytes that have arrived, nothing yet, the peer's close,
or an error. -/
inductive RecvEvent where
  | data (first : UInt8) (rest : List UInt8)
  | wouldBlock
  | closed
  | error
deriving DecidableEq, Repr

/-- What the next write of a socket does: it accepts up to `n` bytes, nothing for now, or fails. -/
inductive SendEvent where
  | accept (n : Nat)
  | wouldBlock
  | error
deriving DecidableEq, Repr

/-- The operating system's side of a connection. -/
structure Net where
  recvs : List RecvEvent
  sends : List SendEvent
  sent : List UInt8
  opened : List Int
  closed : List Int
deriving DecidableEq, Repr

namespace SocketApi

/-- What is left of arrived bytes, in front of what arrives later. -/
def unread : List UInt8 → List RecvEvent → List RecvEvent
  | [], later => later
  | b :: bs, later => .data b bs :: later

/-- What a read answers, and the bytes it put at the pointer. -/
structure RecvResult where
  ret : Int
  bytes : List UInt8
  net : Net
deriving DecidableEq, Repr

/-- `recv_ex` for at most `len` bytes. A read takes as many of the arrived bytes as it asked for;
the peer's close stays visible. -/
def recvEx (net : Net) (len : Nat) : RecvResult :=
  match net.recvs with
  | [] => ⟨ConnErrorCode.wouldBlock.toInt, [], net⟩
  | .data b bs :: later =>
    let bytes := (b :: bs).take len
    ⟨bytes.length, bytes, { net with recvs := unread ((b :: bs).drop len) later }⟩
  | .wouldBlock :: later => ⟨ConnErrorCode.wouldBlock.toInt, [], { net with recvs := later }⟩
  | .closed :: _ => ⟨0, [], net⟩
  | .error :: later => ⟨ConnErrorCode.unknown.toInt, [], { net with recvs := later }⟩

/-- What a write answers. -/
structure SendResult where
  ret : Int
  net : Net
deriving DecidableEq, Repr

/-- `send_ex` of `len` bytes at `buf`. No write accepts more than fits its result, a `tint32`. -/
def sendEx (net : Net) (buf : Nat → UInt8) (len : Nat) : SendResult :=
  match net.sends with
  | [] => ⟨ConnErrorCode.wouldBlock.toInt, net⟩
  | .accept n :: later =>
    let k := min n (min len (2 ^ 31 - 1))
    ⟨k, { net with sends := later, sent := net.sent ++ slice buf 0 k }⟩
  | .wouldBlock :: later => ⟨ConnErrorCode.wouldBlock.toInt, { net with sends := later }⟩
  | .error :: later => ⟨ConnErrorCode.unknown.toInt, { net with sends := later }⟩

/-- `closesocket_ex`. -/
def closesocketEx (net : Net) (s : Int) : Net := { net with closed := net.closed ++ [s] }

/-- What `socket` and, where a local address is given, `bind` answer, and what the reads and writes
of the new descriptor will meet. -/
structure OpenOutcome where
  socket : Int
  bind : Bool
  recvs : List RecvEvent
  sends : List SendEvent
deriving DecidableEq, Repr

/-- `socket_ex`. -/
def socketEx (net : Net) (o : OpenOutcome) : Int × Net :=
  if o.socket = invalidSocket then (invalidSocket, net)
  else (o.socket, { net with
    recvs := o.recvs
    sends := o.sends
    opened := net.opened ++ [o.socket] })

/-- How `connect` on a non-blocking socket ends: at once, pending (`EINPROGRESS`), or with another
error. -/
inductive ConnectStart where
  | done
  | inProgress
  | refused
deriving DecidableEq, Repr

/-- The answers a connection attempt gets: of `set_non_block` before and after it, `connect`,
`select` with the bit it leaves for the socket, and `getsockopt` with `SO_ERROR`. -/
structure ConnectOutcome where
  setNonBlock : Bool
  connect : ConnectStart
  select : Int
  isSet : Bool
  getsockopt : Bool
  soError : Int
  setNonBlockAfter : Bool
deriving DecidableEq, Repr

/-- `connect_nonblock`. -/
def connectNonblock (net : Net) (s timeout : Int) (o : ConnectOutcome) : Bool × Net :=
  if timeout < 0 then (false, net)
  else if o.setNonBlock = false then (false, net)
  else
    match o.connect with
    | .done => (true, net)
    | .refused => (false, net)
    | .inProgress =>
      if 0 ≥ o.select then (false, closesocketEx net s)
      else if o.isSet then
        if o.getsockopt = false then (false, closesocketEx net s)
        else if o.soError ≠ 0 then (false, closesocketEx net s)
        else (true, net)
      else (false, closesocketEx net s)

/-- The bytes that have arrived or will, up to the end of the script. -/
def streamOf : List RecvEvent → List UInt8
  | [] => []
  | .data b bs :: later => b :: bs ++ streamOf later
  | _ :: later => streamOf later

@[simp] theorem streamOf_unread (bs : List UInt8) (later : List RecvEvent) :
    streamOf (unread bs later) = bs ++ streamOf later := by
  cases bs <;> rfl

/-- A read that takes something leaves less to take. -/
theorem recvEx_streamOf {net : Net} {len : Nat} (h : 0 < (recvEx net len).ret) :
    (streamOf (recvEx net len).net.recvs).length < (streamOf net.recvs).length := by
  unfold recvEx at h ⊢
  split at h
  · exact absurd h (Int.not_lt.mpr ConnErrorCode.wouldBlock.toInt_nonpos)
  · next b bs later hrecvs =>
    simp only [hrecvs, streamOf_unread, streamOf, List.length_append, List.length_drop,
      List.length_take, List.length_cons] at h ⊢
    omega
  · exact absurd h (Int.not_lt.mpr ConnErrorCode.wouldBlock.toInt_nonpos)
  · exact absurd h (Int.lt_irrefl 0)
  · exact absurd h (Int.not_lt.mpr ConnErrorCode.unknown.toInt_nonpos)

/-- A write accepts at most what it was given. -/
theorem sendEx_ret_le (net : Net) (buf : Nat → UInt8) (len : Nat) :
    (sendEx net buf len).ret ≤ len := by
  have hcode : ∀ c : ConnErrorCode, c.toInt ≤ (len : Int) := fun c =>
    Int.le_trans c.toInt_nonpos (Int.natCast_nonneg len)
  unfold sendEx
  split
  · exact hcode .wouldBlock
  · exact Int.ofNat_le.mpr (Nat.le_trans (Nat.min_le_right _ _) (Nat.min_le_left _ _))
  · exact hcode .wouldBlock
  · exact hcode .unknown

end SocketApi

end MmDriver

import MmDriver.Network.ServerSocket

/-!
# The pool of connections

`test/ConnectionPool.h` and `test/ConnectionPool.cpp`. A `Connection` is a `ClientSocket` with members
of its own, which are kept here; its address is its place in `m_ClientSocketVec`, from which nothing
is ever removed.
-/

namespace MmDriver

/-- `MAX_CLIENT_CONNECTION`. -/
def maxClientConnection : Nat := 5000

/-- `Connection::ConnectionStatus`. -/
inductive ConnectionStatus where
  | unused
  | connected
  | verifying
  | loading
  | login
deriving DecidableEq, Repr

/-- `Connection`, less its base. -/
structure Connection where
  nUID : Nat
  sAccount : List UInt8
  nStatus : ConnectionStatus
deriving DecidableEq, Repr

/-- The constructor, which is `clear`. -/
def Connection.new : Connection := ⟨0, [], .unused⟩

/-- `Connection::idle`. -/
def Connection.idle (c : Connection) : Bool := c.nStatus = .unused

/-- `ConnectionPool`. -/
structure ConnectionPool where
  clientSocketVec : List Connection
deriving DecidableEq, Repr

namespace ConnectionPool

/-- The first idle connection. -/
def firstIdle (p : ConnectionPool) : Option Nat := p.clientSocketVec.findIdx? Connection.idle

/-- `get_idle_connect`: an idle connection, or a new one as long as there may be more. -/
def getIdleConnect (p : ConnectionPool) : Option Nat × ConnectionPool :=
  match p.firstIdle with
  | some i => (some i, p)
  | none =>
    if p.clientSocketVec.length ≥ maxClientConnection then (none, p)
    else (some p.clientSocketVec.length, ⟨p.clientSocketVec ++ [Connection.new]⟩)

/-- The members of a connection are changed. -/
def modify (p : ConnectionPool) (i : Nat) (f : Connection → Connection) : ConnectionPool :=
  ⟨p.clientSocketVec.modify i f⟩

end ConnectionPool

end MmDriver

import MmDriver.Network.Packet
import MmDriver.Test.MessageLoop

/-!
# The packets and messages of `NetService`

`test/PacketTest.h`, `test/NetService.h` and `test/NetService.cpp`. `OnRecvMessage` is the
receive callback of the server's connections: it takes packets off the front of the receive
buffer as long as `PeekPacket` finds a complete one, and answers how many bytes it took.

A handler call is recorded with the arguments the handler gets: the connection, the decoded head
and the pointer to the body.

`TickHttpMsg` takes the messages that come back from the web services. Its login handler answers
the connection of the login, which `loginRet` stands for; it does not use the channel.
-/

namespace MmDriver

open ByteMem

/-- `PACKET_ID_MAX` of `PacketDefine`, behind `PACKET_ID_MIN`, `PACKET_CG_LOGIN` and
`PACKET_GC_LOGIN`. -/
def packetIdMax : Nat := 3

/-- `PACKET_CG_LOGIN`. -/
def packetCgLogin : Nat := 1

/-- The member functions the packet dispatcher points to. -/
inductive PacketHandler where
  | handlePacketDefault
  | handlePacketUserLogin
deriving DecidableEq, Repr

/-- The members of `NetService` the parser reads: `m_pPacketDispatcher`, by packet id. -/
structure NetService where
  packetDispatcher : Nat → Option PacketHandler

namespace NetService

/-- The dispatcher `Init` leaves: the default handler for every id, then the login's own. -/
def init : NetService :=
  { packetDispatcher := fun id =>
      if id = packetCgLogin then some .handlePacketUserLogin
      else if id < packetIdMax then some .handlePacketDefault
      else none }

/-- A call of a packet handler. -/
structure Dispatch where
  handler : PacketHandler
  pConnect : Nat
  packetHead : PacketHead
  pBuff : Nat
deriving DecidableEq, Repr

/-- What `PeekPacket` answers, and the handler it called, if it called one. The other packets it
takes are only logged. -/
structure PeekResult where
  ret : Nat
  dispatched : Option Dispatch
deriving DecidableEq, Repr

/-- `PeekPacket` on `nInBufLen` bytes from `pInBuf` on. -/
def peekPacket (svc : NetService) (pkClientSocket : Option Nat) (m : Memory) (pInBuf : Nat)
    (nInBufLen : Nat) : PeekResult :=
  if nInBufLen < 2 + 2 then ⟨0, none⟩
  else
    match pkClientSocket with
    | none => ⟨0, none⟩
    | some pConnect =>
      let nLeftBufLen := TInt32.ofNat nInBufLen
      let decoded := PacketHead.new.decode m pInBuf nLeftBufLen
      if decoded.1 = false then ⟨0, none⟩
      else
        let kPacketHead := decoded.2
        let pReadBuf := pInBuf + PacketHead.getSize
        if (kPacketHead.usPacketSize : Int) > nLeftBufLen - PacketHead.getSize then ⟨0, none⟩
        else
          let nPacketID := kPacketHead.nPacketID
          let handler := if nPacketID < packetIdMax then svc.packetDispatcher nPacketID else none
          ⟨PacketHead.getSize + kPacketHead.usPacketSize,
            handler.map fun h => ⟨h, pConnect, kPacketHead, pReadBuf⟩⟩

/-- What is taken was there: `PeekPacket` compares lengths at `tint32`. -/
theorem peekPacket_ret_le (svc : NetService) (sock : Option Nat) (m : Memory) (pInBuf n : Nat) :
    (svc.peekPacket sock m pInBuf n).ret ≤ n % 2 ^ 32 := by
  have hleft : TInt32.ofNat n ≤ (n % 2 ^ 32 : Nat) := by
    unfold TInt32.ofNat
    omega
  unfold peekPacket
  dsimp only
  generalize TInt32.ofNat n = left at hleft ⊢
  generalize PacketHead.new.decode m pInBuf left = decoded
  split
  · exact Nat.zero_le _
  · cases sock with
    | none => exact Nat.zero_le _
    | some c =>
      dsimp only
      split
      · exact Nat.zero_le _
      · split
        · exact Nat.zero_le _
        · next hsize =>
          simp only [PacketHead.getSize, not_lt] at hsize ⊢
          omega

/-- The dispatches of `OnRecvMessage` from the offset `nReadTotal` on, and where it stops. -/
def recvLoop (svc : NetService) (sock : Option Nat) (m : Memory) (pRecvBuf nRecvBufLen : Nat)
    (nReadTotal : Nat) : Nat × List Dispatch :=
  let r := svc.peekPacket sock m (pRecvBuf + nReadTotal) (SizeT.sub nRecvBufLen nReadTotal)
  if r.ret > 0 then
    let rest := recvLoop svc sock m pRecvBuf nRecvBufLen (TUint32.ofNat (nReadTotal + r.ret))
    (rest.1, r.dispatched.toList ++ rest.2)
  else (nReadTotal, r.dispatched.toList)
termination_by SizeT.sub nRecvBufLen nReadTotal % 2 ^ 32
decreasing_by
  next hread => exact SizeT.left_decreases hread (svc.peekPacket_ret_le sock m _ _)

/-- What `OnRecvMessage` answers, and its handler calls in order. -/
structure RecvResult where
  ret : Int
  dispatched : List Dispatch
deriving DecidableEq, Repr

/-- `OnRecvMessage`. -/
def onRecvMessage (svc : NetService) (pkClientSocket : Option Nat) (m : Memory)
    (pRecvBuf nRecvBufLen : Nat) : RecvResult :=
  let r := svc.recvLoop pkClientSocket m pRecvBuf nRecvBufLen 0
  ⟨TInt32.ofNat r.1, r.2⟩

/-! ## Messages -/

/-- The member functions the message dispatcher points to. -/
inductive MessageHandler where
  | handleMsgDefault
  | handleMsgUserLoginRet
deriving DecidableEq, Repr

/-- The message dispatcher `Init` leaves. -/
def initMessageDispatcher (msgID : Nat) : Option MessageHandler :=
  if msgID = msgHnRetLogin then some .handleMsgUserLoginRet
  else if msgID < messageIdMax then some .handleMsgDefault
  else none

/-- What a turn of the loop does to the connections. -/
def handleMsg {σ : Type} (loginRet : σ → List UInt8 → σ) (connections : σ) (m : Memory)
    (turn : MessageDispatch MessageHandler) : σ × Memory :=
  match turn.handler with
  | some .handleMsgUserLoginRet => (loginRet connections turn.pBuff, m)
  | some .handleMsgDefault | none => (connections, m)

/-- `TickHttpMsg`, on the members `m_kMCLogin2Http` and `m_pMessageDispatcher`. -/
def tickHttpMsg {σ : Type} (loginRet : σ → List UInt8 → σ) (turns : Nat)
    (kMCLogin2Http : MessageChannel) (messageDispatcher : Nat → Option MessageHandler)
    (connections : σ) (m : Memory) : Option (LoopResult σ MessageHandler) :=
  runMessageLoop kMCLogin2Http.recvMessasgeInput messageDispatcher (handleMsg loginRet) turns
    connections m

end NetService

end MmDriver

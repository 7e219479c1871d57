import MmDriver.Network.Packet

/-!
# The parser of `ClientService`

`test/ClientService.cpp`. The client has a parser of its own for the packets of the server.
Where `NetService` moves on by the head's `GetSize()`, it moves on by `sizeof(PacketHead)`: the
head is a class with virtual functions, so its two members stand behind a pointer, and it is
padded to a multiple of the pointer's eight bytes.
-/

namespace MmDriver

open ByteMem

/-- `sizeof(PacketHead)`: the pointer to the virtual functions, two `tuint16`, and padding. -/
def sizeofPacketHead : Nat := 16

/-- `PACKET_GC_LOGIN`. -/
def packetGcLogin : Nat := 2

namespace ClientService

/-- A call of `OnLoginRet`. -/
structure LoginRet where
  packetHead : PacketHead
  pBuff : Nat
deriving DecidableEq, Repr

/-- What `PeekPacket` answers, and the call of `OnLoginRet`, if there is one. -/
structure PeekResult where
  ret : Nat
  onLoginRet : Option LoginRet
deriving DecidableEq, Repr

/-- `PeekPacket` on `nInBufLen` bytes from `pInBuf` on. -/
def peekPacket (m : Memory) (pInBuf : Nat) (nInBufLen : Nat) : PeekResult :=
  if nInBufLen < 2 + 2 then ⟨0, none⟩
  else
    let nLeftBufLen := TInt32.ofNat nInBufLen
    let decoded := PacketHead.new.decode m pInBuf nLeftBufLen
    if decoded.1 = false then ⟨0, none⟩
    else
      let kPacketHead := decoded.2
      let pReadBuf := pInBuf + sizeofPacketHead
      if (kPacketHead.usPacketSize : Int) > nLeftBufLen - sizeofPacketHead then ⟨0, none⟩
      else
        ⟨sizeofPacketHead + kPacketHead.usPacketSize,
          if kPacketHead.nPacketID = packetGcLogin then some ⟨kPacketHead, pReadBuf⟩ else none⟩

/-- What is taken was there: `PeekPacket` compares lengths at `tint32`. -/
theorem peekPacket_ret_le (m : Memory) (pInBuf n : Nat) :
    (peekPacket m pInBuf n).ret ≤ n % 2 ^ 32 := by
  have hleft : TInt32.ofNat n ≤ (n % 2 ^ 32 : Nat) := by
    unfold TInt32.ofNat
    omega
  unfold peekPacket
  dsimp only
  generalize TInt32.ofNat n = left at hleft ⊢
  generalize PacketHead.new.decode m pInBuf left = decoded
  split
  · exact Nat.zero_le _
  · split
    · exact Nat.zero_le _
    · split
      · exact Nat.zero_le _
      · next hsize =>
        simp only [sizeofPacketHead, not_lt] at hsize ⊢
        omega

/-- The calls of `OnLoginRet` by `OnRecvMessage` from the offset `nReadTotal` on, and where it
stops. -/
def recvLoop (m : Memory) (pRecvBuf nRecvBufLen : Nat) (nReadTotal : Nat) : Nat × List LoginRet :=
  let r := peekPacket m (pRecvBuf + nReadTotal) (SizeT.sub nRecvBufLen nReadTotal)
  if r.ret > 0 then
    let rest := recvLoop m pRecvBuf nRecvBufLen (TUint32.ofNat (nReadTotal + r.ret))
    (rest.1, r.onLoginRet.toList ++ rest.2)
  else (nReadTotal, r.onLoginRet.toList)
termination_by SizeT.sub nRecvBufLen nReadTotal % 2 ^ 32
decreasing_by
  next hread => exact SizeT.left_decreases hread (peekPacket_ret_le m _ _)

/-- What `OnRecvMessage` answers, and its calls of `OnLoginRet` in order. -/
structure RecvResult where
  ret : Int
  onLoginRet : List LoginRet
deriving DecidableEq, Repr

/-- `OnRecvMessage`. The socket is only handed on to `OnLoginRet`. -/
def onRecvMessage (m : Memory) (pRecvBuf nRecvBufLen : Nat) : RecvResult :=
  let r := recvLoop m pRecvBuf nRecvBufLen 0
  ⟨TInt32.ofNat r.1, r.2⟩

end ClientService

end MmDriver

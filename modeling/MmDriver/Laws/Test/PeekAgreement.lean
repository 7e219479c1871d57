import MmDriver.Laws.Test.NetService
import MmDriver.Test.ClientService

/-!
# The two packet parsers

The parser of the client is the server's but for the distance it takes the body to stand at: it
adds `sizeof(PacketHead)` where the server adds `GetSize()`, and the encoder of both writes
`GetSize()` bytes of head. So the two take different lengths whenever one of them takes anything.
-/

namespace MmDriver

open ByteMem

/-- The parsers take the same number of bytes from `n` bytes at `a`, and hand the same id, size and
body bytes to their handlers. -/
structure ParsersAgree (svc : NetService) (pConnect : Nat) (m : Memory) (a n : Nat) : Prop where
  ret : (ClientService.peekPacket m a n).ret = (svc.peekPacket (some pConnect) m a n).ret
  handed : ∀ d ∈ (svc.peekPacket (some pConnect) m a n).dispatched,
    ∀ r ∈ (ClientService.peekPacket m a n).onLoginRet,
      r.packetHead.nPacketID = d.packetHead.nPacketID ∧
        r.packetHead.usPacketSize = d.packetHead.usPacketSize ∧
        slice m r.pBuff r.packetHead.usPacketSize = slice m d.pBuff d.packetHead.usPacketSize

/-- The size either parser decodes at `a`. -/
def sizeAt (m : Memory) (a : Nat) : Nat := PacketHead.decodeWord (m a) (m (a + 1))

/-- The id either parser decodes at `a`. -/
def idAt (m : Memory) (a : Nat) : Nat := PacketHead.decodeWord (m (a + 2)) (m (a + 3))

/-- The three tests of a parser that steps over `skip` bytes of head, as one. -/
theorem refused_iff (n size : Nat) {skip : Nat} (hskip : 4 ≤ skip) :
    TInt32.ofNat n < ((skip + size : Nat) : Int) ↔
      n < 2 + 2 ∨ TInt32.ofNat n < (PacketHead.getSize : Nat) ∨
        (size : Int) > TInt32.ofNat n - (skip : Nat) := by
  have hsmall : n < 4 → TInt32.ofNat n < 4 := by
    intro hshort
    rw [TInt32.ofNat_eq (by omega)]
    omega
  simp only [PacketHead.getSize]
  omega

/-- Either parser, by the size and the id it decodes. -/
theorem tested_eq {α : Type} (m : Memory) (a n : Nat) {skip : Nat} (hskip : 4 ≤ skip) (refuse : α)
    (take : PacketHead → α) :
    (if n < 2 + 2 then refuse
      else
        let decoded := PacketHead.new.decode m a (TInt32.ofNat n)
        if decoded.1 = false then refuse
        else if (decoded.2.usPacketSize : Int) > TInt32.ofNat n - (skip : Nat) then refuse
        else take decoded.2) =
      if TInt32.ofNat n < ((skip + sizeAt m a : Nat) : Int) then refuse
      else take ⟨sizeAt m a, idAt m a⟩ := by
  have hrefused := refused_iff n (sizeAt m a) hskip
  unfold PacketHead.decode
  dsimp only
  by_cases hshort : n < 2 + 2
  · rw [if_pos hshort, if_pos (hrefused.mpr (.inl hshort))]
  · by_cases hhead : TInt32.ofNat n < (PacketHead.getSize : Nat)
    · rw [if_neg hshort, if_pos hhead, if_pos (hrefused.mpr (.inr (.inl hhead)))]
      rfl
    · rw [if_neg hshort, if_neg hhead, if_neg (nofun : ¬true = false)]
      by_cases hsize : (sizeAt m a : Int) > TInt32.ofNat n - (skip : Nat)
      · rw [if_pos (hrefused.mpr (.inr (.inr hsize)))]
        exact if_pos hsize
      · rw [if_neg fun hlt => (hrefused.mp hlt).elim hshort fun hor => hor.elim hhead hsize]
        exact if_neg hsize

theorem NetService.peekPacket_decoded (svc : NetService) (pConnect : Nat) (m : Memory) (a n : Nat) :
    svc.peekPacket (some pConnect) m a n =
      if TInt32.ofNat n < ((4 + sizeAt m a : Nat) : Int) then ⟨0, none⟩
      else ⟨4 + sizeAt m a,
        (if idAt m a < packetIdMax then svc.packetDispatcher (idAt m a) else none).map
          fun h => ⟨h, pConnect, ⟨sizeAt m a, idAt m a⟩, a + 4⟩⟩ := by
  unfold NetService.peekPacket
  exact tested_eq m a n (Nat.le_refl 4) (PeekResult.mk 0 none) fun head =>
    ⟨4 + head.usPacketSize,
      (if head.nPacketID < packetIdMax then svc.packetDispatcher head.nPacketID else none).map
        fun h => ⟨h, pConnect, head, a + 4⟩⟩

theorem ClientService.peekPacket_decoded (m : Memory) (a n : Nat) :
    ClientService.peekPacket m a n =
      if TInt32.ofNat n < ((16 + sizeAt m a : Nat) : Int) then ⟨0, none⟩
      else ⟨16 + sizeAt m a,
        if idAt m a = packetGcLogin then some ⟨⟨sizeAt m a, idAt m a⟩, a + 16⟩ else none⟩ := by
  unfold ClientService.peekPacket
  exact tested_eq m a n (show 4 ≤ 16 by decide) (PeekResult.mk 0 none) fun head =>
    ⟨16 + head.usPacketSize,
      if head.nPacketID = packetGcLogin then some ⟨head, a + 16⟩ else none⟩

/-- **The parsers agree** exactly on the buffers that do not hold a packet the server's would take:
those with fewer bytes than a head and the size in it. -/
theorem parsers_agree_iff (svc : NetService) (pConnect : Nat) (m : Memory) (a n : Nat) :
    ParsersAgree svc pConnect m a n ↔ TInt32.ofNat n < ((4 + sizeAt m a : Nat) : Int) := by
  have hserver := svc.peekPacket_decoded pConnect m a n
  have hclient := ClientService.peekPacket_decoded m a n
  by_cases hfew : TInt32.ofNat n < ((4 + sizeAt m a : Nat) : Int)
  · rw [if_pos hfew] at hserver
    rw [if_pos (by omega)] at hclient
    refine iff_of_true ⟨?_, fun d hd => ?_⟩ hfew
    · rw [hserver, hclient]
    · rw [hserver] at hd
      cases hd
  · rw [if_neg hfew] at hserver
    refine iff_of_false (fun hagree => ?_) hfew
    have hret := hagree.ret
    rw [hserver, hclient] at hret
    -- the server's parser takes a packet, the client's twelve bytes more or nothing
    split at hret
    · exact absurd hret (by dsimp only; omega)
    · exact absurd hret (by dsimp only; omega)

/-- A login result of one byte, with a head whose size is that byte: the server's parser would take
all five bytes, the client's waits for more. -/
theorem short_packet_waits :
    (NetService.init.peekPacket (some 1) (ofList [0, 1, 0, 2, 42]) 0 5).ret = 5 ∧
      (ClientService.peekPacket (ofList [0, 1, 0, 2, 42]) 0 5).ret = 0 ∧
      ¬ParsersAgree NetService.init 1 (ofList [0, 1, 0, 2, 42]) 0 5 := by
  have hserver : (NetService.init.peekPacket (some 1) (ofList [0, 1, 0, 2, 42]) 0 5).ret = 5 := by
    decide
  have hclient : (ClientService.peekPacket (ofList [0, 1, 0, 2, 42]) 0 5).ret = 0 := by decide
  refine ⟨hserver, hclient, fun hagree => ?_⟩
  have hret := hagree.ret
  rw [hserver, hclient] at hret
  exact absurd hret (by decide)

end MmDriver

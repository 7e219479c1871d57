import MmDriver.Laws.Test.PeekAgreement
import MmDriver.Lib.CuttingLoop

/-!
# The parse loops stay inside their buffer

Both `OnRecvMessage` are one loop over their `PeekPacket`, which refuses a length that does not fit
what is left. Each turn takes at least a head, so the loops end, and they end where `PeekPacket`
takes nothing.
-/

namespace MmDriver

open ByteMem CuttingLoop

/-- A receive callback keeps to its buffer of `n` bytes at `a`: it reads nothing else, hands out
bodies inside it, answers at most its length, and takes nothing from what it leaves. -/
structure ParsesInside {δ : Type} (recv : Memory → Nat → Nat → Int × List δ)
    (body : δ → Nat × Nat) (m : Memory) (a n : Nat) : Prop where
  reads : ∀ m', (∀ i < n, m' (a + i) = m (a + i)) → recv m' a n = recv m a n
  bodies : ∀ d ∈ (recv m a n).2, a ≤ (body d).1 ∧ (body d).1 + (body d).2 ≤ a + n
  nonneg : 0 ≤ (recv m a n).1
  le : (recv m a n).1 ≤ n
  again : recv m (a + (recv m a n).1.toNat) (n - (recv m a n).1.toNat) = (0, [])

/-- A look at the `n` bytes from `a` on: it takes a part that fits, and hands out a body in it, or
takes nothing. -/
structure Looks {δ : Type} (peek : Memory → Nat → Nat → Nat × List δ) (body : δ → Nat × Nat) :
    Prop where
  fits : ∀ m a n, n < 2 ^ 31 → (peek m a n).1 ≤ n
  refuses : ∀ m a n, (peek m a n).1 = 0 → (peek m a n).2 = []
  reads : ∀ m m' a n, n < 2 ^ 31 → (∀ i < n, m' (a + i) = m (a + i)) → peek m' a n = peek m a n
  bodies : ∀ m a n, n < 2 ^ 31 → ∀ d ∈ (peek m a n).2,
    a ≤ (body d).1 ∧ (body d).1 + (body d).2 ≤ a + n

/-- The loop over such a look keeps to its buffer. -/
theorem Looks.parsesInside {δ : Type} {peek : Memory → Nat → Nat → Nat × List δ}
    {body : δ → Nat × Nat} (hlooks : Looks peek body)
    {loop : Memory → Nat → Nat → Nat → Nat × List δ}
    (hloop : ∀ m a n t, loop m a n t =
      let r := peek m (a + t) (SizeT.sub n t)
      if r.1 > 0 then
        let rest := loop m a n (TUint32.ofNat (t + r.1))
        (rest.1, r.2 ++ rest.2)
      else (t, r.2))
    (m : Memory) (a : Nat) {n : Nat} (hn : n < 2 ^ 31) :
    ParsesInside (fun m a n => (TInt32.ofNat (loop m a n 0).1, (loop m a n 0).2)) body m a n := by
  have hleft : ∀ {n t : Nat}, n < 2 ^ 31 → t ≤ n → SizeT.sub n t = n - t :=
    fun hn ht => SizeT.sub_eq ht (by omega)
  have hcuts : ∀ (m : Memory) (a : Nat) {n : Nat}, n < 2 ^ 31 →
      Cuts n (fun t => peek m (a + t) (n - t)) (loop m a n) := by
    intro m a n hn
    refine ⟨fun t ht => ?_, fun t ht hpos => ?_, fun t ht hzero => ?_⟩
    · have hfits := hlooks.fits m (a + t) (n - t) (by omega)
      omega
    · have hfits := hlooks.fits m (a + t) (n - t) (by omega)
      have hnext : TUint32.ofNat (t + (peek m (a + t) (n - t)).1) =
          t + (peek m (a + t) (n - t)).1 := Nat.mod_eq_of_lt (by omega)
      rw [hloop]
      simp only [hleft hn ht]
      rw [if_pos hpos, hnext]
    · rw [hloop]
      simp only [hleft hn ht]
      rw [if_neg (by simp only [hzero]; decide)]
  obtain ⟨-, hle, hend⟩ := (hcuts m a hn).ends (Nat.zero_le n)
  have hret : TInt32.ofNat (loop m a n 0).1 = ((loop m a n 0).1 : Nat) :=
    TInt32.ofNat_eq (Nat.lt_of_le_of_lt hle hn)
  refine ⟨fun m' hsame => ?_, fun d hd => ?_, ?_, ?_, ?_⟩
  · have hlooksame : ∀ t ≤ n, peek m' (a + t) (n - t) = peek m (a + t) (n - t) := by
      intro t ht
      refine hlooks.reads m m' _ _ (by omega) fun i hi => ?_
      rw [Nat.add_assoc]
      exact hsame (t + i) (by omega)
    rw [(hcuts m a hn).congr (hcuts m' a hn) hlooksame (Nat.zero_le n)]
  · obtain ⟨k, hk, hd⟩ := (hcuts m a hn).mem (Nat.zero_le n) d hd
    have hbody := hlooks.bodies m (a + k) (n - k) (by omega) d hd
    omega
  · rw [hret]
    exact Int.natCast_nonneg _
  · rw [hret]
    exact Int.ofNat_le.mpr hle
  · -- where the loop ended, the look takes nothing
    have hagain : loop m (a + (loop m a n 0).1) (n - (loop m a n 0).1) 0 = (0, []) := by
      rw [(hcuts m (a + (loop m a n 0).1) (n := n - (loop m a n 0).1) (by omega)).stop 0
        (Nat.zero_le _) hend]
      exact congrArg (Prod.mk 0) (hlooks.refuses _ _ _ hend)
    have hzero : TInt32.ofNat 0 = 0 := TInt32.ofNat_eq (by decide)
    simp only [hret, Int.toNat_natCast, hagain, hzero]

/-! ## The server's parser and the client's -/

theorem sizeAt_congr {m m' : Memory} {a n : Nat} (h : ∀ i < n, m' (a + i) = m (a + i))
    (hn : 4 ≤ n) : sizeAt m' a = sizeAt m a ∧ idAt m' a = idAt m a := by
  have h0 : m' a = m a := h 0 (by omega)
  rw [sizeAt, sizeAt, idAt, idAt, h0, h 1 (by omega), h 2 (by omega), h 3 (by omega)]
  exact ⟨rfl, rfl⟩

/-- A look that compares the head's length, and `skip` bytes, with what there is. -/
theorem Looks.of_decoded {δ : Type} {peek : Memory → Nat → Nat → Nat × List δ}
    {body : δ → Nat × Nat} {skip : Nat} (hskip : 4 ≤ skip)
    (handed : Nat → Nat → Nat → List δ)
    (hbody : ∀ a size id, ∀ d ∈ handed a size id, body d = (a + skip, size))
    (hpeek : ∀ m a n, peek m a n =
      if TInt32.ofNat n < ((skip + sizeAt m a : Nat) : Int) then (0, [])
      else (skip + sizeAt m a, handed a (sizeAt m a) (idAt m a))) : Looks peek body := by
  refine ⟨fun m a n hn => ?_, fun m a n hzero => ?_, fun m m' a n hn hsame => ?_,
    fun m a n hn d hd => ?_⟩
  · rw [hpeek, TInt32.ofNat_eq hn]
    split
    · exact Nat.zero_le n
    · next hroom => exact Int.ofNat_le.mp (Int.not_lt.mp hroom)
  · rw [hpeek] at hzero ⊢
    split at hzero
    · next hfew => rw [if_pos hfew]
    · simp only at hzero
      omega
  · rw [hpeek, hpeek, TInt32.ofNat_eq hn]
    rcases Nat.lt_or_ge n 4 with hshort | hlong
    · rw [if_pos (by omega), if_pos (by omega)]
    · rw [(sizeAt_congr hsame hlong).1, (sizeAt_congr hsame hlong).2]
  · rw [hpeek, TInt32.ofNat_eq hn] at hd
    split at hd
    · cases hd
    · next hroom =>
      rw [hbody a _ _ d hd]
      dsimp only
      omega

/-- The body a packet handler is given, as its place and its length. -/
def NetService.Dispatch.bodyPart (d : NetService.Dispatch) : Nat × Nat :=
  (d.pBuff, d.packetHead.usPacketSize)

/-- The body `OnLoginRet` is given. -/
def ClientService.LoginRet.bodyPart (d : ClientService.LoginRet) : Nat × Nat :=
  (d.pBuff, d.packetHead.usPacketSize)

theorem NetService.peekPacket_looks (svc : NetService) (pConnect : Nat) :
    Looks (fun m a n => let r := svc.peekPacket (some pConnect) m a n; (r.ret, r.dispatched.toList))
      NetService.Dispatch.bodyPart := by
  refine Looks.of_decoded (Nat.le_refl 4) (fun a size id =>
    ((if id < packetIdMax then svc.packetDispatcher id else none).map
      fun h => (⟨h, pConnect, ⟨size, id⟩, a + 4⟩ : Dispatch)).toList) ?_ fun m a n => ?_
  · intro a size id d hd
    rw [Option.mem_toList, Option.map_eq_some_iff] at hd
    obtain ⟨handler, -, rfl⟩ := hd
    rfl
  · dsimp only
    rw [svc.peekPacket_decoded]
    split <;> rfl

theorem NetService.peekPacket_looks_none (svc : NetService) :
    Looks (fun m a n => let r := svc.peekPacket none m a n; (r.ret, r.dispatched.toList))
      NetService.Dispatch.bodyPart := by
  have hnone : ∀ m a n, svc.peekPacket none m a n = ⟨0, none⟩ := by
    intro m a n
    unfold NetService.peekPacket
    split <;> rfl
  refine ⟨fun m a n _ => ?_, fun m a n _ => ?_, fun m m' a n _ _ => ?_, fun m a n _ d hd => ?_⟩
  · rw [hnone]
    exact Nat.zero_le n
  · rw [hnone]
    rfl
  · rw [hnone, hnone]
  · rw [hnone] at hd
    cases hd

theorem ClientService.peekPacket_looks :
    Looks (fun m a n => let r := ClientService.peekPacket m a n; (r.ret, r.onLoginRet.toList))
      ClientService.LoginRet.bodyPart := by
  refine Looks.of_decoded (show 4 ≤ 16 by decide) (fun a size id =>
    (if id = packetGcLogin then some (⟨⟨size, id⟩, a + 16⟩ : LoginRet) else none).toList)
    ?_ fun m a n => ?_
  · intro a size id d hd
    rw [Option.mem_toList] at hd
    split at hd
    · cases hd
      rfl
    · cases hd
  · dsimp only
    rw [ClientService.peekPacket_decoded]
    split <;> rfl

theorem NetService.onRecvMessage_pair (svc : NetService) (sock : Option Nat) :
    (fun m a n =>
        let r := svc.onRecvMessage sock m a n
        (r.ret, r.dispatched)) =
      fun m a n => (TInt32.ofNat (svc.recvLoop sock m a n 0).1, (svc.recvLoop sock m a n 0).2) := by
  have hpair : ∀ r : Nat × List Dispatch, ((RecvResult.mk (TInt32.ofNat r.1) r.2).ret,
      (RecvResult.mk (TInt32.ofNat r.1) r.2).dispatched) = (TInt32.ofNat r.1, r.2) := fun _ => rfl
  funext m a n
  exact (congrArg (fun r : RecvResult => (r.ret, r.dispatched))
    (svc.onRecvMessage_def sock m a n)).trans (hpair _)

theorem ClientService.onRecvMessage_def (m : Memory) (a n : Nat) :
    ClientService.onRecvMessage m a n =
      ⟨TInt32.ofNat (recvLoop m a n 0).1, (recvLoop m a n 0).2⟩ := by
  rw [ClientService.onRecvMessage]

theorem ClientService.onRecvMessage_pair :
    (fun m a n =>
        let r := ClientService.onRecvMessage m a n
        (r.ret, r.onLoginRet)) =
      fun m a n => (TInt32.ofNat (recvLoop m a n 0).1, (recvLoop m a n 0).2) := by
  have hpair : ∀ r : Nat × List LoginRet, ((RecvResult.mk (TInt32.ofNat r.1) r.2).ret,
      (RecvResult.mk (TInt32.ofNat r.1) r.2).onLoginRet) = (TInt32.ofNat r.1, r.2) := fun _ => rfl
  funext m a n
  exact (congrArg (fun r : RecvResult => (r.ret, r.onLoginRet))
    (onRecvMessage_def m a n)).trans (hpair _)

/-- **The parse loops stay inside the buffer**, whatever is in it, and whether or not the server's
has a connection. -/
theorem parse_loops_inside (svc : NetService) (sock : Option Nat) (m : Memory) (a : Nat) {n : Nat}
    (hn : n < 2 ^ 31) :
    ParsesInside (fun m a n =>
        let r := svc.onRecvMessage sock m a n
        (r.ret, r.dispatched)) NetService.Dispatch.bodyPart m a n ∧
      ParsesInside (fun m a n =>
        let r := ClientService.onRecvMessage m a n
        (r.ret, r.onLoginRet)) ClientService.LoginRet.bodyPart m a n := by
  rw [svc.onRecvMessage_pair, ClientService.onRecvMessage_pair]
  constructor
  · cases sock with
    | none =>
      refine svc.peekPacket_looks_none.parsesInside (fun m a n t => ?_) m a hn
      rw [NetService.recvLoop]
    | some pConnect =>
      refine (svc.peekPacket_looks pConnect).parsesInside (fun m a n t => ?_) m a hn
      rw [NetService.recvLoop]
  · refine ClientService.peekPacket_looks.parsesInside (fun m a n t => ?_) m a hn
    rw [ClientService.recvLoop]

/-- A login of one byte, and the first two bytes of another packet. -/
theorem parse_loops_inside_login :
    ParsesInside (fun m a n =>
        let r := NetService.init.onRecvMessage (some 1) m a n
        (r.ret, r.dispatched)) NetService.Dispatch.bodyPart (ofList [0, 1, 0, 1, 42, 0, 9]) 0 7 ∧
      ParsesInside (fun m a n =>
        let r := ClientService.onRecvMessage m a n
        (r.ret, r.onLoginRet)) ClientService.LoginRet.bodyPart (ofList [0, 1, 0, 1, 42, 0, 9]) 0 7 :=
  parse_loops_inside NetService.init (some 1) (ofList [0, 1, 0, 1, 42, 0, 9]) 0 (n := 7) (by omega)

end MmDriver

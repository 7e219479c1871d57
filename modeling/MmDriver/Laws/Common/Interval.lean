import MmDriver.Common.TimerEx
import MmDriver.Lib.CallMachine

/-!
# When an interval has passed

A timer with an interval compares the clock with the clock at its last trigger, as a signed
difference. Wherever both times are of one turn of the clock, the difference is the time that
passed (`elapsed_eq`). The 64 bits of the wall clock are one turn for that purpose, since a
difference is right modulo the clock's width; the 32 bits of `GetTickCount` are widened before they
are subtracted, and from a turn to the next the difference is negative (`elapsed_wrapped`).
-/

namespace MmDriver

namespace TimerEx

/-! ## The difference of two clock values -/

/-- Whether the clock has not turned over between two instants. -/
def SameTurn (first later : Nat) : Platform → Prop
  | .windows => first / 2 ^ 32 = later / 2 ^ 32
  | .linux => True

instance (first later : Nat) (platform : Platform) : Decidable (SameTurn first later platform) := by
  cases platform
  · exact inferInstanceAs (Decidable (_ = _))
  · exact inferInstanceAs (Decidable True)

/-- What `Tick` compares with the interval. -/
def elapsed (platform : Platform) (first later : Nat) : Int :=
  TInt64.ofNat (TUint64.sub (ticktime later platform) (ticktime first platform))

/-- In one turn the difference is the time that passed. -/
theorem elapsed_eq {platform : Platform} {first later : Nat} (hle : first ≤ later)
    (hgap : later - first < 2 ^ 32) (hturn : SameTurn first later platform) :
    elapsed platform first later = ((later - first : Nat) : Int) := by
  cases platform with
  | windows =>
    have hepoch : first / 2 ^ 32 = later / 2 ^ 32 := hturn
    simp only [elapsed, ticktime, TUint32.ofNat, TInt64.ofNat, TUint64.sub, SizeT.sub]
    omega
  | linux =>
    simp only [elapsed, ticktime, TUint64.ofNat, TInt64.ofNat, TUint64.sub, SizeT.sub]
    omega

/-- From one turn to a later one it is negative. -/
theorem elapsed_wrapped {platform : Platform} {first later : Nat} (hle : first ≤ later)
    (hgap : later - first < 2 ^ 32) (hturn : ¬SameTurn first later platform) :
    elapsed platform first later < 0 := by
  cases platform with
  | windows =>
    have hepoch : first / 2 ^ 32 ≠ later / 2 ^ 32 := hturn
    simp only [elapsed, ticktime, TUint32.ofNat, TInt64.ofNat, TUint64.sub, SizeT.sub]
    omega
  | linux => exact absurd trivial hturn

/-! ## The invocations that are due -/

/-- The ticks at which `n` milliseconds have passed since the last of them, or since `last`. -/
def due (n last : Nat) : List Nat → List Nat
  | [] => []
  | now :: ticks => if last + n ≤ now then now :: due n now ticks else due n last ticks

/-- At each tick the callback was invoked, with the tick's time, exactly when `n` milliseconds had
passed since the last invocation, or since `last` before the first. -/
def Punctual (info : Nat → TimeData) (n last : Nat) : List Nat → List (List TimeData) → Prop
  | now :: ticks, given :: rest =>
    given = (if last + n ≤ now then [info now] else []) ∧
      Punctual info n (if given = [] then last else now) ticks rest
  | _, _ => True

/-- Successive instants are in order and less than `2 ^ 31` milliseconds apart. -/
def Near (first later : Nat) : Prop := first ≤ later ∧ later - first < 2 ^ 31

/-- A timer with only an interval, as it is after a trigger at `last`. -/
structure Waiting (platform : Platform) (t : TimerEx) (n last : Nat) : Prop where
  lastTrigger : t.kLastTrigger.nMiliSec = ticktime last platform
  interval : t.nInterval = n
  noAlarm : t.nClock = 0

variable {platform : Platform} {calendar : Nat → TimeData} {t : TimerEx} {n last : Nat}

/-- With an empty word a tick is the interval's. -/
theorem tick_interval (h : t.nClock = 0) (time : TimeData) : t.tick time = t.tickInterval time := by
  have hclock : (t.tickInterval time).1.nClock = 0 := by
    unfold tickInterval
    split_ifs <;> exact h
  have halarm : (t.tickInterval time).1.tickAlarm time = ((t.tickInterval time).1, []) := by
    rw [tickAlarm, if_neg (not_not.mpr hclock)]
  rw [tick, halarm, List.append_nil]

/-- One tick of a timer with only an interval. -/
theorem Waiting.tick_eq (h : Waiting platform t n last) (hn : 0 < n) (now : Nat) :
    t.tick (getTimeInfo platform calendar now) =
      if (n : Int) ≤ elapsed platform last now then
        ({ t with kLastTrigger := getTimeInfo platform calendar now },
          [getTimeInfo platform calendar now])
      else (t, []) := by
  have hpositive : t.nInterval > 0 := by
    rw [h.interval]
    omega
  rw [tick_interval h.noAlarm, tickInterval, if_pos hpositive, h.lastTrigger, h.interval]
  rfl

/-- What the callback is given over a run of ticks, tick by tick. -/
def given (platform : Platform) (calendar : Nat → TimeData) (t : TimerEx) (ticks : List Nat) :
    List (List TimeData) :=
  (CallMachine.exec tick t (ticks.map (getTimeInfo platform calendar))).2

/-- From any tick on: the invocations are punctual exactly when those that are due come in one turn
of the clock, each with the one before it. At the last tick less than the interval had passed since
the last trigger (`hrecent`), so that the next is still less than a turn away. -/
theorem Waiting.punctual_along (h : Waiting platform t n last) (hn : 0 < n) (hsmall : n < 2 ^ 31)
    {prev : Nat} (hprev : last ≤ prev) (hrecent : prev - last < n) {ticks : List Nat}
    (hnear : (prev :: ticks).IsChain Near) :
    Punctual (getTimeInfo platform calendar) n last ticks (given platform calendar t ticks) ↔
      (last :: due n last ticks).IsChain fun s u => SameTurn s u platform := by
  induction ticks generalizing t last prev with
  | nil => exact iff_of_true trivial (List.IsChain.singleton last)
  | cons now ticks ih =>
    obtain ⟨⟨horder, hgap⟩, hrest⟩ := List.isChain_cons_cons.mp hnear
    have hle : last ≤ now := Nat.le_trans hprev horder
    have hturnGap : now - last < 2 ^ 32 := by omega
    rw [given, List.map_cons, CallMachine.exec_cons_replies, Punctual, h.tick_eq hn, due]
    by_cases hdue : last + n ≤ now
    · rw [if_pos hdue, if_pos hdue, List.isChain_cons_cons]
      by_cases hturn : SameTurn last now platform
      · have helapsed := elapsed_eq hle hturnGap hturn
        have hfires : (n : Int) ≤ elapsed platform last now := by omega
        have hnext : Waiting platform
            { t with kLastTrigger := getTimeInfo platform calendar now } n now :=
          ⟨rfl, h.interval, h.noAlarm⟩
        rw [if_pos hfires, if_neg (List.cons_ne_nil _ _)]
        have hthen := ih hnext (Nat.le_refl now) (by omega) hrest
        exact and_congr (iff_of_true rfl hturn) hthen
      · -- the invocation is due, and the difference is negative
        have helapsed := elapsed_wrapped hle hturnGap hturn
        have hmiss : ¬(n : Int) ≤ elapsed platform last now := by omega
        rw [if_neg hmiss]
        exact iff_of_false (fun hboth => List.cons_ne_nil _ _ hboth.1.symm) fun hboth => hturn hboth.1
    · rw [if_neg hdue, if_neg hdue]
      have hquiet : ¬(n : Int) ≤ elapsed platform last now := by
        by_cases hturn : SameTurn last now platform
        · have helapsed := elapsed_eq hle hturnGap hturn
          omega
        · have helapsed := elapsed_wrapped hle hturnGap hturn
          omega
      rw [if_neg hquiet, if_pos rfl]
      have hthen := ih h hle (by omega) hrest
      exact (and_iff_right rfl).trans hthen

/-- A new timer with an interval of `n` milliseconds, constructed at an instant. -/
def interval (platform : Platform) (calendar : Nat → TimeData) (n start : Nat) : TimerEx :=
  (TimerEx.new (getTimeInfo platform calendar start)).setInterval n

/-- **An interval timer is punctual** exactly when no two successive invocations that are due, the
construction counted, lie in different turns of the clock: always on Linux, and on Windows until
`GetTickCount` starts again from zero. -/
theorem punctual_iff (platform : Platform) (calendar : Nat → TimeData) {n : Nat} (hn : 0 < n)
    (hsmall : n < 2 ^ 31) {start : Nat} {ticks : List Nat} (hnear : (start :: ticks).IsChain Near) :
    Punctual (getTimeInfo platform calendar) n start ticks
        (given platform calendar (interval platform calendar n start) ticks) ↔
      (start :: due n start ticks).IsChain fun s u => SameTurn s u platform := by
  have hpositive : (n : Int) > 0 := by omega
  have hwaiting : Waiting platform (interval platform calendar n start) n start := by
    rw [interval, setInterval, if_pos hpositive]
    exact ⟨rfl, rfl, rfl⟩
  exact hwaiting.punctual_along hn hsmall (Nat.le_refl start) (by omega) hnear

/-! ## Past the clock's last value -/

/-- A second before `GetTickCount` starts again, and the two seconds after. -/
def beforeWrap : Nat := 2 ^ 32 - 1000

/-- Nothing of the calendar matters to an interval. -/
def noCalendar : Nat → TimeData := fun _ => ⟨1970, 1, 1, 0, 0, 0, 4, 0, 0⟩

theorem aroundWrap_near : [beforeWrap, beforeWrap + 1500, beforeWrap + 3000].IsChain Near := by
  simp [beforeWrap, Near]

theorem punctual_iff_run :
    Punctual (getTimeInfo .windows noCalendar) 1000 beforeWrap [beforeWrap + 1500, beforeWrap + 3000]
        (given .windows noCalendar (interval .windows noCalendar 1000 beforeWrap)
          [beforeWrap + 1500, beforeWrap + 3000]) ↔
      (beforeWrap :: due 1000 beforeWrap [beforeWrap + 1500, beforeWrap + 3000]).IsChain
        fun s u => SameTurn s u .windows :=
  punctual_iff .windows noCalendar (by decide) (by decide) aroundWrap_near

/-- The callback is due at both ticks, and is invoked at neither. -/
theorem wrapped_not_punctual :
    [beforeWrap, beforeWrap + 1500, beforeWrap + 3000].IsChain Near ∧
      given .windows noCalendar (interval .windows noCalendar 1000 beforeWrap)
        [beforeWrap + 1500, beforeWrap + 3000] = [[], []] ∧
      ¬Punctual (getTimeInfo .windows noCalendar) 1000 beforeWrap [beforeWrap + 1500, beforeWrap + 3000]
        (given .windows noCalendar (interval .windows noCalendar 1000 beforeWrap)
          [beforeWrap + 1500, beforeWrap + 3000]) := by
  have hgiven : given .windows noCalendar (interval .windows noCalendar 1000 beforeWrap)
      [beforeWrap + 1500, beforeWrap + 3000] = [[], []] := by decide
  refine ⟨aroundWrap_near, hgiven, fun hpunctual => ?_⟩
  rw [hgiven] at hpunctual
  exact absurd hpunctual.1 (by decide)

end TimerEx

end MmDriver

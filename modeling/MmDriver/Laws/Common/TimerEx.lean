import Mathlib.Data.Prod.Lex
import Mathlib.Logic.Function.Basic
import Mathlib.Tactic.IntervalCases
import MmDriver.Common.TimerEx
import MmDriver.Lib.CallMachine
import MmDriver.Lib.OncePerKey

/-!
# When an alarm goes off

An alarm is set by calls of the setters, each of which enables a field or disables it, and leaves
the others (`configured_of_calls`). A timer without an interval then calls back at a tick that
matches the enabled fields, unless the tick agrees with the last trigger in month, weekday, day,
hour and minute: it answers once for a key, with the calendar minute for the key and those five
numbers for the stamp.

Two minutes of different years can have one stamp. `fires_once_iff` says that this is all that
goes wrong.
-/

namespace MmDriver

/-! ## The alarm word -/

/-- The fields of an alarm. -/
inductive AlarmField where
  | month
  | week
  | day
  | hour
  | minute
deriving DecidableEq, Repr

namespace AlarmField

/-- Where the field stands in the word. -/
def bits : AlarmField → AlarmBits
  | .month => AlarmBits.month
  | .week => AlarmBits.week
  | .day => AlarmBits.day
  | .hour => AlarmBits.hour
  | .minute => AlarmBits.minute

/-- The number of a time that the field is compared with. -/
def value (t : TimeData) : AlarmField → Int
  | .month => t.nMon
  | .week => t.nWeekDay
  | .day => t.nDay
  | .hour => t.nHour
  | .minute => t.nMin

/-- All five. -/
def fields : List AlarmField := [.month, .week, .day, .hour, .minute]

theorem mem_fields (f : AlarmField) : f ∈ fields := by cases f <;> decide

end AlarmField

namespace AlarmBits

/-- A value in its place keeps to its mask, and comes out again. -/
theorem place (f : AlarmField) {n : Int} (h : f.bits.low ≤ n ∧ n ≤ f.bits.high) :
    (BitVec.ofInt 32 n <<< f.bits.shift) &&& ~~~f.bits.mask = 0 ∧
      ((BitVec.ofInt 32 n <<< f.bits.shift) >>> f.bits.shift).toInt = n := by
  obtain ⟨hlo, hhi⟩ := h
  cases f <;> simp only [AlarmField.bits, month, week, day, hour, minute] at hlo hhi ⊢ <;>
    interval_cases n <;> decide

/-- A field's flag and value are bits of the word, and no other field's. -/
theorem disjoint {f g : AlarmField} (h : g ≠ f) (k : BitVec 32)
    (hk : k = g.bits.mask ∨ k = g.bits.flag) :
    k &&& all = k ∧ k &&& f.bits.mask = 0 ∧ k &&& f.bits.flag = 0 := by
  rcases hk with rfl | rfl <;> revert h <;> cases f <;> cases g <;> decide

theorem flag_mask (f : AlarmField) : f.bits.flag &&& f.bits.mask = 0 ∧ f.bits.flag ≠ 0 := by
  cases f <;> decide

/-- Setting a field leaves the bits of the others. -/
theorem set_and_other (f : AlarmField) (c : BitVec 32) (n : Int) {k : BitVec 32}
    (hk : k &&& all = k ∧ k &&& f.bits.mask = 0 ∧ k &&& f.bits.flag = 0) :
    f.bits.set c n &&& k = c &&& k := by
  obtain ⟨hall, hmask, hflag⟩ := hk
  unfold set
  split
  · next hin =>
    have hplace := (place f hin).1
    generalize BitVec.ofInt 32 n <<< f.bits.shift = x at hplace
    ext i hi
    have h₁ := congrArg (·[i]) hall
    have h₂ := congrArg (·[i]) hmask
    have h₃ := congrArg (·[i]) hflag
    have h₄ := congrArg (·[i]) hplace
    simp only [BitVec.getElem_and, BitVec.getElem_or, BitVec.getElem_not] at h₁ h₂ h₃ h₄ ⊢
    grind
  · ext i hi
    have h₁ := congrArg (·[i]) hall
    have h₂ := congrArg (·[i]) hflag
    simp only [BitVec.getElem_and, BitVec.getElem_not] at h₁ h₂ ⊢
    grind

/-- A field that is set to a value it takes has it. -/
theorem set_in (f : AlarmField) (c : BitVec 32) {n : Int}
    (hin : f.bits.low ≤ n ∧ n ≤ f.bits.high) :
    f.bits.Enabled (f.bits.set c n) ∧ f.bits.get (f.bits.set c n) = n := by
  obtain ⟨hplace, hvalue⟩ := place f hin
  obtain ⟨hflag, hnonzero⟩ := flag_mask f
  unfold Enabled get set
  rw [if_pos hin]
  generalize BitVec.ofInt 32 n <<< f.bits.shift = x at hplace hvalue ⊢
  constructor
  · rw [BitVec.and_comm, BitVec.or_comm]
    have habsorb : f.bits.flag &&&
        (f.bits.flag ||| (c &&& (all &&& ~~~f.bits.mask) ||| x)) = f.bits.flag := by
      ext i hi
      simp only [BitVec.getElem_and, BitVec.getElem_or]
      grind
    rwa [habsorb]
  · have hmask : ((c &&& (all &&& ~~~f.bits.mask) ||| x) ||| f.bits.flag) &&& f.bits.mask = x := by
      ext i hi
      have h₁ := congrArg (·[i]) hplace
      have h₂ := congrArg (·[i]) hflag
      simp only [BitVec.getElem_and, BitVec.getElem_or, BitVec.getElem_not] at h₁ h₂ ⊢
      grind
    rwa [hmask]

/-- A field that is set to any other value is disabled. -/
theorem set_out (f : AlarmField) (c : BitVec 32) {n : Int}
    (hout : ¬(f.bits.low ≤ n ∧ n ≤ f.bits.high)) : ¬f.bits.Enabled (f.bits.set c n) := by
  unfold Enabled set
  rw [if_neg hout, not_not]
  ext i hi
  simp only [BitVec.getElem_and, BitVec.getElem_not]
  grind

end AlarmBits

/-! ## The alarm that was set -/

/-- The value of each field that counts. -/
abbrev Alarm := AlarmField → Option Int

namespace Alarm

/-- No field counts. -/
def none : Alarm := fun _ => Option.none

/-- Set one field: a value it does not take disables it. -/
def set (a : Alarm) (f : AlarmField) (n : Int) : Alarm :=
  Function.update a f (if f.bits.low ≤ n ∧ n ≤ f.bits.high then some n else Option.none)

/-- A time agrees with every field that counts. -/
def Matches (a : Alarm) (t : TimeData) : Prop :=
  ∀ f ∈ AlarmField.fields, ∀ n ∈ a f, n = f.value t

instance (a : Alarm) : DecidablePred a.Matches := fun t =>
  inferInstanceAs (Decidable (∀ f ∈ AlarmField.fields, ∀ n ∈ a f, n = f.value t))

/-- The word holds the alarm. -/
structure Held (a : Alarm) (nClock : BitVec 32) : Prop where
  on : ∀ f n, a f = some n → f.bits.Enabled nClock ∧ f.bits.get nClock = n
  off : ∀ f, a f = Option.none → ¬f.bits.Enabled nClock

theorem Held.zero : Held none 0 where
  on f n h := nomatch h
  off f _ := by cases f <;> decide

theorem Held.set {a : Alarm} {c : BitVec 32} (h : Held a c) (f : AlarmField) (n : Int) :
    Held (a.set f n) (f.bits.set c n) := by
  have hother : ∀ g ≠ f, (g.bits.Enabled (f.bits.set c n) ↔ g.bits.Enabled c) ∧
      g.bits.get (f.bits.set c n) = g.bits.get c := by
    intro g hg
    have hmask := AlarmBits.set_and_other f c n (AlarmBits.disjoint hg g.bits.mask (.inl rfl))
    have hflag := AlarmBits.set_and_other f c n (AlarmBits.disjoint hg g.bits.flag (.inr rfl))
    rw [AlarmBits.Enabled, AlarmBits.Enabled, hflag, AlarmBits.get, AlarmBits.get, hmask]
    exact ⟨Iff.rfl, rfl⟩
  refine ⟨fun g k hk => ?_, fun g hk => ?_⟩
  · by_cases hg : g = f
    · subst hg
      rw [Alarm.set, Function.update_self] at hk
      split at hk
      · next hin =>
        obtain rfl := Option.some.inj hk
        exact AlarmBits.set_in g c hin
      · cases hk
    · rw [Alarm.set, Function.update_of_ne hg] at hk
      rw [(hother g hg).1, (hother g hg).2]
      exact h.on g k hk
  · by_cases hg : g = f
    · subst hg
      rw [Alarm.set, Function.update_self] at hk
      split at hk
      · cases hk
      · next hout => exact AlarmBits.set_out g c hout
    · rw [Alarm.set, Function.update_of_ne hg] at hk
      rw [(hother g hg).1]
      exact h.off g hk

end Alarm

/-- A call of one of the alarm's setters. -/
inductive AlarmCall where
  | alarmTime (nMonth nDay nWeek nHour nMinute : Int)
  | alarmMonth (nMonth : Int)
  | alarmWeek (nWeek : Int)
  | alarmDay (nDay : Int)
  | alarmHour (nHour : Int)
  | alarmMinute (nMinute : Int)

namespace AlarmCall

/-- What the call does to the timer. -/
def apply (t : TimerEx) : AlarmCall → TimerEx
  | .alarmTime nMonth nDay nWeek nHour nMinute => t.setAlarmTime nMonth nDay nWeek nHour nMinute
  | .alarmMonth nMonth => t.setAlarmMonth nMonth
  | .alarmWeek nWeek => t.setAlarmWeek nWeek
  | .alarmDay nDay => t.setAlarmDay nDay
  | .alarmHour nHour => t.setAlarmHour nHour
  | .alarmMinute nMinute => t.setAlarmMinute nMinute

/-- What the call does to the alarm. -/
def set (a : Alarm) : AlarmCall → Alarm
  | .alarmTime nMonth nDay nWeek nHour nMinute =>
    ((((a.set .month nMonth).set .week nWeek).set .day nDay).set .hour nHour).set .minute nMinute
  | .alarmMonth nMonth => a.set .month nMonth
  | .alarmWeek nWeek => a.set .week nWeek
  | .alarmDay nDay => a.set .day nDay
  | .alarmHour nHour => a.set .hour nHour
  | .alarmMinute nMinute => a.set .minute nMinute

/-- The alarm that a list of calls sets on a new timer. -/
def alarm (calls : List AlarmCall) : Alarm := calls.foldl set Alarm.none

/-- The new timer after a list of calls. -/
def timer (now : TimeData) (calls : List AlarmCall) : TimerEx :=
  calls.foldl apply (TimerEx.new now)

end AlarmCall

namespace TimerEx

/-- A timer without an interval that holds the alarm. -/
structure Configured (t : TimerEx) (last : TimeData) (a : Alarm) : Prop where
  lastTrigger : t.kLastTrigger = last
  held : a.Held t.nClock
  noInterval : t.nInterval = 0

theorem Configured.apply {t : TimerEx} {last : TimeData} {a : Alarm} (h : t.Configured last a)
    (call : AlarmCall) : (call.apply t).Configured last (call.set a) := by
  refine ⟨?_, ?_, ?_⟩
  · cases call <;> exact h.lastTrigger
  · cases call with
    | alarmTime nMonth nDay nWeek nHour nMinute =>
      exact ((((h.held.set .month nMonth).set .week nWeek).set .day nDay).set .hour nHour).set
        .minute nMinute
    | alarmMonth nMonth => exact h.held.set .month nMonth
    | alarmWeek nWeek => exact h.held.set .week nWeek
    | alarmDay nDay => exact h.held.set .day nDay
    | alarmHour nHour => exact h.held.set .hour nHour
    | alarmMinute nMinute => exact h.held.set .minute nMinute
  · cases call <;> exact h.noInterval

/-- The setters hold the alarm they describe. -/
theorem configured_of_calls (now : TimeData) (calls : List AlarmCall) :
    (AlarmCall.timer now calls).Configured now (AlarmCall.alarm calls) := by
  have hrun : ∀ (calls : List AlarmCall) (t : TimerEx) (a : Alarm), t.Configured now a →
      (calls.foldl AlarmCall.apply t).Configured now (calls.foldl AlarmCall.set a) := by
    intro calls
    induction calls with
    | nil => exact fun t a h => h
    | cons call calls ih => exact fun t a h => ih _ _ (h.apply call)
  exact hrun calls _ _ ⟨rfl, Alarm.Held.zero, rfl⟩

/-! ## One tick -/

/-- What `Tick` compares with the last trigger. -/
def stamp (t : TimeData) : Int × Int × Int × Int × Int :=
  (t.nMon, t.nWeekDay, t.nDay, t.nHour, t.nMin)

theorem stamp_eq_iff (t u : TimeData) : stamp t = stamp u ↔
    t.nMon = u.nMon ∧ t.nWeekDay = u.nWeekDay ∧ t.nDay = u.nDay ∧ t.nHour = u.nHour ∧
      t.nMin = u.nMin := by
  simp only [stamp, Prod.mk.injEq]

/-- A field that counts and has another value stops the tick. -/
theorem held_stops_iff {a : Alarm} {c : BitVec 32} (h : a.Held c) (f : AlarmField) (t : TimeData) :
    f.bits.Enabled c ∧ f.bits.get c ≠ f.value t ↔ ¬∀ n ∈ a f, n = f.value t := by
  cases hf : a f with
  | none =>
    refine iff_of_false (fun hstop => h.off f hf hstop.1) fun hmiss => hmiss fun n hn => ?_
    cases hn
  | some n =>
    obtain ⟨hon, hget⟩ := h.on f n hf
    rw [hget]
    simp [hon]

/-- A word with a field that counts is not zero. -/
theorem held_ne_zero {a : Alarm} {c : BitVec 32} (h : a.Held c) (hsome : ∃ f n, a f = some n) :
    c ≠ 0 := by
  obtain ⟨f, n, hf⟩ := hsome
  intro hzero
  have hon := (h.on f n hf).1
  rw [hzero] at hon
  exact Alarm.Held.zero.off f rfl hon

/-- The alarm's half of a tick. -/
theorem tickAlarm_eq {t : TimerEx} {a : Alarm} (h : a.Held t.nClock) (hclock : t.nClock ≠ 0)
    (time : TimeData) :
    t.tickAlarm time =
      if a.Matches time ∧ stamp time ≠ stamp t.kLastTrigger then
        ({ t with kLastTrigger := time }, [time])
      else (t, []) := by
  have hmatch : a.Matches time ↔
      ¬(AlarmBits.month.Enabled t.nClock ∧ t.getAlarmMonth ≠ time.nMon) ∧
      ¬(AlarmBits.week.Enabled t.nClock ∧ t.getAlarmWeek ≠ time.nWeekDay) ∧
      ¬(AlarmBits.day.Enabled t.nClock ∧ t.getAlarmDay ≠ time.nDay) ∧
      ¬(AlarmBits.hour.Enabled t.nClock ∧ t.getAlarmHour ≠ time.nHour) ∧
      ¬(AlarmBits.minute.Enabled t.nClock ∧ t.getAlarmMinute ≠ time.nMin) := by
    have hstop := fun f => held_stops_iff h f time
    refine ⟨fun hall => ?_, ?_⟩
    · have hpass : ∀ f : AlarmField, ¬(f.bits.Enabled t.nClock ∧
          f.bits.get t.nClock ≠ f.value time) :=
        fun f hmiss => (hstop f).mp hmiss (hall f f.mem_fields)
      exact ⟨hpass .month, hpass .week, hpass .day, hpass .hour, hpass .minute⟩
    · rintro ⟨hmonth, hweek, hday, hhour, hminute⟩ f -
      refine not_not.mp fun hmiss => absurd ((hstop f).mpr hmiss) ?_
      cases f with
      | month => exact hmonth
      | week => exact hweek
      | day => exact hday
      | hour => exact hhour
      | minute => exact hminute
  have hsame := stamp_eq_iff t.kLastTrigger time
  unfold tickAlarm
  rw [if_pos hclock]
  by_cases hfire : a.Matches time ∧ stamp time ≠ stamp t.kLastTrigger
  · obtain ⟨hmonth, hweek, hday, hhour, hminute⟩ := hmatch.mp hfire.1
    rw [if_pos hfire, if_neg fun heq => hfire.2 (hsame.mpr heq).symm, if_neg hmonth, if_neg hweek,
      if_neg hday, if_neg hhour, if_neg hminute]
  · rw [if_neg hfire]
    split_ifs with hstamp hmonth hweek hday hhour hminute
    · rfl
    · rfl
    · rfl
    · rfl
    · rfl
    · rfl
    · have hall := hmatch.mpr ⟨hmonth, hweek, hday, hhour, hminute⟩
      exact absurd ⟨hall, fun heq => hstamp (hsame.mp heq.symm)⟩ hfire

/-- A tick of a timer without an interval is the alarm's. -/
theorem Configured.tick_alarm {t : TimerEx} {last : TimeData} {a : Alarm} (h : t.Configured last a)
    (time : TimeData) : t.tick time = t.tickAlarm time := by
  have hinterval : t.tickInterval time = (t, []) := by
    rw [tickInterval, h.noInterval, if_neg (by decide)]
  rw [tick, hinterval, List.nil_append]

/-- A tick of a timer without an interval, with a field that counts. -/
theorem Configured.tick_eq {t : TimerEx} {last : TimeData} {a : Alarm} (h : t.Configured last a)
    (hsome : ∃ f n, a f = some n) (time : TimeData) :
    t.tick time =
      if a.Matches time ∧ stamp time ≠ stamp last then
        ({ t with kLastTrigger := time }, [time])
      else (t, []) := by
  rw [h.tick_alarm, tickAlarm_eq h.held (held_ne_zero h.held hsome), h.lastTrigger]

/-! ## A run of ticks -/

/-- What the callback is given over a run of ticks. -/
def callbacks (t : TimerEx) (ticks : List TimeData) : List TimeData :=
  (CallMachine.exec tick t ticks).2.flatten

/-- Over a run, the timer answers once for each stamp. -/
theorem Configured.callbacks_eq {t : TimerEx} {last : TimeData} {a : Alarm}
    (h : t.Configured last a) (hsome : ∃ f n, a f = some n) (ticks : List TimeData) :
    t.callbacks ticks = OncePerKey.answered stamp a.Matches last ticks := by
  induction ticks generalizing t last with
  | nil => rfl
  | cons time ticks ih =>
    rw [callbacks, CallMachine.exec_cons_replies, List.flatten_cons, ← callbacks,
      OncePerKey.answered, h.tick_eq hsome]
    split
    · have hnext : ({ t with kLastTrigger := time } : TimerEx).Configured time a :=
        ⟨rfl, h.held, h.noInterval⟩
      rw [ih hnext, List.singleton_append]
    · rw [ih h, List.nil_append]

end TimerEx

/-! ## The calendar -/

namespace TimeData

def Leap (nYear : Int) : Prop := nYear % 4 = 0 ∧ (nYear % 100 ≠ 0 ∨ nYear % 400 = 0)

instance (nYear : Int) : Decidable (Leap nYear) := inferInstanceAs (Decidable (_ ∧ _))

def daysInMonth (nYear nMon : Int) : Int :=
  if nMon = 2 then if Leap nYear then 29 else 28
  else if nMon = 4 ∨ nMon = 6 ∨ nMon = 9 ∨ nMon = 11 then 30
  else 31

/-- The days from the first of January of year 1 to the first of January of `nYear`. -/
def daysBeforeYear (nYear : Int) : Int :=
  365 * (nYear - 1) + (nYear - 1) / 4 - (nYear - 1) / 100 + (nYear - 1) / 400

/-- The days of `nYear` before the first of `nMon`. -/
def daysBeforeMonth (nYear nMon : Int) : Int :=
  ((List.range (nMon - 1).toNat).map fun k => daysInMonth nYear (k + 1)).sum

/-- The day of the week, where `0` is Sunday: the first of January of year 1 was a Monday. -/
def weekDay (nYear nMon nDay : Int) : Int :=
  (daysBeforeYear nYear + daysBeforeMonth nYear nMon + nDay) % 7

/-- A time of the calendar. -/
structure Valid (t : TimeData) : Prop where
  mon : 1 ≤ t.nMon ∧ t.nMon ≤ 12
  day : 1 ≤ t.nDay ∧ t.nDay ≤ daysInMonth t.nYear t.nMon
  hour : 0 ≤ t.nHour ∧ t.nHour ≤ 23
  min : 0 ≤ t.nMin ∧ t.nMin ≤ 59
  weekDay : t.nWeekDay = weekDay t.nYear t.nMon t.nDay

instance (t : TimeData) : Decidable t.Valid :=
  decidable_of_iff ((1 ≤ t.nMon ∧ t.nMon ≤ 12) ∧ (1 ≤ t.nDay ∧ t.nDay ≤ daysInMonth t.nYear t.nMon) ∧
      (0 ≤ t.nHour ∧ t.nHour ≤ 23) ∧ (0 ≤ t.nMin ∧ t.nMin ≤ 59) ∧
      t.nWeekDay = TimeData.weekDay t.nYear t.nMon t.nDay)
    ⟨fun ⟨hmon, hday, hhour, hmin, hweek⟩ => ⟨hmon, hday, hhour, hmin, hweek⟩,
      fun h => ⟨h.mon, h.day, h.hour, h.min, h.weekDay⟩⟩

/-- The calendar minutes, in their order. -/
abbrev Minute := Int ×ₗ Int ×ₗ Int ×ₗ Int ×ₗ Int

/-- The calendar minute of a time. -/
def minute (t : TimeData) : Minute :=
  toLex (t.nYear, toLex (t.nMon, toLex (t.nDay, toLex (t.nHour, t.nMin))))

/-- Times of one minute look alike to `Tick`: the date determines the day of the week. -/
theorem Valid.stamp_eq {t u : TimeData} (ht : t.Valid) (hu : u.Valid) (h : t.minute = u.minute) :
    TimerEx.stamp t = TimerEx.stamp u := by
  simp only [minute, EmbeddingLike.apply_eq_iff_eq, Prod.mk.injEq] at h
  obtain ⟨hyear, hmon, hday, hhour, hmin⟩ := h
  rw [TimerEx.stamp_eq_iff, ht.weekDay, hu.weekDay, hyear, hmon, hday]
  exact ⟨rfl, rfl, rfl, hhour, hmin⟩

end TimeData

namespace TimerEx

/-- The callback was invoked once in each calendar minute that has a tick matching the alarm, and
in no other. -/
def FiresOnce (a : Alarm) (ticks fired : List TimeData) : Prop :=
  ∀ μ : TimeData.Minute, (fired.countP fun t => t.minute = μ) =
    if ∃ t ∈ ticks, a.Matches t ∧ t.minute = μ then 1 else 0

/-- Two times are of one minute, or `Tick` can tell them apart. -/
def Told (t u : TimeData) : Prop := stamp t = stamp u → t.minute = u.minute

/-- **An alarm fires once per matching minute** exactly when, among the time of construction and
the ticks that match, none agrees with the one before it in everything but the year. -/
theorem fires_once_iff {now : TimeData} (hnow : now.Valid) (calls : List AlarmCall)
    (hfields : ∃ f n, AlarmCall.alarm calls f = some n) {ticks : List TimeData}
    (hvalid : ∀ t ∈ ticks, t.Valid) (hsorted : ticks.Pairwise fun t u => t.minute ≤ u.minute)
    (hlater : ∀ t ∈ ticks, now.minute < t.minute) :
    FiresOnce (AlarmCall.alarm calls) ticks ((AlarmCall.timer now calls).callbacks ticks) ↔
      (now :: ticks.filter (AlarmCall.alarm calls).Matches).IsChain Told := by
  have hall : ∀ t ∈ now :: ticks, t.Valid := by
    intro t ht
    rcases List.mem_cons.mp ht with rfl | ht
    · exact hnow
    · exact hvalid t ht
  have hordered : (now :: ticks).Pairwise fun t u => t.minute ≤ u.minute :=
    List.pairwise_cons.mpr ⟨fun t ht => le_of_lt (hlater t ht), hsorted⟩
  have hchain : OncePerKey.Once TimeData.minute (AlarmCall.alarm calls).Matches now ticks
      (OncePerKey.answered stamp (AlarmCall.alarm calls).Matches now ticks) ↔
        (now :: ticks.filter (AlarmCall.alarm calls).Matches).IsChain Told :=
    OncePerKey.once_iff hordered fun t ht u hu => (hall t ht).stamp_eq (hall u hu)
  rw [(configured_of_calls now calls).callbacks_eq hfields]
  refine Iff.trans ?_ hchain
  refine forall_congr' fun μ => ?_
  have hnone : (∃ t ∈ ticks, (AlarmCall.alarm calls).Matches t ∧ t.minute = μ) ↔
      μ ≠ now.minute ∧ ∃ t ∈ ticks, (AlarmCall.alarm calls).Matches t ∧ t.minute = μ := by
    refine ⟨fun hex => ⟨?_, hex⟩, And.right⟩
    obtain ⟨t, ht, -, rfl⟩ := hex
    exact ne_of_gt (hlater t ht)
  simp only [← hnone, OncePerKey.countAt]

/-! ## An alarm that goes off once and never again

The first of June, when it is a Monday, at ten. That is so in 2020 and in 2026, and whatever ticks
come between, the timer takes the second minute for the first. -/

/-- The last day of May 2020, a Sunday. -/
def lastOfMay : TimeData := ⟨2020, 5, 31, 12, 0, 0, 0, 0, 0⟩

/-- A first of June that is a Monday, at ten. -/
def firstOfJune (nYear nSec : Int) : TimeData := ⟨nYear, 6, 1, 10, 0, nSec, 1, 0, 0⟩

def mondayAtTen : List AlarmCall := [.alarmTime 6 1 1 10 0]

def twoMondays : List TimeData := [firstOfJune 2020 0, firstOfJune 2020 30, firstOfJune 2026 0]

theorem twoMondays_valid : lastOfMay.Valid ∧ ∀ t ∈ twoMondays, t.Valid := by decide

theorem twoMondays_sorted : (twoMondays.Pairwise fun t u => t.minute ≤ u.minute) ∧
    ∀ t ∈ twoMondays, lastOfMay.minute < t.minute := by decide

theorem fires_once_iff_run :
    FiresOnce (AlarmCall.alarm mondayAtTen) twoMondays
        ((AlarmCall.timer lastOfMay mondayAtTen).callbacks twoMondays) ↔
      (lastOfMay :: twoMondays.filter (AlarmCall.alarm mondayAtTen).Matches).IsChain Told :=
  fires_once_iff twoMondays_valid.1 mondayAtTen ⟨.month, 6, by decide⟩ twoMondays_valid.2
    twoMondays_sorted.1 twoMondays_sorted.2

/-- In 2026 the callback is not invoked. -/
theorem second_monday_missed :
    (lastOfMay.Valid ∧ (∀ t ∈ twoMondays, t.Valid)) ∧
      ((twoMondays.Pairwise fun t u => t.minute ≤ u.minute) ∧
        ∀ t ∈ twoMondays, lastOfMay.minute < t.minute) ∧
      ¬FiresOnce (AlarmCall.alarm mondayAtTen) twoMondays
        ((AlarmCall.timer lastOfMay mondayAtTen).callbacks twoMondays) := by
  refine ⟨twoMondays_valid, twoMondays_sorted, fun honce => ?_⟩
  have h2026 := honce (firstOfJune 2026 0).minute
  revert h2026
  decide

end TimerEx

end MmDriver

import MmDriver.Common.Types

/-!
# Timers

`include/common/time_ex.h`, `include/common/timer_ex.h` and `src/common/timer_ex.cpp`. A timer
calls back at an interval, at an alarm, or both. The alarm is one 32-bit word: five fields of the
calendar, each with its value and a flag that says whether it counts.

What `Tick` gives to the callback is part of its result.
-/

namespace MmDriver

/-- `TimeData`. -/
structure TimeData where
  nYear : Int
  nMon : Int
  nDay : Int
  nHour : Int
  nMin : Int
  nSec : Int
  nWeekDay : Int
  nAnsiTime : Int
  nMiliSec : Nat
deriving DecidableEq, Repr

/-- The two sides of the source's `#if`. -/
inductive Platform where
  | windows
  | linux
deriving DecidableEq, Repr

/-- `ticktime`, at the instant of that many milliseconds: on Windows they count from the start of
the system, and `GetTickCount` has 32 bits of them; on Linux they are the wall clock's. -/
def ticktime (instant : Nat) : Platform → Nat
  | .windows => TUint32.ofNat instant
  | .linux => TUint64.ofNat instant

/-- `get_time_info`. What the calendar says at an instant is given. -/
def getTimeInfo (platform : Platform) (calendar : Nat → TimeData) (instant : Nat) : TimeData :=
  { calendar instant with nMiliSec := ticktime instant platform }

/-- One field of the alarm word: its flag, the bits of its value, and the values it takes. -/
structure AlarmBits where
  flag : BitVec 32
  mask : BitVec 32
  shift : Nat
  low : Int
  high : Int
deriving DecidableEq, Repr

namespace AlarmBits

/-- `TCM_MONTH_FLAG` and `TCM_MONTH`. -/
def month : AlarmBits := ⟨1 <<< 27, 0x780000, 19, 1, 12⟩

/-- `TCM_WEEK_FLAG` and `TCM_WEEK`. -/
def week : AlarmBits := ⟨1 <<< 26, 0x70000, 16, 0, 6⟩

/-- `TCM_DAY_FLAG` and `TCM_DAY`. -/
def day : AlarmBits := ⟨1 <<< 25, 0xF800, 11, 1, 31⟩

/-- `TCM_HOUR_FLAG` and `TCM_HOUR`. -/
def hour : AlarmBits := ⟨1 <<< 24, 0x7C0, 6, 0, 23⟩

/-- `TCM_MINUTE_FLAG` and `TCM_MINUTE`. -/
def minute : AlarmBits := ⟨1 <<< 23, 0x3F, 0, 0, 59⟩

/-- `TCM_ALL`. -/
def all : BitVec 32 :=
  month.flag ||| week.flag ||| day.flag ||| hour.flag ||| minute.flag ||| month.mask ||| week.mask |||
    day.mask ||| hour.mask ||| minute.mask

/-- A value the field takes is stored and flagged; any other clears the flag. -/
def set (b : AlarmBits) (nClock : BitVec 32) (n : Int) : BitVec 32 :=
  if b.low ≤ n ∧ n ≤ b.high then
    (nClock &&& (all &&& ~~~b.mask) ||| BitVec.ofInt 32 n <<< b.shift) ||| b.flag
  else nClock &&& (all &&& ~~~b.flag)

/-- The stored value, at `tint32`. -/
def get (b : AlarmBits) (nClock : BitVec 32) : Int := ((nClock &&& b.mask) >>> b.shift).toInt

/-- The field counts. -/
def Enabled (b : AlarmBits) (nClock : BitVec 32) : Prop := nClock &&& b.flag ≠ 0

instance (b : AlarmBits) (nClock : BitVec 32) : Decidable (b.Enabled nClock) :=
  inferInstanceAs (Decidable (_ ≠ _))

end AlarmBits

/-- `TimerEx`, less its callback. -/
structure TimerEx where
  kLastTrigger : TimeData
  nClock : BitVec 32
  nInterval : Int
deriving DecidableEq, Repr

namespace TimerEx

/-- The constructor: `get_time_info` says what time it is. -/
def new (now : TimeData) : TimerEx := ⟨now, 0, 0⟩

/-! ## The alarm's fields -/

/-- `SetAlarmMonth`. -/
def setAlarmMonth (t : TimerEx) (nMonth : Int) : TimerEx :=
  { t with nClock := AlarmBits.month.set t.nClock nMonth }

/-- `SetAlarmWeek`. -/
def setAlarmWeek (t : TimerEx) (nWeek : Int) : TimerEx :=
  { t with nClock := AlarmBits.week.set t.nClock nWeek }

/-- `SetAlarmDay`. -/
def setAlarmDay (t : TimerEx) (nDay : Int) : TimerEx :=
  { t with nClock := AlarmBits.day.set t.nClock nDay }

/-- `SetAlarmHour`. -/
def setAlarmHour (t : TimerEx) (nHour : Int) : TimerEx :=
  { t with nClock := AlarmBits.hour.set t.nClock nHour }

/-- `SetAlarmMinute`. -/
def setAlarmMinute (t : TimerEx) (nMinute : Int) : TimerEx :=
  { t with nClock := AlarmBits.minute.set t.nClock nMinute }

/-- `SetAlarmTime`. -/
def setAlarmTime (t : TimerEx) (nMonth nDay nWeek nHour nMinute : Int) : TimerEx :=
  ((((t.setAlarmMonth nMonth).setAlarmWeek nWeek).setAlarmDay nDay).setAlarmHour
    nHour).setAlarmMinute nMinute

/-- `GetAlarmMonth`. -/
def getAlarmMonth (t : TimerEx) : Int := AlarmBits.month.get t.nClock

/-- `GetAlarmWeek`. -/
def getAlarmWeek (t : TimerEx) : Int := AlarmBits.week.get t.nClock

/-- `GetAlarmDay`. -/
def getAlarmDay (t : TimerEx) : Int := AlarmBits.day.get t.nClock

/-- `GetAlarmHour`. -/
def getAlarmHour (t : TimerEx) : Int := AlarmBits.hour.get t.nClock

/-- `GetAlarmMinute`. -/
def getAlarmMinute (t : TimerEx) : Int := AlarmBits.minute.get t.nClock

/-- `SetInterval`. -/
def setInterval (t : TimerEx) (nMiliSec : Int) : TimerEx :=
  if nMiliSec > 0 then { t with nInterval := nMiliSec } else t

/-! ## `Tick` -/

/-- The interval's half of `Tick`: the timer, and what the callback is given. -/
def tickInterval (t : TimerEx) (rkTimeData : TimeData) : TimerEx × List TimeData :=
  if t.nInterval > 0 then
    if TInt64.ofNat (TUint64.sub rkTimeData.nMiliSec t.kLastTrigger.nMiliSec) ≥ t.nInterval then
      ({ t with kLastTrigger := rkTimeData }, [rkTimeData])
    else (t, [])
  else (t, [])

/-- The alarm's half of `Tick`. The year is not compared. -/
def tickAlarm (t : TimerEx) (rkTimeData : TimeData) : TimerEx × List TimeData :=
  if t.nClock ≠ 0 then
    if t.kLastTrigger.nMon = rkTimeData.nMon ∧ t.kLastTrigger.nWeekDay = rkTimeData.nWeekDay ∧
        t.kLastTrigger.nDay = rkTimeData.nDay ∧ t.kLastTrigger.nHour = rkTimeData.nHour ∧
        t.kLastTrigger.nMin = rkTimeData.nMin then (t, [])
    else if AlarmBits.month.Enabled t.nClock ∧ t.getAlarmMonth ≠ rkTimeData.nMon then (t, [])
    else if AlarmBits.week.Enabled t.nClock ∧ t.getAlarmWeek ≠ rkTimeData.nWeekDay then (t, [])
    else if AlarmBits.day.Enabled t.nClock ∧ t.getAlarmDay ≠ rkTimeData.nDay then (t, [])
    else if AlarmBits.hour.Enabled t.nClock ∧ t.getAlarmHour ≠ rkTimeData.nHour then (t, [])
    else if AlarmBits.minute.Enabled t.nClock ∧ t.getAlarmMinute ≠ rkTimeData.nMin then (t, [])
    else ({ t with kLastTrigger := rkTimeData }, [rkTimeData])
  else (t, [])

/-- `Tick`. -/
def tick (t : TimerEx) (rkTimeData : TimeData) : TimerEx × List TimeData :=
  let interval := t.tickInterval rkTimeData
  let alarm := interval.1.tickAlarm rkTimeData
  (alarm.1, interval.2 ++ alarm.2)

end TimerEx

end MmDriver

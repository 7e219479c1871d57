import MmDriver.Laws.Common.TimerEx

/-!
# What is left in the alarm's word

`Tick` looks at the alarm when the whole word is not zero. The word has a flag and a value for each
field, and a setter that disables a field clears its flag only: the value that the field took last
stays (`Spells`). So the word of a timer with no field enabled is zero exactly when each of these
values is (`spells_eq_zero`), and when one is not, every tick calls back that does not agree with
the last trigger.
-/

namespace MmDriver

namespace AlarmCall

/-- The fields a call sets, in order, each with its argument. -/
def args : AlarmCall → List (AlarmField × Int)
  | .alarmTime nMonth nDay nWeek nHour nMinute =>
    [(.month, nMonth), (.week, nWeek), (.day, nDay), (.hour, nHour), (.minute, nMinute)]
  | .alarmMonth nMonth => [(.month, nMonth)]
  | .alarmWeek nWeek => [(.week, nWeek)]
  | .alarmDay nDay => [(.day, nDay)]
  | .alarmHour nHour => [(.hour, nHour)]
  | .alarmMinute nMinute => [(.minute, nMinute)]

/-- An argument that the field takes replaces the value before it; any other leaves it. -/
def keep (v : AlarmField → Int) (arg : AlarmField × Int) : AlarmField → Int :=
  if arg.1.bits.low ≤ arg.2 ∧ arg.2 ≤ arg.1.bits.high then Function.update v arg.1 arg.2 else v

/-- The last argument of each field that the field takes, and `0` when there was none. -/
def remembered (calls : List AlarmCall) : AlarmField → Int :=
  (calls.flatMap args).foldl keep fun _ => 0

/-- A call changes the word, one argument after the other, and nothing else. -/
theorem apply_eq (t : TimerEx) (call : AlarmCall) :
    call.apply t = { t with nClock := call.args.foldl (fun c arg => arg.1.bits.set c arg.2) t.nClock } := by
  cases call <;> rfl

end AlarmCall

namespace AlarmBits

/-- A field's flag and value are bits of the word, and not each other's. -/
theorem in_all (f : AlarmField) :
    f.bits.mask &&& all = f.bits.mask ∧ f.bits.flag &&& all = f.bits.flag := by
  cases f <;> decide

/-- A word has no bits but the fields'. -/
theorem all_covered {i : Nat} (hi : i < 32) (h : all[i] = true) :
    ∃ f : AlarmField, f.bits.flag[i] = true ∨ f.bits.mask[i] = true := by
  simp only [all, BitVec.getElem_or, Bool.or_eq_true] at h
  rcases h with (((((((((h | h) | h) | h) | h) | h) | h) | h) | h) | h)
  · exact ⟨.month, .inl h⟩
  · exact ⟨.week, .inl h⟩
  · exact ⟨.day, .inl h⟩
  · exact ⟨.hour, .inl h⟩
  · exact ⟨.minute, .inl h⟩
  · exact ⟨.month, .inr h⟩
  · exact ⟨.week, .inr h⟩
  · exact ⟨.day, .inr h⟩
  · exact ⟨.hour, .inr h⟩
  · exact ⟨.minute, .inr h⟩

/-- A value's bits begin at its shift. -/
theorem mask_low (f : AlarmField) : ∀ i < f.bits.shift, f.bits.mask.getLsbD i = false := by
  cases f <;> decide

/-- A field that reads as zero has none of its bits. -/
theorem get_eq_zero {f : AlarmField} {c : BitVec 32} (h : f.bits.get c = 0) : c &&& f.bits.mask = 0 := by
  have hshift : (c &&& f.bits.mask) >>> f.bits.shift = 0 := BitVec.toInt_inj.mp h
  apply BitVec.eq_of_getLsbD_eq
  intro i hi
  rw [show (0 : BitVec 32) = 0#32 from rfl] at hshift ⊢
  rw [BitVec.getLsbD_zero]
  by_cases hlow : i < f.bits.shift
  · rw [BitVec.getLsbD_and, mask_low f i hlow, Bool.and_false]
  · have hbit := congrArg (fun x => x.getLsbD (i - f.bits.shift)) hshift
    simp only [BitVec.getLsbD_ushiftRight, BitVec.getLsbD_zero] at hbit
    rwa [Nat.add_sub_cancel' (Nat.not_lt.mp hlow)] at hbit

/-- Setting a field to a value it does not take leaves every value as it was. -/
theorem get_set_out {f : AlarmField} {n : Int} (hout : ¬(f.bits.low ≤ n ∧ n ≤ f.bits.high))
    (c : BitVec 32) : f.bits.get (f.bits.set c n) = f.bits.get c := by
  have hmask : c &&& (all &&& ~~~f.bits.flag) &&& f.bits.mask = c &&& f.bits.mask := by
    have hall := (in_all f).1
    have hflag := (flag_mask f).1
    ext i hi
    have h₁ := congrArg (·[i]) hall
    have h₂ := congrArg (·[i]) hflag
    simp only [BitVec.getElem_and, BitVec.getElem_not] at h₁ h₂ ⊢
    grind
  unfold get set
  rw [if_neg hout, hmask]

/-- Setting a field leaves no bits but the fields'. -/
theorem set_within (f : AlarmField) (c : BitVec 32) (n : Int) :
    f.bits.set c n &&& all = f.bits.set c n := by
  obtain ⟨hmask, hflag⟩ := in_all f
  unfold set
  split
  · next hin =>
    have hplace := (place f hin).1
    generalize BitVec.ofInt 32 n <<< f.bits.shift = x at hplace
    ext i hi
    have h₁ := congrArg (·[i]) hmask
    have h₂ := congrArg (·[i]) hflag
    have h₃ := congrArg (·[i]) hplace
    simp only [BitVec.getElem_and, BitVec.getElem_or, BitVec.getElem_not] at h₁ h₂ h₃ ⊢
    grind
  · ext i hi
    simp only [BitVec.getElem_and, BitVec.getElem_not]
    grind

end AlarmBits

/-! ## The values in the word -/

/-- The word's value bits spell the values, and it has no bits but the fields'. -/
structure Spells (v : AlarmField → Int) (nClock : BitVec 32) : Prop where
  get_eq : ∀ f : AlarmField, f.bits.get nClock = v f
  within : nClock &&& AlarmBits.all = nClock

theorem Spells.zero : Spells (fun _ => 0) 0 where
  get_eq f := by cases f <;> rfl
  within := rfl

theorem Spells.set {v : AlarmField → Int} {c : BitVec 32} (h : Spells v c) (arg : AlarmField × Int) :
    Spells (AlarmCall.keep v arg) (arg.1.bits.set c arg.2) := by
  obtain ⟨f, n⟩ := arg
  refine ⟨fun g => ?_, AlarmBits.set_within f c n⟩
  have hother : g ≠ f → g.bits.get (f.bits.set c n) = v g := by
    intro hg
    rw [← h.get_eq g, AlarmBits.get, AlarmBits.get,
      AlarmBits.set_and_other f c n (AlarmBits.disjoint hg g.bits.mask (.inl rfl))]
  unfold AlarmCall.keep
  split
  · next hin =>
    by_cases hg : g = f
    · subst hg
      rw [Function.update_self]
      exact (AlarmBits.set_in g c hin).2
    · rw [Function.update_of_ne hg]
      exact hother hg
  · next hout =>
    by_cases hg : g = f
    · subst hg
      rw [AlarmBits.get_set_out hout]
      exact h.get_eq g
    · exact hother hg

theorem Spells.args {v : AlarmField → Int} {c : BitVec 32} (h : Spells v c)
    (args : List (AlarmField × Int)) :
    Spells (args.foldl AlarmCall.keep v) (args.foldl (fun c arg => arg.1.bits.set c arg.2) c) := by
  induction args generalizing v c with
  | nil => exact h
  | cons arg args ih => exact ih (h.set arg)

/-- With no field enabled, the word is zero exactly when every field's last value is. -/
theorem Spells.eq_zero_iff {v : AlarmField → Int} {word : BitVec 32} (h : Spells v word)
    (hoff : ∀ f : AlarmField, ¬f.bits.Enabled word) : word = 0 ↔ ∀ f, v f = 0 := by
  constructor
  · rintro rfl f
    rw [← h.get_eq f]
    exact Spells.zero.get_eq f
  · intro hzero
    ext i hi
    have hbit : word[i] = true → False := by
      intro hc
      have hall : (word &&& AlarmBits.all)[i] = true := by rwa [h.within]
      rw [BitVec.getElem_and, Bool.and_eq_true] at hall
      -- the bit is some field's, and no field has one
      obtain ⟨f, hflag | hmask⟩ := AlarmBits.all_covered hi hall.2
      · have hclear : word &&& f.bits.flag = 0 := not_not.mp (hoff f)
        have hlow := congrArg (·[i]) hclear
        simp [hc, hflag] at hlow
      · have hclear := AlarmBits.get_eq_zero (h.get_eq f |>.trans (hzero f))
        have hlow := congrArg (·[i]) hclear
        simp [hc, hmask] at hlow
    rw [show (0 : BitVec 32) = 0#32 from rfl, BitVec.getElem_zero]
    exact Bool.eq_false_iff.mpr hbit

/-! ## Setters and ticks in any order -/

/-- What happens to a timer. -/
inductive TimerEvent where
  | set (call : AlarmCall)
  | tick (rkTimeData : TimeData)

namespace TimerEvent

/-- What the event does to the timer, and what the callback is given. -/
def step (t : TimerEx) : TimerEvent → TimerEx × List TimeData
  | .set call => (call.apply t, [])
  | .tick rkTimeData => t.tick rkTimeData

/-- The new timer after a run of events. -/
def timer (now : TimeData) (events : List TimerEvent) : TimerEx :=
  (CallMachine.exec step (TimerEx.new now) events).1

/-- The calls of a run, in order. -/
def calls : List TimerEvent → List AlarmCall
  | [] => []
  | .set call :: events => call :: calls events
  | .tick _ :: events => calls events

end TimerEvent

namespace TimerEx

/-- A tick leaves the alarm's word and the interval. -/
theorem tick_keeps (t : TimerEx) (time : TimeData) :
    (t.tick time).1.nClock = t.nClock ∧ (t.tick time).1.nInterval = t.nInterval := by
  have halarm : ∀ u : TimerEx, (u.tickAlarm time).1.nClock = u.nClock ∧
      (u.tickAlarm time).1.nInterval = u.nInterval := by
    intro u
    unfold tickAlarm
    split_ifs <;> exact ⟨rfl, rfl⟩
  have hinterval : (t.tickInterval time).1.nClock = t.nClock ∧
      (t.tickInterval time).1.nInterval = t.nInterval := by
    unfold tickInterval
    split_ifs <;> exact ⟨rfl, rfl⟩
  obtain ⟨hclock, hint⟩ := halarm (t.tickInterval time).1
  exact ⟨hclock.trans hinterval.1, hint.trans hinterval.2⟩

/-- What a timer without an interval keeps of its history. -/
structure Kept (t : TimerEx) (a : Alarm) (v : AlarmField → Int) : Prop where
  configured : t.Configured t.kLastTrigger a
  spells : Spells v t.nClock

theorem Kept.call {t : TimerEx} {a : Alarm} {v : AlarmField → Int} (h : t.Kept a v) (call : AlarmCall) :
    (call.apply t).Kept (call.set a) (call.args.foldl AlarmCall.keep v) := by
  have hconfigured := h.configured.apply call
  refine ⟨⟨rfl, hconfigured.held, hconfigured.noInterval⟩, ?_⟩
  rw [AlarmCall.apply_eq]
  exact h.spells.args call.args

theorem Kept.tick {t : TimerEx} {a : Alarm} {v : AlarmField → Int} (h : t.Kept a v) (time : TimeData) :
    (t.tick time).1.Kept a v := by
  obtain ⟨hclock, hinterval⟩ := t.tick_keeps time
  refine ⟨⟨rfl, ?_, ?_⟩, ?_⟩
  · rw [hclock]
    exact h.configured.held
  · rw [hinterval]
    exact h.configured.noInterval
  · rw [hclock]
    exact h.spells

/-- Over every run of setters and ticks, the timer keeps what the setters said. -/
theorem Kept.events {t : TimerEx} {a : Alarm} {v : AlarmField → Int} (h : t.Kept a v)
    (events : List TimerEvent) :
    (CallMachine.exec TimerEvent.step t events).1.Kept
      ((TimerEvent.calls events).foldl AlarmCall.set a)
      (((TimerEvent.calls events).flatMap AlarmCall.args).foldl AlarmCall.keep v) := by
  induction events generalizing t a v with
  | nil => exact h
  | cons event events ih =>
    cases event with
    | set call =>
      have hnext := ih (h.call call)
      rw [TimerEvent.calls, List.flatMap_cons, List.foldl_append, List.foldl_cons]
      exact hnext
    | tick time => exact ih (h.tick time)

theorem kept_timer (now : TimeData) (events : List TimerEvent) :
    (TimerEvent.timer now events).Kept (AlarmCall.alarm (TimerEvent.calls events))
      (AlarmCall.remembered (TimerEvent.calls events)) :=
  Kept.events ⟨⟨rfl, Alarm.Held.zero, rfl⟩, Spells.zero⟩ events

/-! ## The ticks that call back -/

/-- A tick calls back only as the alarm says: some field counts, and the tick agrees with every
field that does. -/
def AsConfigured (t : TimerEx) (a : Alarm) (time : TimeData) : Prop :=
  (t.tick time).2 ≠ [] → (∃ f n, a f = some n) ∧ a.Matches time

/-- With no field enabled, every time agrees with the fields that count. -/
theorem matches_of_none {a : Alarm} (h : ¬∃ f n, a f = some n) (time : TimeData) : a.Matches time :=
  fun f _ n hn => absurd ⟨f, n, hn⟩ h

theorem Kept.asConfigured_iff {t : TimerEx} {a : Alarm} {v : AlarmField → Int} (h : t.Kept a v)
    (time : TimeData) :
    t.AsConfigured a time ↔
      (∃ f n, a f = some n) ∨ (∀ f, v f = 0) ∨ stamp time = stamp t.kLastTrigger := by
  unfold AsConfigured
  rw [h.configured.tick_alarm]
  by_cases hsome : ∃ f n, a f = some n
  · refine iff_of_true (fun hfires => ⟨hsome, ?_⟩) (.inl hsome)
    rw [tickAlarm_eq h.configured.held (held_ne_zero h.configured.held hsome)] at hfires
    by_contra hmiss
    exact hfires (by rw [if_neg fun hboth => hmiss hboth.1])
  · have hoff : ∀ f : AlarmField, ¬f.bits.Enabled t.nClock := by
      intro f
      refine h.configured.held.off f ?_
      cases hf : a f with
      | none => rfl
      | some n => exact absurd ⟨f, n, hf⟩ hsome
    have hzero := h.spells.eq_zero_iff hoff
    simp only [hsome, false_and, false_or, imp_false, not_not, ← hzero]
    by_cases hclock : t.nClock = 0
    · refine iff_of_true ?_ (.inl hclock)
      rw [tickAlarm, if_neg (not_not.mpr hclock)]
    · rw [tickAlarm_eq h.configured.held hclock]
      by_cases hsame : stamp time = stamp t.kLastTrigger
      · refine iff_of_true ?_ (.inr hsame)
        rw [if_neg fun hboth => hboth.2 hsame]
      · rw [if_pos ⟨matches_of_none hsome time, hsame⟩]
        exact iff_of_false (List.cons_ne_nil time []) fun hor => hor.elim hclock hsame

/-- **An alarm fires only as configured**: after any run of setters and ticks, a tick calls back
only as the alarm says, if and only if some field is enabled, or no field has a value left in the
word, or the tick agrees with the last trigger. -/
theorem as_configured_iff (now : TimeData) (events : List TimerEvent) (time : TimeData) :
    (TimerEvent.timer now events).AsConfigured (AlarmCall.alarm (TimerEvent.calls events)) time ↔
      (∃ f n, AlarmCall.alarm (TimerEvent.calls events) f = some n) ∨
        (∀ f, AlarmCall.remembered (TimerEvent.calls events) f = 0) ∨
        stamp time = stamp (TimerEvent.timer now events).kLastTrigger :=
  (kept_timer now events).asConfigured_iff time

/-- A month is enabled and disabled again, and the next tick calls back. -/
theorem disabled_month_fires :
    let t := TimerEvent.timer lastOfMay [.set (.alarmMonth 6), .set (.alarmMonth 0)]
    AlarmCall.alarm (TimerEvent.calls [.set (.alarmMonth 6), .set (.alarmMonth 0)]) = Alarm.none ∧
      (t.tick (firstOfJune 2020 0)).2 = [firstOfJune 2020 0] ∧
      ¬t.AsConfigured Alarm.none (firstOfJune 2020 0) := by
  have hfires : ((TimerEvent.timer lastOfMay [.set (.alarmMonth 6), .set (.alarmMonth 0)]).tick
      (firstOfJune 2020 0)).2 = [firstOfJune 2020 0] := by decide
  refine ⟨?_, hfires, fun hconfigured => ?_⟩
  · funext f
    cases f <;> rfl
  · obtain ⟨⟨f, n, hf⟩, -⟩ := hconfigured (by rw [hfires]; exact List.cons_ne_nil _ _)
    cases hf

end TimerEx

/-! ## Each field is its own -/

namespace AlarmField

/-- The field's own getter. -/
def getAlarm : AlarmField → TimerEx → Int
  | .month => TimerEx.getAlarmMonth
  | .week => TimerEx.getAlarmWeek
  | .day => TimerEx.getAlarmDay
  | .hour => TimerEx.getAlarmHour
  | .minute => TimerEx.getAlarmMinute

theorem getAlarm_eq (f : AlarmField) (t : TimerEx) : f.getAlarm t = f.bits.get t.nClock := by
  cases f <;> rfl

/-- The argument is in the field's range. -/
def takes (f : AlarmField) (n : Int) : Bool := f.bits.low ≤ n ∧ n ≤ f.bits.high

theorem takes_iff (f : AlarmField) (n : Int) :
    f.takes n = true ↔ f.bits.low ≤ n ∧ n ≤ f.bits.high := decide_eq_true_iff

/-- The arguments of the field's own setter, in order. -/
def own (f : AlarmField) (args : List (AlarmField × Int)) : List Int :=
  (args.filter fun arg => arg.1 = f).map Prod.snd

theorem own_concat_self (f : AlarmField) (args : List (AlarmField × Int)) (n : Int) :
    f.own (args ++ [(f, n)]) = f.own args ++ [n] := by
  simp [own, List.filter_append]

theorem own_concat_of_ne {f g : AlarmField} (h : g ≠ f) (args : List (AlarmField × Int)) (n : Int) :
    f.own (args ++ [(g, n)]) = f.own args := by
  simp [own, List.filter_append, h]

end AlarmField

namespace AlarmCall

/-- The value that is left of a field is the last one it took. -/
theorem foldl_keep (f : AlarmField) (args : List (AlarmField × Int)) :
    args.foldl keep (fun _ => 0) f = ((f.own args).filter f.takes).getLast?.getD 0 := by
  induction args using List.reverseRecOn with
  | nil => rfl
  | append_singleton args arg ih =>
    obtain ⟨g, n⟩ := arg
    rw [List.foldl_concat, keep]
    by_cases hg : g = f
    · subst hg
      rw [AlarmField.own_concat_self, List.filter_append]
      split
      · next hin =>
        rw [Function.update_self, List.filter_singleton, (g.takes_iff n).mpr hin, cond_true,
          List.getLast?_concat, Option.getD_some]
      · next hout =>
        rw [List.filter_singleton, Bool.eq_false_iff.mpr fun h => hout ((g.takes_iff n).mp h),
          cond_false, List.append_nil, ih]
    · rw [AlarmField.own_concat_of_ne hg]
      split
      · rw [Function.update_of_ne (Ne.symm hg), ih]
      · exact ih

/-- A call sets the fields of the alarm, one argument after the other. -/
theorem set_eq (a : Alarm) (call : AlarmCall) :
    call.set a = call.args.foldl (fun a arg => a.set arg.1 arg.2) a := by
  cases call <;> rfl

theorem alarm_eq (calls : List AlarmCall) :
    alarm calls = (calls.flatMap args).foldl (fun a arg => a.set arg.1 arg.2) Alarm.none := by
  rw [alarm, List.foldl_flatMap]
  exact congrArg (fun step => calls.foldl step Alarm.none) (funext fun a => funext (set_eq a))

/-- A field counts when its last argument was in range. -/
theorem foldl_set_isSome (f : AlarmField) (args : List (AlarmField × Int)) :
    (args.foldl (fun a arg => a.set arg.1 arg.2) Alarm.none f).isSome =
      ((f.own args).getLast?.map f.takes).getD false := by
  induction args using List.reverseRecOn with
  | nil => rfl
  | append_singleton args arg ih =>
    obtain ⟨g, n⟩ := arg
    rw [List.foldl_concat, Alarm.set]
    by_cases hg : g = f
    · subst hg
      rw [AlarmField.own_concat_self, Function.update_self, List.getLast?_concat, Option.map_some,
        Option.getD_some]
      split
      · next hin => exact ((g.takes_iff n).mpr hin).symm
      · next hout => exact (Bool.eq_false_iff.mpr fun h => hout ((g.takes_iff n).mp h)).symm
    · rw [AlarmField.own_concat_of_ne hg, Function.update_of_ne (Ne.symm hg), ih]

/-- A call leaves the values and flags of the fields that it does not set. -/
theorem foldl_bits_of_not_mem {f : AlarmField} {args : List (AlarmField × Int)}
    (h : ∀ arg ∈ args, arg.1 ≠ f) (c : BitVec 32) {k : BitVec 32}
    (hk : k = f.bits.mask ∨ k = f.bits.flag) :
    args.foldl (fun c arg => arg.1.bits.set c arg.2) c &&& k = c &&& k := by
  induction args generalizing c with
  | nil => rfl
  | cons arg args ih =>
    rw [List.foldl_cons, ih (fun arg' harg => h arg' (List.mem_cons_of_mem _ harg)),
      AlarmBits.set_and_other arg.1 c arg.2
        (AlarmBits.disjoint (h arg List.mem_cons_self).symm k hk)]

end AlarmCall

namespace TimerEx

/-- **The fields do not overlap.** After any run of setters and ticks, each getter gives the last
argument in range of its own setter, each field counts exactly when its setter's last argument was
in range, and a call leaves the other fields' values and flags. -/
theorem alarm_fields_apart (now : TimeData) (events : List TimerEvent) (f : AlarmField) :
    let t := TimerEvent.timer now events
    let own := f.own ((TimerEvent.calls events).flatMap AlarmCall.args)
    f.getAlarm t = (own.filter f.takes).getLast?.getD 0 ∧
      (f.bits.Enabled t.nClock ↔ ∃ n, own.getLast? = some n ∧ f.takes n = true) ∧
      ∀ call : AlarmCall, (∀ arg ∈ call.args, arg.1 ≠ f) →
        f.getAlarm (call.apply t) = f.getAlarm t ∧
          (f.bits.Enabled (call.apply t).nClock ↔ f.bits.Enabled t.nClock) := by
  intro t own
  have hkept := kept_timer now events
  refine ⟨?_, ?_, ?_⟩
  · rw [f.getAlarm_eq, hkept.spells.get_eq f, AlarmCall.remembered, AlarmCall.foldl_keep]
  · have hsome := AlarmCall.foldl_set_isSome f ((TimerEvent.calls events).flatMap AlarmCall.args)
    rw [← AlarmCall.alarm_eq] at hsome
    have hon : f.bits.Enabled t.nClock ↔
        (AlarmCall.alarm (TimerEvent.calls events) f).isSome = true := by
      cases hf : AlarmCall.alarm (TimerEvent.calls events) f with
      | none => exact iff_of_false (hkept.configured.held.off f hf) Bool.false_ne_true
      | some n => exact iff_of_true (hkept.configured.held.on f n hf).1 rfl
    rw [hon, hsome]
    cases own.getLast? with
    | none => exact iff_of_false Bool.false_ne_true (by rintro ⟨n, hn, -⟩; cases hn)
    | some n =>
      refine ⟨fun h => ⟨n, rfl, h⟩, ?_⟩
      rintro ⟨m, hm, h⟩
      cases hm
      exact h
  · intro call hother
    have hmask := AlarmCall.foldl_bits_of_not_mem hother t.nClock (k := f.bits.mask) (.inl rfl)
    have hflag := AlarmCall.foldl_bits_of_not_mem hother t.nClock (k := f.bits.flag) (.inr rfl)
    rw [f.getAlarm_eq, f.getAlarm_eq, AlarmCall.apply_eq, AlarmBits.get, AlarmBits.get, hmask,
      AlarmBits.Enabled, AlarmBits.Enabled, hflag]
    exact ⟨rfl, Iff.rfl⟩

/-- A weekday set behind a month leaves the month. -/
theorem alarm_fields_apart_june :
    AlarmField.month.getAlarm (TimerEvent.timer lastOfMay [.set (.alarmMonth 6)]) = 6 ∧
      AlarmField.month.getAlarm ((AlarmCall.alarmWeek 3).apply
        (TimerEvent.timer lastOfMay [.set (.alarmMonth 6)])) = 6 := by
  obtain ⟨hget, -, hother⟩ := alarm_fields_apart lastOfMay [.set (.alarmMonth 6)] .month
  have hweek := (hother (.alarmWeek 3) (by decide)).1
  exact ⟨hget, hweek.trans hget⟩

end TimerEx

end MmDriver

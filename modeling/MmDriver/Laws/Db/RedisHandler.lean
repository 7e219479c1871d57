import MmDriver.Db.RedisHandler

/-!
# When no context is used behind its `redisFree`

`ExecuteRedisCommand` frees the context where a command fails and goes on with it, so the object is
used right exactly in the runs where every command that reaches hiredis is answered.
-/

namespace MmDriver

/-- The context that a call is applied to. -/
def HiredisCall.context : HiredisCall → Option Nat
  | .redisConnect _ _ => none
  | .redisvCommand c _ _ => some c
  | .redisFree c => some c

namespace RedisHandler

variable {ρ : Type} {h : Hiredis ρ} {s s' : RedisHandler} {fuel fuel' : Nat}

/-! ## The calls of hiredis -/

/-- No call is applied to a context that an earlier one has freed. -/
def Valid : List HiredisCall → Prop
  | [] => True
  | call :: earlier => (∀ c, call.context = some c → .redisFree c ∉ earlier) ∧ Valid earlier

theorem Valid.of_append {later earlier : List HiredisCall} (hvalid : Valid (later ++ earlier)) :
    Valid earlier := by
  induction later with
  | nil => exact hvalid
  | cons call later ih => exact ih hvalid.2

/-- A context is freed at most once. -/
theorem Valid.count_le_one {calls : List HiredisCall} (hvalid : Valid calls) (c : Nat) :
    calls.count (.redisFree c) ≤ 1 := by
  induction calls with
  | nil => exact Nat.zero_le 1
  | cons call earlier ih =>
    by_cases hcall : call = .redisFree c
    · have hnone : .redisFree c ∉ earlier := hvalid.1 c (by rw [hcall]; rfl)
      have hone : (call :: earlier).count (.redisFree c) = 1 := by
        rw [hcall, List.count_cons_self, List.count_eq_zero.mpr hnone]
      exact Nat.le_of_eq hone
    · rw [List.count_cons_of_ne hcall]
      exact ih hvalid.2

/-! ## What a call adds -/

theorem openContext_calls (s : RedisHandler) (ip : String) (port : Nat) :
    (openContext h s ip port).2.calls = .redisConnect ip port :: s.calls := by
  rw [openContext]
  dsimp only
  split
  · split
    · rfl
    · rfl
  · rfl

/-- The calls of hiredis so far stand behind the new ones. -/
def Extends (s s' : RedisHandler) : Prop := ∃ later, s'.calls = later ++ s.calls

theorem Extends.refl (s : RedisHandler) : Extends s s := ⟨[], rfl⟩

theorem Extends.trans {t : RedisHandler} (h₁ : Extends s s') (h₂ : Extends s' t) :
    Extends s t := by
  obtain ⟨later₁, h₁⟩ := h₁
  obtain ⟨later₂, h₂⟩ := h₂
  exact ⟨later₂ ++ later₁, by rw [h₂, h₁, List.append_assoc]⟩

theorem Extends.valid (hext : Extends s s') (hvalid : Valid s'.calls) : Valid s.calls := by
  obtain ⟨later, hlater⟩ := hext
  rw [hlater] at hvalid
  exact hvalid.of_append

theorem extends_openContext (s : RedisHandler) (ip : String) (port : Nat) :
    Extends s (openContext h s ip port).2 := ⟨[_], openContext_calls s ip port⟩

theorem extends_close (s : RedisHandler) : Extends s s.close := by
  rw [close]
  split
  · exact ⟨[_], rfl⟩
  · exact .refl s

section Loop

variable {c : Nat} {format : String} {args : List RedisArg} {reply : ρ}

/-- The object where a command has been asked. -/
def asked (s : RedisHandler) (c : Nat) (format : String) (args : List RedisArg) : RedisHandler :=
  { s with commanded := s.commanded + 1, calls := .redisvCommand c format args :: s.calls }

/-- The object where a context has been freed in the loop. -/
def freed (s : RedisHandler) (c : Nat) : RedisHandler :=
  { s with calls := .redisFree c :: s.calls }

theorem commandLoop_answered (hreply : h.replies s.commanded = some reply) :
    commandLoop h c format args (fuel + 1) s = some (s.asked c format args, reply) := by
  rw [commandLoop, hreply]
  rfl

theorem commandLoop_unanswered (hreply : h.replies s.commanded = none) :
    commandLoop h c format args (fuel + 1) s =
      commandLoop h c format args fuel ((s.asked c format args).freed c) := by
  rw [commandLoop, hreply]
  rfl

theorem commandLoop_mono {r : RedisHandler × ρ} (hle : fuel ≤ fuel')
    (hloop : commandLoop h c format args fuel s = some r) :
    commandLoop h c format args fuel' s = some r := by
  induction fuel generalizing s fuel' with
  | zero => cases hloop
  | succ fuel ih =>
    obtain ⟨fuel', rfl⟩ : ∃ k, fuel' = k + 1 := ⟨fuel' - 1, by omega⟩
    cases hreply : h.replies s.commanded with
    | some reply =>
      rw [commandLoop_answered hreply] at hloop ⊢
      exact hloop
    | none =>
      rw [commandLoop_unanswered hreply] at hloop ⊢
      exact ih (Nat.le_of_succ_le_succ hle) hloop

/-- A loop that returns has asked its command of the object it began with. -/
theorem extends_commandLoop {r : RedisHandler × ρ}
    (hloop : commandLoop h c format args fuel s = some r) :
    Extends (s.asked c format args) r.1 := by
  induction fuel generalizing s with
  | zero => cases hloop
  | succ fuel ih =>
    cases hreply : h.replies s.commanded with
    | some reply =>
      rw [commandLoop_answered hreply] at hloop
      rw [← Option.some.inj hloop]
      exact .refl _
    | none =>
      rw [commandLoop_unanswered hreply] at hloop
      have hagain : Extends (s.asked c format args)
          (((s.asked c format args).freed c).asked c format args) := ⟨[_, _], rfl⟩
      exact hagain.trans (ih hloop)

/-- A loop whose first command is not answered has used a context behind its `redisFree`, if it
returns at all. -/
theorem not_valid_of_unanswered {r : RedisHandler × ρ} (hreply : h.replies s.commanded = none)
    (hloop : commandLoop h c format args fuel s = some r) : ¬Valid r.1.calls := by
  intro hvalid
  cases fuel with
  | zero => cases hloop
  | succ fuel =>
    rw [commandLoop_unanswered hreply] at hloop
    exact ((extends_commandLoop hloop).valid hvalid).1 c rfl (.head _)

end Loop

/-! ## The commands -/

/-- The format of a command. -/
def RedisCommand.format : RedisCommand → String
  | .executeCommand command => command
  | .hset _ _ _ _ => "HSET %s %s %b"
  | .hget _ _ => "HGET %s %s"

/-- What stands behind the format. -/
def RedisCommand.args : RedisCommand → List RedisArg
  | .executeCommand _ => []
  | .hset key field value valueSize => [.text key, .text field, .text value, .size valueSize]
  | .hget key field => [.text key, .text field]

theorem execute_eq (fuel : Nat) (s : RedisHandler) (command : RedisCommand) :
    s.execute h fuel command = s.executeRedisCommand h fuel command.format command.args := by
  cases command with
  | executeCommand command => rfl
  | hset key field value valueSize => rfl
  | hget key field => rfl

/-- A command to an object without a context returns null. -/
theorem execute_closed {command : RedisCommand} (hcontext : s.redisContext = none) :
    s.execute h fuel command = some (s, none) := by
  rw [execute_eq, executeRedisCommand, hcontext]

theorem execute_open {command : RedisCommand} {c : Nat} (hcontext : s.redisContext = some c) :
    s.execute h fuel command =
      (commandLoop h c command.format command.args fuel s).map fun r => (r.1, some r.2) := by
  rw [execute_eq, executeRedisCommand, hcontext]

theorem execute_mono {command : RedisCommand} {r : RedisHandler × Option ρ} (hle : fuel ≤ fuel')
    (hexec : s.execute h fuel command = some r) : s.execute h fuel' command = some r := by
  cases hcontext : s.redisContext with
  | none =>
    rw [execute_closed hcontext] at hexec ⊢
    exact hexec
  | some c =>
    rw [execute_open hcontext] at hexec ⊢
    obtain ⟨a, hloop, ha⟩ := Option.map_eq_some_iff.mp hexec
    rw [commandLoop_mono hle hloop]
    exact congrArg some ha

theorem extends_execute {command : RedisCommand} {r : RedisHandler × Option ρ}
    (hexec : s.execute h fuel command = some r) : Extends s r.1 := by
  cases hcontext : s.redisContext with
  | none =>
    rw [execute_closed hcontext] at hexec
    rw [← Option.some.inj hexec]
    exact .refl s
  | some c =>
    rw [execute_open hcontext] at hexec
    obtain ⟨a, hloop, ha⟩ := Option.map_eq_some_iff.mp hexec
    have hasked : Extends s (s.asked c command.format command.args) := ⟨[_], rfl⟩
    have hloops : Extends (s.asked c command.format command.args) a.1 := extends_commandLoop hloop
    rw [← ha]
    exact hasked.trans hloops

/-! ## The calls on the object -/

theorem tickConnect_eq (fuel : Nat) (s : RedisHandler) :
    s.tickConnect h fuel = (s.execute h fuel (.executeCommand "TIME")).map fun r =>
      match r.2 with
      | some _ => r.1
      | none => (openContext h r.1.close "192.168.137.129" 6379).2 := rfl

theorem step_mono {call : RedisCall} (hle : fuel ≤ fuel') (hstep : s.step h fuel call = some s') :
    s.step h fuel' call = some s' := by
  cases call with
  | openContext ip port => exact hstep
  | close => exact hstep
  | command command =>
    obtain ⟨r, hexec, hr⟩ := Option.map_eq_some_iff.mp hstep
    rw [step, execute_mono hle hexec, Option.map_some, hr]
  | tickConnect =>
    rw [step, tickConnect_eq] at hstep
    obtain ⟨r, hexec, hr⟩ := Option.map_eq_some_iff.mp hstep
    rw [step, tickConnect_eq, execute_mono hle hexec, Option.map_some, hr]

theorem extends_step {call : RedisCall} (hstep : s.step h fuel call = some s') :
    Extends s s' := by
  cases call with
  | openContext ip port =>
    rw [← Option.some.inj hstep]
    exact extends_openContext s ip port
  | close =>
    rw [← Option.some.inj hstep]
    exact extends_close s
  | command command =>
    obtain ⟨r, hexec, hr⟩ := Option.map_eq_some_iff.mp hstep
    rw [← hr]
    exact extends_execute hexec
  | tickConnect =>
    rw [step, tickConnect_eq] at hstep
    obtain ⟨r, hexec, hr⟩ := Option.map_eq_some_iff.mp hstep
    have hfirst : Extends s r.1 := extends_execute hexec
    rw [← hr]
    split
    · exact hfirst
    · exact (hfirst.trans (extends_close r.1)).trans (extends_openContext _ _ _)

/-- A call that asks a command of hiredis where there is a context. -/
def RedisCall.Asks : RedisCall → Prop
  | .openContext _ _ | .close => False
  | .command _ | .tickConnect => True

/-- What the call asks of hiredis is answered. -/
def Answered (h : Hiredis ρ) (s : RedisHandler) (call : RedisCall) : Prop :=
  call.Asks → s.redisContext ≠ none → h.replies s.commanded ≠ none

/-- A call whose command is not answered has used a context behind its `redisFree`, if it returns at
all. -/
theorem answered_of_valid {call : RedisCall} (hstep : s.step h fuel call = some s')
    (hvalid : Valid s'.calls) : Answered h s call := by
  intro hasks hcontext hreply
  obtain ⟨c, hcontext⟩ := Option.ne_none_iff_exists'.mp hcontext
  have hexec : ∀ {command : RedisCommand} {r : RedisHandler × Option ρ},
      s.execute h fuel command = some r → ¬Valid r.1.calls := by
    intro command r hexec
    rw [execute_open hcontext] at hexec
    obtain ⟨a, hloop, ha⟩ := Option.map_eq_some_iff.mp hexec
    have hused : ¬Valid a.1.calls := not_valid_of_unanswered hreply hloop
    rw [← ha]
    exact hused
  cases call with
  | openContext ip port => exact hasks
  | close => exact hasks
  | command command =>
    obtain ⟨r, hrun, hr⟩ := Option.map_eq_some_iff.mp hstep
    rw [← hr] at hvalid
    exact hexec hrun hvalid
  | tickConnect =>
    rw [step, tickConnect_eq] at hstep
    obtain ⟨r, hrun, hr⟩ := Option.map_eq_some_iff.mp hstep
    have hlater : Extends r.1 s' := by
      rw [← hr]
      split
      · exact .refl _
      · exact (extends_close r.1).trans (extends_openContext _ _ _)
    exact hexec hrun (hlater.valid hvalid)

/-! ## What the calls keep -/

/-- No call was applied to a freed context, and the object's context is not freed. -/
structure Good (s : RedisHandler) : Prop where
  valid : Valid s.calls
  not_freed : ∀ c, s.redisContext = some c → .redisFree c ∉ s.calls
  context_lt : ∀ c, s.redisContext = some c → c < s.connected
  freed_lt : ∀ c, .redisFree c ∈ s.calls → c < s.connected

theorem good_new : Good new := by
  refine ⟨trivial, fun _ hc => ?_, fun _ hc => ?_, fun _ hc => absurd hc List.not_mem_nil⟩
  · cases hc
  · cases hc

theorem Good.close (hgood : Good s) : Good s.close := by
  cases hcontext : s.redisContext with
  | none =>
    rw [RedisHandler.close, hcontext]
    exact hgood
  | some c =>
    rw [RedisHandler.close, hcontext]
    refine ⟨⟨fun d hd => ?_, hgood.valid⟩, fun d hd => ?_, fun d hd => ?_, fun d hd => ?_⟩
    · rw [← Option.some.inj hd]
      exact hgood.not_freed c hcontext
    · cases hd
    · cases hd
    · rcases List.mem_cons.mp hd with hfree | hmem
      · rw [HiredisCall.redisFree.inj hfree]
        exact hgood.context_lt c hcontext
      · exact hgood.freed_lt d hmem

theorem close_connected (s : RedisHandler) : s.close.connected = s.connected := by
  rw [RedisHandler.close]
  split
  · rfl
  · rfl

/-- A `redisConnect` that gives a context without an error makes it the object's. -/
theorem openContext_of_zero (hconnect : h.connects s.connected = some 0) (ip : String)
    (port : Nat) :
    (openContext h s ip port).1 = true ∧
      (openContext h s ip port).2.redisContext = some s.connected := by
  rw [openContext, hconnect]
  exact ⟨rfl, rfl⟩

theorem Good.openContext (hgood : Good s) (ip : String) (port : Nat) :
    Good (openContext h s ip port).2 := by
  have hfreed : ∀ c, .redisFree c ∈ HiredisCall.redisConnect ip port :: s.calls →
      .redisFree c ∈ s.calls := by
    intro c hc
    rcases List.mem_cons.mp hc with hcall | hmem
    · cases hcall
    · exact hmem
  -- Whether or not the object takes the new context, the calls are the same.
  have hkept : ∀ context : Option Nat, (∀ c, context = some c → c = s.connected ∨
        s.redisContext = some c) →
      Good ⟨context, s.connected + 1, s.commanded, .redisConnect ip port :: s.calls⟩ := by
    intro context hcontext
    refine ⟨⟨fun d hd => ?_, hgood.valid⟩, fun c hc hmem => ?_, fun c hc => ?_, fun c hc => ?_⟩
    · cases hd
    · have hlt := hgood.freed_lt c (hfreed c hmem)
      rcases hcontext c hc with rfl | hold
      · exact Nat.lt_irrefl _ hlt
      · exact hgood.not_freed c hold (hfreed c hmem)
    · rcases hcontext c hc with rfl | hold
      · exact Nat.lt_succ_self _
      · exact Nat.lt_succ_of_lt (hgood.context_lt c hold)
    · exact Nat.lt_succ_of_lt (hgood.freed_lt c (hfreed c hc))
  rw [RedisHandler.openContext]
  dsimp only
  split
  · split
    · exact hkept (some s.connected) fun c hc => .inl (Option.some.inj hc).symm
    · exact hkept s.redisContext fun c hc => .inr hc
  · exact hkept s.redisContext fun c hc => .inr hc

theorem Good.asked (hgood : Good s) {c : Nat} (hcontext : s.redisContext = some c)
    (format : String) (args : List RedisArg) : Good (s.asked c format args) := by
  have hmem : ∀ d, .redisFree d ∈ HiredisCall.redisvCommand c format args :: s.calls →
      .redisFree d ∈ s.calls := by
    intro d hd
    rcases List.mem_cons.mp hd with hcall | hmem
    · cases hcall
    · exact hmem
  refine ⟨⟨fun d hd => ?_, hgood.valid⟩, fun d hd hfree => ?_, hgood.context_lt,
    fun d hd => hgood.freed_lt d (hmem d hd)⟩
  · rw [← Option.some.inj hd]
    exact hgood.not_freed c hcontext
  · exact hgood.not_freed d hd (hmem d hfree)

/-- An answered command returns at once: with a reply, or with null where there is no context. -/
theorem Good.execute (hgood : Good s) (command : RedisCommand)
    (hanswered : s.redisContext ≠ none → h.replies s.commanded ≠ none) :
    ∃ r, s.execute h 1 command = some r ∧ Good r.1 := by
  cases hcontext : s.redisContext with
  | none => exact ⟨(s, none), execute_closed hcontext, hgood⟩
  | some c =>
    rw [hcontext] at hanswered
    obtain ⟨reply, hreply⟩ := Option.ne_none_iff_exists'.mp (hanswered (Option.some_ne_none c))
    refine ⟨(s.asked c command.format command.args, some reply), ?_, hgood.asked hcontext _ _⟩
    rw [execute_open hcontext, commandLoop_answered hreply]
    rfl

theorem Good.step (hgood : Good s) {call : RedisCall} (hanswered : Answered h s call) :
    ∃ s', s.step h 1 call = some s' ∧ Good s' := by
  cases call with
  | openContext ip port => exact ⟨_, rfl, hgood.openContext ip port⟩
  | close => exact ⟨_, rfl, hgood.close⟩
  | command command =>
    obtain ⟨r, hexec, hr⟩ := hgood.execute command (hanswered trivial)
    exact ⟨r.1, by rw [RedisHandler.step, hexec, Option.map_some], hr⟩
  | tickConnect =>
    obtain ⟨r, hexec, hr⟩ := hgood.execute (.executeCommand "TIME") (hanswered trivial)
    refine ⟨_, by rw [RedisHandler.step, tickConnect_eq, hexec, Option.map_some], ?_⟩
    split
    · exact hr
    · exact hr.close.openContext _ _

/-! ## Runs -/

theorem run_cons_eq_some {call : RedisCall} {calls : List RedisCall}
    (hrun : s.run h fuel (call :: calls) = some s') :
    ∃ t, s.step h fuel call = some t ∧ t.run h fuel calls = some s' :=
  Option.bind_eq_some_iff.mp hrun

theorem run_append (s : RedisHandler) (before behind : List RedisCall) :
    s.run h fuel (before ++ behind) = (s.run h fuel before).bind fun t => t.run h fuel behind := by
  induction before generalizing s with
  | nil => rfl
  | cons call before ih =>
    rw [List.cons_append, run, run, Option.bind_assoc]
    exact Option.bind_congr fun t _ => ih t

theorem run_mono {calls : List RedisCall} (hle : fuel ≤ fuel')
    (hrun : s.run h fuel calls = some s') : s.run h fuel' calls = some s' := by
  induction calls generalizing s with
  | nil => exact hrun
  | cons call calls ih =>
    obtain ⟨t, hstep, hrest⟩ := run_cons_eq_some hrun
    rw [run, step_mono hle hstep, Option.bind_some, ih hrest]

/-- The fuel does not change what a run that returns leads to. -/
theorem run_unique {calls : List RedisCall} {t : RedisHandler}
    (hrun : s.run h fuel calls = some s') (hother : s.run h fuel' calls = some t) : s' = t := by
  have hmax := run_mono (Nat.le_max_left fuel fuel') hrun
  rw [run_mono (Nat.le_max_right fuel fuel') hother] at hmax
  exact (Option.some.inj hmax).symm

theorem extends_run {calls : List RedisCall} (hrun : s.run h fuel calls = some s') :
    Extends s s' := by
  induction calls generalizing s with
  | nil =>
    rw [← Option.some.inj hrun]
    exact .refl s
  | cons call calls ih =>
    obtain ⟨t, hstep, hrest⟩ := run_cons_eq_some hrun
    exact (extends_step hstep).trans (ih hrest)

/-- Every command of the run that reaches hiredis is answered. -/
def EveryAnswered (h : Hiredis ρ) (s : RedisHandler) (calls : List RedisCall) : Prop :=
  ∀ (before : List RedisCall) (call : RedisCall) (behind : List RedisCall) (fuel : Nat)
    (t : RedisHandler), calls = before ++ call :: behind → s.run h fuel before = some t →
    Answered h t call

theorem Good.run (hgood : Good s) {calls : List RedisCall} (hall : EveryAnswered h s calls) :
    ∃ s', s.run h 1 calls = some s' ∧ Good s' := by
  induction calls generalizing s with
  | nil => exact ⟨s, rfl, hgood⟩
  | cons call calls ih =>
    obtain ⟨t, hstep, ht⟩ := hgood.step (hall [] call calls 1 s rfl rfl)
    have hrest : EveryAnswered h t calls := by
      intro before call' behind fuel u hcalls hrun
      refine hall (call :: before) call' behind (max 1 fuel) u (by rw [hcalls]; rfl) ?_
      rw [RedisHandler.run, step_mono (Nat.le_max_left 1 fuel) hstep, Option.bind_some]
      exact run_mono (Nat.le_max_right 1 fuel) hrun
    obtain ⟨s', hrun, hs'⟩ := ih ht hrest
    exact ⟨s', by rw [RedisHandler.run, hstep, Option.bind_some, hrun], hs'⟩

theorem everyAnswered_of_valid {calls : List RedisCall} (hrun : s.run h fuel calls = some s')
    (hvalid : Valid s'.calls) : EveryAnswered h s calls := by
  intro before call behind fuel₁ t hcalls hbefore
  rw [hcalls, run_append] at hrun
  obtain ⟨t', hfirst, hrest⟩ := Option.bind_eq_some_iff.mp hrun
  obtain ⟨u, hstep, hbehind⟩ := run_cons_eq_some hrest
  rw [run_unique hbefore hfirst]
  exact answered_of_valid hstep ((extends_run hbehind).valid hvalid)

/-- The calls return, no call of hiredis is applied to a freed context, no context is freed twice,
and behind a command that returned null the object can be closed and opened again. -/
structure UsedRight (h : Hiredis ρ) (calls : List RedisCall) : Prop where
  returns : ∃ fuel s, new.run h fuel calls = some s ∧ Valid s.calls ∧
    ∀ c, s.calls.count (.redisFree c) ≤ 1
  reopens : ∀ (before : List RedisCall) (command : RedisCommand) (behind : List RedisCall)
    (fuel : Nat) (s s' : RedisHandler), calls = before ++ .command command :: behind →
    new.run h fuel before = some s → s.execute h fuel command = some (s', none) →
    ∀ (ip : String) (port : Nat), Valid (openContext h s'.close ip port).2.calls ∧
      (h.connects s'.connected = some 0 →
        (openContext h s'.close ip port).1 = true ∧
          (openContext h s'.close ip port).2.redisContext = some s'.connected ∧
          .redisFree s'.connected ∉ (openContext h s'.close ip port).2.calls)

/-- The object is used right exactly in the runs where every command that reaches hiredis is
answered. -/
theorem usedRight_iff (h : Hiredis ρ) (calls : List RedisCall) :
    UsedRight h calls ↔ EveryAnswered h new calls := by
  constructor
  · intro hright
    obtain ⟨fuel, s, hrun, hvalid, -⟩ := hright.returns
    exact everyAnswered_of_valid hrun hvalid
  · intro hall
    obtain ⟨s, hrun, hgood⟩ := good_new.run hall
    refine ⟨⟨1, s, hrun, hgood.valid, hgood.valid.count_le_one⟩, ?_⟩
    intro before command behind fuel t t' hcalls hbefore hexec ip port
    have hstart : EveryAnswered h new (before ++ [.command command]) := by
      intro before' call behind' fuel' u hsplit hrun'
      refine hall before' call (behind' ++ behind) fuel' u ?_ hrun'
      rw [hcalls, ← List.singleton_append, ← List.append_assoc, hsplit, List.append_assoc,
        List.cons_append]
    obtain ⟨u, hrun', hgood'⟩ := good_new.run hstart
    have hsame : new.run h fuel (before ++ [.command command]) = some t' := by
      rw [run_append, hbefore, Option.bind_some, run, step, hexec]
      rfl
    rw [← run_unique hsame hrun'] at hgood'
    have hopened := hgood'.close.openContext (h := h) ip port
    refine ⟨hopened.valid, fun hconnect => ?_⟩
    rw [← close_connected t'] at hconnect ⊢
    obtain ⟨hret, hcontext⟩ := openContext_of_zero hconnect ip port
    exact ⟨hret, hcontext, hopened.not_freed _ hcontext⟩

/-- The server accepts the connection and then answers nothing. -/
def silentServer : Hiredis Unit where
  connects _ := some 0
  replies _ := none

/-- The first command behind the connection is not answered. -/
theorem silent_server_used_wrong :
    ¬UsedRight silentServer [.openContext "192.168.137.129" 6379, .tickConnect] := by
  intro hright
  obtain ⟨fuel, s, hrun, hvalid, -⟩ := hright.returns
  exact everyAnswered_of_valid hrun hvalid [.openContext "192.168.137.129" 6379] .tickConnect []
    1 ⟨some 0, 1, 0, [.redisConnect "192.168.137.129" 6379]⟩ rfl rfl trivial
    (Option.some_ne_none 0) rfl

end RedisHandler

end MmDriver

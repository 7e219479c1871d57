import Mathlib.Data.List.Basic

/-!
# `Redis_Handler`, one connection to a Redis server

`include/db/redis_handler.h` and `src/db/redis_handler.cpp`, over the library hiredis, which is a
parameter: what its calls give is an oracle. A context is the number of the `redisConnect` that gave
it. The object's copies of the address are left out, as nothing reads them.
-/

namespace MmDriver

/-! ## hiredis -/

/-- What stands behind a format. -/
inductive RedisArg where
  | text (s : String)
  | size (n : Nat)
deriving DecidableEq, Repr

/-- The calls of hiredis that concern a context. -/
inductive HiredisCall where
  | redisConnect (ip : String) (port : Nat)
  | redisvCommand (c : Nat) (format : String) (args : List RedisArg)
  | redisFree (c : Nat)
deriving DecidableEq, Repr

/-- What the calls give, in the order they are made. -/
structure Hiredis (ρ : Type) where
  /-- Null, or a context with that `err`. -/
  connects : Nat → Option Int
  /-- Null, or a reply. -/
  replies : Nat → Option ρ

/-! ## The class -/

/-- `Redis_Handler`, with what has been asked of hiredis so far, the last call first. -/
structure RedisHandler where
  redisContext : Option Nat
  connected : Nat
  commanded : Nat
  calls : List HiredisCall
deriving DecidableEq, Repr

namespace RedisHandler

variable {ρ : Type}

/-- The constructor, before any call of hiredis. -/
def new : RedisHandler := ⟨none, 0, 0, []⟩

/-- `Open`: what it returns is whether it is `success`. -/
def openContext (h : Hiredis ρ) (s : RedisHandler) (ip : String) (port : Nat) :
    Bool × RedisHandler :=
  let c := s.connected
  let s := { s with connected := c + 1, calls := .redisConnect ip port :: s.calls }
  match h.connects c with
  | some err => if err = 0 then (true, { s with redisContext := some c }) else (false, s)
  | none => (false, s)

/-- `Close`. -/
def close (s : RedisHandler) : RedisHandler :=
  match s.redisContext with
  | some c => { s with redisContext := none, calls := .redisFree c :: s.calls }
  | none => s

/-- The loop of `ExecuteRedisCommand`, as long as the fuel lasts. The pointer to the context is left
when the context is freed, and the next turn uses it again. -/
def commandLoop (h : Hiredis ρ) (c : Nat) (format : String) (args : List RedisArg) :
    Nat → RedisHandler → Option (RedisHandler × ρ)
  | 0, _ => none
  | fuel + 1, s =>
    let reply := h.replies s.commanded
    let s := { s with
      commanded := s.commanded + 1
      calls := .redisvCommand c format args :: s.calls }
    match reply with
    | some reply => some (s, reply)
    | none => commandLoop h c format args fuel { s with calls := .redisFree c :: s.calls }

/-- `ExecuteRedisCommand`. -/
def executeRedisCommand (h : Hiredis ρ) (fuel : Nat) (s : RedisHandler) (format : String)
    (args : List RedisArg) : Option (RedisHandler × Option ρ) :=
  match s.redisContext with
  | none => some (s, none)
  | some c => (commandLoop h c format args fuel s).map fun r => (r.1, some r.2)

/-- `ExecuteCommand`. -/
def executeCommand (h : Hiredis ρ) (fuel : Nat) (s : RedisHandler) (command : String) :
    Option (RedisHandler × Option ρ) :=
  executeRedisCommand h fuel s command []

/-- `HSet`. -/
def hset (h : Hiredis ρ) (fuel : Nat) (s : RedisHandler) (key field value : String)
    (valueSize : Nat) : Option (RedisHandler × Option ρ) :=
  executeRedisCommand h fuel s "HSET %s %s %b" [.text key, .text field, .text value, .size valueSize]

/-- `HGet`. -/
def hget (h : Hiredis ρ) (fuel : Nat) (s : RedisHandler) (key field : String) :
    Option (RedisHandler × Option ρ) :=
  executeRedisCommand h fuel s "HGET %s %s" [.text key, .text field]

/-- `DBService::TickConnect`. -/
def tickConnect (h : Hiredis ρ) (fuel : Nat) (s : RedisHandler) : Option RedisHandler :=
  (executeCommand h fuel s "TIME").map fun r =>
    match r.2 with
    | some _ => r.1
    | none => (openContext h r.1.close "192.168.137.129" 6379).2

/-! ## Runs -/

/-- A command. -/
inductive RedisCommand where
  | executeCommand (command : String)
  | hset (key field value : String) (valueSize : Nat)
  | hget (key field : String)

/-- A call on the object. -/
inductive RedisCall where
  | openContext (ip : String) (port : Nat)
  | close
  | command (command : RedisCommand)
  | tickConnect

/-- The command, with what it returns. -/
def execute (h : Hiredis ρ) (fuel : Nat) (s : RedisHandler) :
    RedisCommand → Option (RedisHandler × Option ρ)
  | .executeCommand command => s.executeCommand h fuel command
  | .hset key field value valueSize => s.hset h fuel key field value valueSize
  | .hget key field => s.hget h fuel key field

/-- One call. There is no state behind it where it does not return. -/
def step (h : Hiredis ρ) (fuel : Nat) (s : RedisHandler) : RedisCall → Option RedisHandler
  | .openContext ip port => some (s.openContext h ip port).2
  | .close => some s.close
  | .command command => (s.execute h fuel command).map Prod.fst
  | .tickConnect => s.tickConnect h fuel

/-- The calls one after another. -/
def run (h : Hiredis ρ) (fuel : Nat) (s : RedisHandler) : List RedisCall → Option RedisHandler
  | [] => some s
  | call :: calls => (s.step h fuel call).bind fun s => run h fuel s calls

end RedisHandler

end MmDriver

import ResilienceKit.Health.Backend
import ResilienceKit.Throttle.LuaScript
import ResilienceKit.Throttle.Memory

/-!
# Throttle.RedisClient — `RedisAsyncThrottle`

`ThrottleCalls` is the code of the methods with all their awaits.  `client` runs them one after the other
against a server that can be reached: the commands answer what `SLIDING_WINDOW_LUA` answers, and an error of
the script is a `ResponseError`.
-/

namespace ResilienceKit

open Mealy (Timed)
open Throttle Redis SlidingWindow

inductive ThrottleFailMode
  | open
  | closed
  deriving DecidableEq, Repr

namespace RedisAsyncThrottle

/-- The tail of `check`: the decision that the reply of the script stands for. -/
def decision (now : ℚ) (rate : Rate) (r : Reply) : ThrottleDecision where
  allowed := r.allowed ≠ 0
  remaining := max 0 (rate.count - r.count)
  limit := rate.count
  resetAfter := r.ttl
  resetAt := pyInt now + r.ttl

/-- The arguments of the constructor that the methods use. -/
structure Config where
  probeInterval : ℚ := 30
  failMode : ThrottleFailMode := .open

end RedisAsyncThrottle

namespace ThrottleCalls

open Code RedisHealth
open RedisAsyncThrottle (Config decision)

/-- What the methods await: the script cache, the commands, the wall clock and the fallback. -/
inductive Await
  | sha
  | scriptLoad
  | evalsha (key : String) (rate : Rate)
  | delete (key : String)
  | now
  | fallbackCheck (key : String) (rate : Rate)
  | fallbackReset (key : String)

@[reducible] def Result : Await → Type
  | .sha => Bool
  | .scriptLoad => Unit
  | .evalsha _ _ => Reply
  | .delete _ => Unit
  | .now => ℚ
  | .fallbackCheck _ _ => ThrottleDecision
  | .fallbackReset _ => Unit

abbrev Py (α : Type) := RedisHealth.Py Result α

/-- `_eval`. -/
def eval (key : String) (rate : Rate) : Py Reply := do
  let cached : Bool ← await Await.sha
  if !cached then await Await.scriptLoad
  tryElse (await (Await.evalsha key rate))
    (fun exc =>
      if isinstance exc .noScriptError then do
        await Await.scriptLoad
        await (Await.evalsha key rate)
      else throw exc)
    (fun res => return res)

/-- `_degraded_decision`. -/
def degradedDecision (cfg : Config) (key : String) (rate : Rate) : Py ThrottleDecision :=
  match cfg.failMode with
  | .closed => do
    let now : ℚ ← await Await.now
    return {
      allowed := false
      remaining := 0
      limit := rate.count
      resetAfter := rate.perSeconds
      resetAt := pyInt now + pyInt rate.perSeconds }
  | .open => await (Await.fallbackCheck key rate)

def check (cfg : Config) (key : String) (rate : Rate) : Py ThrottleDecision :=
  guarded cfg.probeInterval (eval key rate) (degradedDecision cfg key rate) fun res => do
    let now : ℚ ← await Await.now
    return decision now rate res

def reset (key : String) : Py Unit := do
  degrading (await (Await.delete key)) (pure ()) (fun _ => pure ())
  await (Await.fallbackReset key)

end ThrottleCalls

namespace RedisAsyncThrottle

open Code RedisHealth
open ThrottleCalls (Await Result)

/-- The client and the keyspace. -/
structure World where
  flags : Flags := {}
  fallback : InMemoryAsyncThrottle := {}
  db : Db := fun _ => none

/-- The server's clock and the two clocks of the client. -/
structure Instant where
  server : ℕ
  now : ℚ
  monotonic : ℚ

/-- What the execution of a script answers to the client. -/
def responded {α : Type} : EStateM.Result Redis.Error Db α → Except PyExc α
  | .ok r _ => .ok r
  | .error _ _ => .error ⟨.responseError, 0⟩

/-- A server that can be reached answers. -/
def serve (keyPrefix : String) (t : Instant) (w : World) :
    (q : RedisHealth.Ask Await) → RedisHealth.Answer Result q × World
  | .healthy => (w.flags.healthy, w)
  | .degradedSince => (w.flags.degradedSince, w)
  | .markDegraded _ => ((), { w with flags := w.flags.markDegraded t.monotonic })
  | .recover => ((), { w with flags := w.flags.recover })
  | .probeDue interval =>
    let (due, flags) := w.flags.probeDue interval t.monotonic
    (due, { w with flags })
  | .ping => (.ok (), w)
  | .await .sha => (.ok true, w)
  | .await .scriptLoad => (.ok (), w)
  | .await (.evalsha key rate) =>
    let res := (eval keyPrefix t.server key rate).run w.db
    (responded res, { w with db := final res })
  | .await (.delete key) =>
    (.ok (), { w with db := final ((del (clock t.server) (fullKey keyPrefix key)).run w.db) })
  | .await .now => (.ok t.now, w)
  | .await (.fallbackCheck key rate) =>
    let (fallback, d) := w.fallback.check t.now key rate
    (.ok d, { w with fallback })
  | .await (.fallbackReset key) => (.ok (), { w with fallback := w.fallback.reset key })

/-- What the caller of an operation gets. -/
inductive Reported
  | decided (d : ThrottleDecision)
  | resetDone
  | raised (exc : PyExc)
  deriving DecidableEq

/-- One client, its operations one after the other. -/
def client (keyPrefix : String) (cfg : Config) : Mealy World (Timed Instant Op) Reported where
  init := {}
  step w e :=
    match e.ev with
    | .check key rate =>
      match play (serve keyPrefix e.time) w (ThrottleCalls.check cfg key rate) with
      | (w, .ok d) => (w, .decided d)
      | (w, .error exc) => (w, .raised exc)
    | .reset key =>
      match play (serve keyPrefix e.time) w (ThrottleCalls.reset key) with
      | (w, .ok _) => (w, .resetDone)
      | (w, .error exc) => (w, .raised exc)

end RedisAsyncThrottle

end ResilienceKit

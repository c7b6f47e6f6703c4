import Mathlib.Algebra.Order.Ring.Unbundled.Rat
import Mathlib.Data.Rat.Defs
import Mathlib.Tactic.SplitIfs
import ResilienceKit.Exceptions
import ResilienceKit.Lib.Program

/-!
# Health.Backend — what the Redis backends share

`RedisAsyncBreaker`, `RedisAsyncThrottle` and `RedisAsyncCache` each carry a copy of the same flags and of
the same four methods around them.  The methods are code that asks: the flags answer some of the questions
(`Flags.serve`), the awaits of a backend (`C`, with results `R`) are answered by its surroundings.
-/

namespace ResilienceKit

/-- The health report of a backend. -/
structure HealthSnapshot where
  healthy : Bool
  backend : String
  degradedSince : Option ℚ := none
  detail : Option String := none
  deriving DecidableEq

namespace RedisHealth

open Program Code

structure Flags where
  healthy : Bool := true
  degradedSince : Option ℚ := none
  logDegradedOnce : Bool := false
  lastProbeAt : ℚ := 0
  deriving DecidableEq

namespace Flags

/-- The locked part of `_mark_degraded`. -/
def markDegraded (now : ℚ) (s : Flags) : Flags :=
  let s := if s.healthy then { s with healthy := false, degradedSince := some now } else s
  if s.logDegradedOnce then s else { s with logDegradedOnce := true }

/-- The locked part of `try_recover`. -/
def recover (s : Flags) : Flags :=
  { s with healthy := true, degradedSince := none, logDegradedOnce := false }

/-- The time test of `_maybe_probe`. -/
def probeDue (interval now : ℚ) (s : Flags) : Bool × Flags :=
  if now - s.lastProbeAt < interval then (false, s) else (true, { s with lastProbeAt := now })

@[simp] theorem markDegraded_healthy (now : ℚ) (s : Flags) : (s.markDegraded now).healthy = false := by
  unfold markDegraded
  cases hh : s.healthy with
  | true =>
    simp only [if_true]
    split_ifs <;> rfl
  | false =>
    simp only [Bool.false_eq_true, if_false]
    split_ifs
    · exact hh
    · exact hh

@[simp] theorem markDegraded_logDegradedOnce (now : ℚ) (s : Flags) :
    (s.markDegraded now).logDegradedOnce = true := by
  obtain ⟨healthy, since, once, probe⟩ := s
  cases healthy <;> cases once <;> rfl

@[simp] theorem markDegraded_lastProbeAt (now : ℚ) (s : Flags) :
    (s.markDegraded now).lastProbeAt = s.lastProbeAt := by
  obtain ⟨healthy, since, once, probe⟩ := s
  cases healthy <;> cases once <;> rfl

@[simp] theorem probeDue_healthy (interval now : ℚ) (s : Flags) :
    (s.probeDue interval now).2.healthy = s.healthy := by
  unfold probeDue
  split_ifs <;> rfl

end Flags

/-- What the methods ask: the flags, a `PING`, and the awaits of the backend. -/
inductive Ask (C : Type)
  | healthy
  | degradedSince
  | markDegraded (exc : PyExc)
  | recover
  | probeDue (interval : ℚ)
  | ping
  | await (c : C)

variable {C : Type} {R : C → Type} {α β : Type}

@[reducible] def Answer (R : C → Type) : Ask C → Type
  | .healthy => Bool
  | .degradedSince => Option ℚ
  | .markDegraded _ => Unit
  | .recover => Unit
  | .probeDue _ => Bool
  | .ping => Except PyExc Unit
  | .await c => Except PyExc (R c)

abbrev Py (R : C → Type) (α : Type) := Code (Ask C) (Answer R) PyExc α

/-- The flags answer what is asked of them; the other answers are given. -/
def Flags.serve (now : ℚ) (s : Flags) : (q : Ask C) → Answer R q → Answer R q × Flags
  | .healthy, _ => (s.healthy, s)
  | .degradedSince, _ => (s.degradedSince, s)
  | .markDegraded _, _ => ((), s.markDegraded now)
  | .recover, _ => ((), s.recover)
  | .probeDue interval, _ => s.probeDue interval now
  | .ping, a => (a, s)
  | .await _, a => (a, s)

def ping : Py R Unit := do
  let r ← perform Ask.ping
  Code.ofExcept r

/-- `await` of a command or of a call of the fallback. -/
def await (c : C) : Py R (R c) := do
  let r ← perform (Ask.await c)
  Code.ofExcept r

/-- `_mark_degraded`. -/
def markDegraded (exc : PyExc) : Py R Unit := do
  let _ ← perform (Ask.markDegraded exc)

/-- `except RedisError as exc: self._mark_degraded(exc)`, and what follows. -/
def degrading (body : Py R β) (fallback : Py R α) (orElse : β → Py R α) : Py R α :=
  tryElse body
    (fun exc =>
      if isinstance exc .redisError then do
        markDegraded exc
        fallback
      else throw exc)
    orElse

/-- `health_check`. -/
def healthCheck (detail : String) : Py R HealthSnapshot := do
  let degraded : Py R HealthSnapshot := do
    let since ← perform Ask.degradedSince
    return { healthy := false, backend := "memory", degradedSince := since, detail := some detail }
  let healthy : Bool ← perform Ask.healthy
  if healthy then degrading ping degraded fun _ => return { healthy := true, backend := "redis" }
  else degraded

/-- `try_recover`. -/
def tryRecover : Py R Bool := do
  let healthy : Bool ← perform Ask.healthy
  if healthy then return false
  else
    tryElse ping
      (fun exc => if isinstance exc .redisError then return false else throw exc)
      (fun _ => do
        let _ ← perform Ask.recover
        return true)

/-- `_maybe_probe`. -/
def maybeProbe (interval : ℚ) : Py R Bool := do
  let due : Bool ← perform (Ask.probeDue interval)
  if due then tryRecover else return false

/-- `self._healthy or await self._maybe_probe()`. -/
def serving (interval : ℚ) : Py R Bool := do
  let healthy : Bool ← perform Ask.healthy
  if healthy then return true else maybeProbe interval

/-- The frame of an operation that falls back: `if not self._healthy and not await self._maybe_probe()`, else
the command under `except RedisError`. -/
def guarded (interval : ℚ) (command : Py R β) (fallback : Py R α) (orElse : β → Py R α) : Py R α := do
  let primary : Bool ← serving interval
  if primary then degrading command fallback orElse else fallback

/-! ### How the methods run against a machine -/

section Play

variable {σ : Type} {serve : σ → (q : Ask C) → Answer R q × σ} {s : σ}

theorem play_await (c : C) : play serve s (await c : Py R (R c)) =
    ((serve s (.await c)).2, (serve s (.await c)).1) := by
  rw [await, play_ask, play_ofExcept]

theorem play_degrading (body : Py R β) (fallback : Py R α) (orElse : β → Py R α) :
    play serve s (degrading body fallback orElse) =
      match play serve s body with
      | (s', .ok b) => play serve s' (orElse b)
      | (s', .error exc) =>
        if isinstance exc .redisError then play serve (serve s' (.markDegraded exc)).2 fallback
        else (s', .error exc) := by
  rw [degrading, play_tryElse]
  rcases play serve s body with ⟨s', exc | b⟩
  · simp only
    split_ifs
    · rfl
    · rfl
  · rfl

theorem play_ping : play serve s (ping : Py R Unit) = ((serve s .ping).2, (serve s .ping).1) := by
  rw [ping, play_ask, play_ofExcept]

/-- A degraded backend recovers when its `PING` is answered. -/
theorem play_tryRecover (h : serve s .healthy = (false, s)) : play serve s (tryRecover : Py R Bool) =
    match serve s .ping with
    | (.ok (), s') => ((serve s' .recover).2, .ok true)
    | (.error exc, s') => (s', if isinstance exc .redisError then .ok false else .error exc) := by
  rw [tryRecover, play_ask, h]
  show play serve s (tryElse _ _ _) = _
  rw [play_tryElse, play_ping]
  rcases serve s .ping with ⟨exc | u, s'⟩
  · simp only
    split_ifs
    · rfl
    · rfl
  · rfl

/-- A healthy backend goes to Redis at once. -/
theorem play_guarded_healthy (h : serve s .healthy = (true, s)) (interval : ℚ) (command : Py R β)
    (fallback : Py R α) (orElse : β → Py R α) :
    play serve s (guarded interval command fallback orElse) =
      play serve s (degrading command fallback orElse) := by
  have hserving : play serve s (serving interval : Py R Bool) = (s, .ok true) := by
    rw [serving, play_ask, h]
    rfl
  rw [guarded, play_bind, hserving]
  rfl

end Play

/-! ### What the methods ask -/

section Asks

variable {P : Ask C → Prop}

theorem asks_await {c : C} (h : P (.await c)) : Asks P (await c : Py R (R c)) :=
  .bind (.perform h) fun _ => .ofExcept _

theorem asks_ping (h : P .ping) : Asks P (ping : Py R Unit) := .bind (.perform h) fun _ => .ofExcept _

theorem asks_degrading (hm : ∀ exc, P (.markDegraded exc)) {body : Py R β} {fallback : Py R α}
    {orElse : β → Py R α} (hb : Asks P body) (hf : Asks P fallback) (ho : ∀ b, Asks P (orElse b)) :
    Asks P (degrading body fallback orElse) := by
  refine .tryElse hb (fun exc => ?_) ho
  split_ifs
  · exact .bind (.bind (.perform (hm exc)) fun _ => .pure _) fun _ => hf
  · exact .throw exc

/-- The questions about the flags. -/
def Flagged (q : Ask C) : Prop := ∀ c, q ≠ .await c

variable (h : ∀ q, Flagged q → (∀ i, q ≠ .probeDue i) → P q)
include h

theorem asks_tryRecover : Asks P (tryRecover : Py R Bool) := by
  refine .bind (.perform (h _ (by simp [Flagged]) (by simp))) fun healthy => ?_
  split_ifs
  · exact .pure _
  · refine .tryElse (asks_ping (h _ (by simp [Flagged]) (by simp))) (fun exc => ?_) fun _ =>
      .bind (.perform (h _ (by simp [Flagged]) (by simp))) fun _ => .pure _
    split_ifs
    · exact .pure _
    · exact .throw _

theorem asks_healthCheck (detail : String) : Asks P (healthCheck detail : Py R HealthSnapshot) := by
  have hdegraded : Asks P (do
      let since ← perform Ask.degradedSince
      return { healthy := false, backend := "memory", degradedSince := since, detail := some detail } :
        Py R HealthSnapshot) :=
    .bind (.perform (h _ (by simp [Flagged]) (by simp))) fun _ => .pure _
  refine .bind (.perform (h _ (by simp [Flagged]) (by simp))) fun healthy => ?_
  split_ifs
  · exact asks_degrading (fun _ => h _ (by simp [Flagged]) (by simp))
      (asks_ping (h _ (by simp [Flagged]) (by simp))) hdegraded fun _ => .pure _
  · exact hdegraded

theorem asks_serving {interval : ℚ} (hp : P (.probeDue interval)) : Asks P (serving interval : Py R Bool) := by
  refine .bind (.perform (h _ (by simp [Flagged]) (by simp))) fun healthy => ?_
  split_ifs
  · exact .pure _
  · refine .bind (.perform hp) fun due => ?_
    split_ifs
    · exact asks_tryRecover h
    · exact .pure _

theorem asks_guarded {interval : ℚ} {command : Py R β} {fallback : Py R α} {orElse : β → Py R α}
    (hp : P (.probeDue interval)) (hc : Asks P command) (hf : Asks P fallback) (ho : ∀ b, Asks P (orElse b)) :
    Asks P (guarded interval command fallback orElse) := by
  refine .bind (asks_serving h hp) fun primary => ?_
  split_ifs
  · exact asks_degrading (fun _ => h _ (by simp [Flagged]) (by simp)) hc hf ho
  · exact hf

end Asks

end RedisHealth

end ResilienceKit

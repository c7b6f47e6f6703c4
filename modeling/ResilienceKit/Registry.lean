import ResilienceKit.CircuitBreaker.Base
import ResilienceKit.Lib.Traverse
import ResilienceKit.Retry.Decorator

/-!
# Registry — the policies of the services

A service has the overrides of its last registration; each field that they leave out is that of the settings.
Overrides are Python objects (`Obj`), and `int()`, `float()` and the check of `retry_on` may raise when the
policy is read.
-/

namespace ResilienceKit

/-- What a caller puts into an override; `cls` is a class of exceptions. -/
inductive Obj
  | none
  | bool (v : Bool)
  | int (n : ℤ)
  | float (q : ℚ)
  | str (s : String)
  | list (items : List Obj)
  | tuple (items : List Obj)
  | cls (c : PyClass)
  | other (ident : ℕ)

/-- How Python reads numbers and prints objects. -/
structure Builtins where
  parseInt : String → Option ℤ
  parseFloat : String → Option ℚ
  repr : Obj → String

namespace Builtins

variable (b : Builtins)

/-- `int(x)` -/
def int : Obj → Except PyExc ℤ
  | .bool v => .ok (if v then 1 else 0)
  | .int n => .ok n
  | .float q => .ok (q.num.tdiv q.den)
  | .str s =>
    match b.parseInt s with
    | some n => .ok n
    | none => .error ⟨.valueError, 0⟩
  | _ => .error ⟨.typeError, 0⟩

/-- `float(x)` -/
def float : Obj → Except PyExc ℚ
  | .bool v => .ok (if v then 1 else 0)
  | .int n => if floatLimit ≤ |(n : ℚ)| then .error ⟨.overflowError, 0⟩ else .ok n
  | .float q => .ok q
  | .str s =>
    match b.parseFloat s with
    | some q => .ok q
    | none => .error ⟨.valueError, 0⟩
  | _ => .error ⟨.typeError, 0⟩

/-- `str(x)` -/
def str : Obj → String
  | .str s => s
  | x => b.repr x

end Builtins

/-! ### Settings -/

inductive Jitter
  | none | full | decorrelated
  deriving DecidableEq, Repr

def Jitter.text : Jitter → String
  | .none => "none"
  | .full => "full"
  | .decorrelated => "decorrelated"

structure RetryDefaults where
  maxAttempts : ℤ := 3
  waitMin : ℚ := 1
  waitMax : ℚ := 10
  exponentialBase : ℚ := 2
  jitter : Jitter := .decorrelated

structure BreakerDefaults where
  failMax : ℤ := 5
  resetTimeout : ℚ := 30
  successThreshold : ℤ := 2

structure Defaults where
  retry : RetryDefaults := {}
  circuitBreaker : BreakerDefaults := {}

/-! ### The registry -/

/-- A dict of overrides. -/
abbrev Dict := String → Option Obj

structure ServiceConfig where
  name : String
  retry : Retry.RetryPolicy
  circuitBreaker : BreakerConfig

structure ServiceOverrides where
  retry : Dict := fun _ => none
  circuitBreaker : Dict := fun _ => none

/-- An entry of `retry_on`. -/
def exceptionClass : Obj → Except PyExc PyClass
  | .cls c => .ok c
  | _ => .error ⟨.typeError, 0⟩

/-- `_normalise_retry_on` -/
def normaliseRetryOn : Obj → Except PyExc (List PyClass)
  | .none => .ok [.transientError]
  | .list items => items.mapM exceptionClass
  | .tuple items => items.mapM exceptionClass
  | _ => .error ⟨.typeError, 0⟩

/-- `tuple(x)`, where that is a tuple of exception classes.  The source takes every other iterable too, and it is the
breaker's `isinstance` that raises a `TypeError` then; here the error is at once. -/
def tupleOf : Obj → Except PyExc (List PyClass)
  | .list items => items.mapM exceptionClass
  | .tuple items => items.mapM exceptionClass
  | _ => .error ⟨.typeError, 0⟩

/-- `B` are the breakers. -/
structure ResilienceRegistry (B : Type) where
  overrides : String → Option ServiceOverrides := fun _ => none
  breakers : String → Option B := fun _ => none

namespace ResilienceRegistry

variable {B : Type} (r : ResilienceRegistry B) (b : Builtins) (defaults : Defaults)

/-- `overrides` has the optional sub-dicts `retry` and `circuit_breaker`. -/
def registerService (name : String) (overrides : String → Option Dict) : ResilienceRegistry B where
  overrides := Function.update r.overrides name (some
    { retry := (overrides "retry").getD fun _ => none
      circuitBreaker := (overrides "circuit_breaker").getD fun _ => none })
  breakers := Function.update r.breakers name none

/-- The retry part of `get_config`. -/
def retryPolicy (given : Dict) : Except PyExc Retry.RetryPolicy := do
  let maxAttempts ← b.int ((given "max_attempts").getD (.int defaults.retry.maxAttempts))
  let waitMin ← b.float ((given "wait_min").getD (.float defaults.retry.waitMin))
  let waitMax ← b.float ((given "wait_max").getD (.float defaults.retry.waitMax))
  let exponentialBase ← b.float ((given "exponential_base").getD (.float defaults.retry.exponentialBase))
  let jitter := b.str ((given "jitter").getD (.str defaults.retry.jitter.text))
  let retryOn ← normaliseRetryOn ((given "retry_on").getD .none)
  return { maxAttempts, waitMin, waitMax, exponentialBase, jitter, retryOn }

/-- The breaker part of `get_config`. -/
def breakerConfig (given : Dict) : Except PyExc BreakerConfig := do
  let failMax ← b.int ((given "fail_max").getD (.int defaults.circuitBreaker.failMax))
  let resetTimeout ← b.float ((given "reset_timeout").getD (.float defaults.circuitBreaker.resetTimeout))
  let successThreshold ←
    b.int ((given "success_threshold").getD (.int defaults.circuitBreaker.successThreshold))
  let excludedExceptions ← tupleOf
    ((given "excluded_exceptions").getD (.tuple (DEFAULT_EXCLUDED_EXCEPTIONS.map .cls)))
  return { failMax, resetTimeout, successThreshold, excludedExceptions }

def getConfig (name : String) : Except PyExc ServiceConfig := do
  let given := (r.overrides name).getD {}
  let retry ← retryPolicy b defaults given.retry
  let circuitBreaker ← breakerConfig b defaults given.circuitBreaker
  return { name, retry, circuitBreaker }

/-- `retry_on_failure(service)(func)`: the policy is read when the wrapper is called. -/
def retryOnFailure {V : Type} (service : String) (funcName : Option String) (mode : Retry.Mode)
    (func : Py (Option V) (Option V)) : Py (Option V) (Option V) :=
  match r.getConfig b defaults service with
  | .error exc => throw exc
  | .ok cfg => Retry.retryOnFailure cfg.retry funcName mode func

/-! ### What is read -/

variable {r b defaults} {name : String} {given : Dict} {cfg : ServiceConfig}

theorem registerService_overrides (overrides : String → Option Dict) :
    (r.registerService name overrides).overrides name = some
      { retry := (overrides "retry").getD fun _ => none
        circuitBreaker := (overrides "circuit_breaker").getD fun _ => none } :=
  Function.update_self ..

open Traverse (bind_eq_ok)

theorem retryPolicy_ok {policy : Retry.RetryPolicy} (h : retryPolicy b defaults given = .ok policy) :
    b.int ((given "max_attempts").getD (.int defaults.retry.maxAttempts)) = .ok policy.maxAttempts ∧
      normaliseRetryOn ((given "retry_on").getD .none) = .ok policy.retryOn := by
  obtain ⟨maxAttempts, hmax, h⟩ := bind_eq_ok h
  obtain ⟨waitMin, -, h⟩ := bind_eq_ok h
  obtain ⟨waitMax, -, h⟩ := bind_eq_ok h
  obtain ⟨exponentialBase, -, h⟩ := bind_eq_ok h
  obtain ⟨retryOn, hon, h⟩ := bind_eq_ok h
  obtain rfl := Except.ok.inj h
  exact ⟨hmax, hon⟩

theorem getConfig_retry (h : r.getConfig b defaults name = .ok cfg) :
    retryPolicy b defaults ((r.overrides name).getD {}).retry = .ok cfg.retry := by
  obtain ⟨retry, hretry, h⟩ := bind_eq_ok h
  obtain ⟨circuitBreaker, -, h⟩ := bind_eq_ok h
  obtain rfl := Except.ok.inj h
  exact hretry

theorem mapM_exceptionClass (cs : List PyClass) : (cs.map Obj.cls).mapM exceptionClass = .ok cs := by
  induction cs with
  | nil => rfl
  | cons c cs ih =>
    rw [List.map_cons, List.mapM_cons, ih]
    rfl

end ResilienceRegistry

/-! ### Plain overrides -/

/-- No strings are read, and no objects printed. -/
def silentBuiltins : Builtins where
  parseInt _ := none
  parseFloat _ := none
  repr _ := ""

/-- Overrides of one retry field. -/
def retryOverride (field : String) (value : Obj) : String → Option Dict := fun part =>
  if part = "retry" then some fun f => if f = field then some value else none else none

end ResilienceKit

import ResilienceKit.CircuitBreaker.Memory
import ResilienceKit.Retry.Decorator

/-!
# Decorators.Base — `circuit_breaker` and `resilient`

`call` of a breaker as code: the admission step, the function, one recorder.  `serve` lets the in-memory
breaker answer what that code asks of it.
-/

namespace ResilienceKit

open Program Code Py
open Retry (RetryPolicy Mode retryOnFailure)

variable {V : Type}

/-- `breaker.call(func)`, the breaker being asked for its three atomic steps. -/
def breakerCall (cfg : BreakerConfig) (func : Py V V) : Py V V := do
  let admitted : Bool ← perform Ask.admission
  if admitted then
    tryElse func
      (fun exc => do
        if isinstance exc .cancelledError then throw exc
        else if catches cfg.excludedExceptions exc then throw exc
        else
          let _ ← perform Ask.recordFailure
          throw exc)
      (fun result => do
        let _ ← perform Ask.recordSuccess
        return result)
  else throw ⟨.serviceUnavailableError, 0⟩

/-- `circuit_breaker(service)(func)`. -/
def circuitBreaker (cfg : BreakerConfig) (func : Py V V) : Py V V := breakerCall cfg func

/-- `resilient(service)(func)`: the breaker outside, the retry loop inside. -/
def resilient (cfg : BreakerConfig) (policy : RetryPolicy) (funcName : Option String) (mode : Mode)
    (func : Py (Option V) (Option V)) : Py (Option V) (Option V) :=
  circuitBreaker cfg (retryOnFailure policy funcName mode func)

namespace InMemoryAsyncBreaker

/-- The answer of the breaker to what is asked of it at the time `now`; `a` answers anything else. -/
def serve (cfg : BreakerConfig) (now : ℚ) (s : InMemoryAsyncBreaker) :
    (q : Ask) → Answer V q → Answer V q × InMemoryAsyncBreaker
  | .admission, _ => ((admission cfg now s).2.admitted, (admission cfg now s).1)
  | .recordSuccess, _ => ((), recordSuccess cfg s)
  | .recordFailure, _ => ((), recordFailure cfg now s)
  | .invoke, a => (a, s)
  | .onError _ _, a => (a, s)
  | .incr _ _, a => (a, s)
  | .random, a => (a, s)
  | .sleep _, a => (a, s)

/-- What is asked of the breaker. -/
@[simp] def serves : Ask → Bool
  | .admission => true
  | .recordSuccess => true
  | .recordFailure => true
  | _ => false

theorem serve_other {cfg : BreakerConfig} {now : ℚ} {s : InMemoryAsyncBreaker} {q : Ask}
    (hq : serves q = false) (a : Answer V q) : serve cfg now s q a = (a, s) := by
  cases q <;> first | rfl | cases hq

end InMemoryAsyncBreaker

end ResilienceKit

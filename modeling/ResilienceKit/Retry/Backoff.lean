import ResilienceKit.Runtime

/-!
# Retry.Backoff — how long to wait before the next attempt
-/

namespace ResilienceKit.Retry

def exponentialBackoff (attempt : ℕ) (baseDelay exponentialBase maxDelay : PyNum) : Except PyExc PyNum := do
  let p ← exponentialBase.pow attempt
  let delay ← baseDelay.mul p
  return maxDelay.min delay

variable {V : Type}

def decorrelatedJitter (previousDelay baseDelay maxDelay : PyNum) : Py V PyNum := do
  let tripled ← Py.fromExcept (previousDelay.mul (.float 3))
  let upper := baseDelay.max tripled
  let drawn ← Py.uniform baseDelay upper
  return maxDelay.min drawn

end ResilienceKit.Retry

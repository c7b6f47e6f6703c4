import Mathlib.Tactic.SplitIfs
import ResilienceKit.CircuitBreaker.Base

/-!
# CircuitBreaker.Memory — the in-process breaker

The four fields of `InMemoryAsyncBreaker` and the lock sections that write them.  No lock section
awaits anything, so each one is atomic, and so is the half-open check of `call` or `state` with the
read that follows it.
-/

namespace ResilienceKit

structure InMemoryAsyncBreaker where
  state : BreakerState := .CLOSED
  failureCount : ℕ := 0
  successCount : ℕ := 0
  openedAt : Option ℚ := none
  deriving DecidableEq, Repr

namespace InMemoryAsyncBreaker

variable (cfg : BreakerConfig)

def openLocked (now : ℚ) (s : InMemoryAsyncBreaker) : InMemoryAsyncBreaker :=
  { s with state := .OPEN, openedAt := some now, successCount := 0, failureCount := 0 }

def maybeHalfOpen (now : ℚ) (s : InMemoryAsyncBreaker) : InMemoryAsyncBreaker :=
  if s.state ≠ .OPEN then s
  else
    match s.openedAt with
    | none => s
    | some openedAt =>
      if now - openedAt ≥ cfg.resetTimeout then { s with state := .HALF_OPEN, successCount := 0 }
      else s

def recordFailure (now : ℚ) (s : InMemoryAsyncBreaker) : InMemoryAsyncBreaker :=
  if s.state = .HALF_OPEN then s.openLocked now
  else
    let s := { s with failureCount := s.failureCount + 1 }
    if (s.failureCount : ℤ) ≥ cfg.failMax then s.openLocked now else s

def recordSuccess (s : InMemoryAsyncBreaker) : InMemoryAsyncBreaker :=
  if s.state = .HALF_OPEN then
    let s := { s with successCount := s.successCount + 1 }
    if (s.successCount : ℤ) ≥ cfg.successThreshold then
      { s with state := .CLOSED, failureCount := 0, successCount := 0, openedAt := none }
    else s
  else { s with failureCount := 0 }

def reset (s : InMemoryAsyncBreaker) : InMemoryAsyncBreaker :=
  { s with state := .CLOSED, failureCount := 0, successCount := 0, openedAt := none }

/-- The admission step of `call`: the half-open check, then the test for OPEN. -/
def admission (now : ℚ) (s : InMemoryAsyncBreaker) : InMemoryAsyncBreaker × Admission :=
  let s := maybeHalfOpen cfg now s
  (s, ⟨s.state ≠ .OPEN, s.state⟩)

/-- `state()`. -/
def reportState (now : ℚ) (s : InMemoryAsyncBreaker) : InMemoryAsyncBreaker × BreakerState :=
  let s := maybeHalfOpen cfg now s
  (s, s.state)

def breaker : AsyncBreaker InMemoryAsyncBreaker where
  admission := admission cfg
  recordSuccess _ := recordSuccess cfg
  recordFailure := recordFailure cfg
  state := reportState cfg
  reset _ := reset

/-- A CLOSED breaker shared by any number of overlapping calls. -/
def system (V : Type) :
    Mealy (AsyncBreaker.Sys InMemoryAsyncBreaker) (Mealy.Timed ℚ (AsyncBreaker.Ev V))
      (AsyncBreaker.Out V) :=
  (breaker cfg).overlapped cfg {}

/-! ### What each lock section does -/

variable {cfg}

/-- The half-open check leaves the breaker alone, or takes a timed-out OPEN to HALF_OPEN. -/
theorem maybeHalfOpen_cases (cfg : BreakerConfig) (now : ℚ) (s : InMemoryAsyncBreaker) :
    maybeHalfOpen cfg now s = s ∨
      ∃ o, s.state = .OPEN ∧ s.openedAt = some o ∧ cfg.resetTimeout ≤ now - o ∧
        maybeHalfOpen cfg now s = { s with state := .HALF_OPEN, successCount := 0 } := by
  unfold maybeHalfOpen
  split_ifs with h
  · exact .inl rfl
  · cases ho : s.openedAt with
    | none => exact .inl rfl
    | some o =>
      by_cases ht : now - o ≥ cfg.resetTimeout
      · refine .inr ⟨o, not_not.mp h, rfl, ht, ?_⟩
        simp only [ht, if_true]
      · exact .inl (by simp only [ht, if_false])

theorem recordFailure_halfOpen {now : ℚ} {s : InMemoryAsyncBreaker} (h : s.state = .HALF_OPEN) :
    recordFailure cfg now s = s.openLocked now := by
  simp [recordFailure, h]

theorem recordFailure_opens {now : ℚ} {s : InMemoryAsyncBreaker} (h : s.state ≠ .HALF_OPEN)
    (hf : cfg.failMax ≤ s.failureCount + 1) : recordFailure cfg now s = s.openLocked now := by
  have : (s.failureCount + 1 : ℤ) ≥ cfg.failMax := hf
  simp [recordFailure, h, this, openLocked]

theorem recordFailure_counts {now : ℚ} {s : InMemoryAsyncBreaker} (h : s.state ≠ .HALF_OPEN)
    (hf : (s.failureCount + 1 : ℤ) < cfg.failMax) :
    recordFailure cfg now s = { s with failureCount := s.failureCount + 1 } := by
  have : ¬ (s.failureCount + 1 : ℤ) ≥ cfg.failMax := not_le.mpr hf
  simp [recordFailure, h, this]

theorem recordSuccess_other {s : InMemoryAsyncBreaker} (h : s.state ≠ .HALF_OPEN) :
    recordSuccess cfg s = { s with failureCount := 0 } := by
  simp [recordSuccess, h]

theorem recordSuccess_closes {s : InMemoryAsyncBreaker} (h : s.state = .HALF_OPEN)
    (hs : cfg.successThreshold ≤ s.successCount + 1) : recordSuccess cfg s = {} := by
  have : (s.successCount + 1 : ℤ) ≥ cfg.successThreshold := hs
  simp [recordSuccess, h, this]

theorem recordSuccess_counts {s : InMemoryAsyncBreaker} (h : s.state = .HALF_OPEN)
    (hs : (s.successCount + 1 : ℤ) < cfg.successThreshold) :
    recordSuccess cfg s = { s with successCount := s.successCount + 1 } := by
  have : ¬ (s.successCount + 1 : ℤ) ≥ cfg.successThreshold := not_le.mpr hs
  simp [recordSuccess, h, this]

@[simp] theorem reset_eq (s : InMemoryAsyncBreaker) : reset s = {} := rfl

end InMemoryAsyncBreaker

end ResilienceKit

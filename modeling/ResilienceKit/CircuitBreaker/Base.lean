import Mathlib.Data.Rat.Defs
import Mathlib.Algebra.Order.Ring.Unbundled.Rat
import ResilienceKit.Exceptions
import ResilienceKit.Lib.Mealy

/-!
# CircuitBreaker.Base — states, configuration and the protocol

`AsyncBreaker S` lists the atomic steps a backend with state `S` offers to `call`, `state` and
`reset`.  A `call` is an admission step, the caller's function, and one completion step
(`complete`).  Two systems drive a backend: `overlapped`, where any number of calls are in flight and
their steps interleave freely, and `sequential`, where one operation ends before the next starts.
-/

namespace ResilienceKit

open Mealy (Timed)

inductive BreakerState
  | CLOSED | OPEN | HALF_OPEN
  deriving DecidableEq, Repr

def DEFAULT_EXCLUDED_EXCEPTIONS : List PyClass :=
  [.valueError, .typeError, .keyError, .attributeError, .assertionError]

structure BreakerConfig where
  failMax : ℤ := 5
  resetTimeout : ℚ := 30
  successThreshold : ℤ := 2
  excludedExceptions : List PyClass := DEFAULT_EXCLUDED_EXCEPTIONS

/-- What a completed call means to the breaker. -/
inductive Verdict
  | success | failure | uncounted
  deriving DecidableEq, Repr

/-- The `try … except … else` of `call`: cancellation and excluded classes are never counted. -/
def BreakerConfig.verdict {V : Type} (cfg : BreakerConfig) : Outcome V → Verdict
  | .returned _ => .success
  | .raised e =>
    if isinstance e .cancelledError then .uncounted
    else if catches cfg.excludedExceptions e then .uncounted
    else .failure

/-- The admission step of `call`: its decision and the state it acted on. -/
structure Admission where
  admitted : Bool
  seen : BreakerState
  deriving DecidableEq, Repr

/-- The atomic steps of a backend; every step is told the clock reading. -/
structure AsyncBreaker (S : Type) where
  admission : ℚ → S → S × Admission
  recordSuccess : ℚ → S → S
  recordFailure : ℚ → S → S
  state : ℚ → S → S × BreakerState
  reset : ℚ → S → S

namespace AsyncBreaker

variable {S V : Type} (B : AsyncBreaker S) (cfg : BreakerConfig)

/-- The completion step of an admitted `call`. -/
def complete (now : ℚ) (o : Outcome V) (s : S) : S :=
  match cfg.verdict o with
  | .success => B.recordSuccess now s
  | .failure => B.recordFailure now s
  | .uncounted => s

/-! ### Overlapping calls -/

/-- Steps of the overlapping system; `id` names a call. -/
inductive Ev (V : Type)
  | call (id : ℕ)
  | finish (id : ℕ) (o : Outcome V)
  | state
  | reset
  deriving DecidableEq, Repr

/-- `shortCircuit` is the raised `ServiceUnavailableError`; a `finished` call returns or raises its
own outcome; `ignored` answers the end of a call that is not in flight. -/
inductive Out (V : Type)
  | admitted
  | shortCircuit
  | finished (o : Outcome V)
  | reported (st : BreakerState)
  | resetDone
  | ignored
  deriving DecidableEq, Repr

/-- A backend and the calls it has admitted that have not ended. -/
structure Sys (S : Type) where
  brk : S
  inflight : List ℕ := []

/-- Any number of calls, their atomic steps in any order. -/
def overlapped (init : S) : Mealy (Sys S) (Timed ℚ (Ev V)) (Out V) where
  init := ⟨init, []⟩
  step s e :=
    match e.ev with
    | .call id =>
      let (b, a) := B.admission e.time s.brk
      if a.admitted then (⟨b, id :: s.inflight⟩, .admitted) else (⟨b, s.inflight⟩, .shortCircuit)
    | .finish id o =>
      if id ∈ s.inflight then
        (⟨B.complete cfg e.time o s.brk, s.inflight.erase id⟩, .finished o)
      else (s, .ignored)
    | .state =>
      let (b, st) := B.state e.time s.brk
      (⟨b, s.inflight⟩, .reported st)
    | .reset => (⟨B.reset e.time s.brk, s.inflight⟩, .resetDone)

/-! ### Operations one after the other -/

/-- A call carries the clock at its admission, how the caller's function ends and the clock at its
completion. -/
inductive Op (V : Type)
  | call (t₁ : ℚ) (o : Outcome V) (t₂ : ℚ)
  | state (t : ℚ)
  | reset (t : ℚ)
  deriving DecidableEq

/-- One operation ends before the next starts. -/
def sequential (init : S) : Mealy S (Op V) (Out V) where
  init := init
  step s op :=
    match op with
    | .call t₁ o t₂ =>
      let (s, a) := B.admission t₁ s
      if a.admitted then (B.complete cfg t₂ o s, .finished o) else (s, .shortCircuit)
    | .state t =>
      let (s, st) := B.state t s
      (s, .reported st)
    | .reset t => (B.reset t s, .resetDone)

/-! ### What a step of the overlapping system does -/

/-- A recorded step of the overlapping system. -/
abbrev Rec (S V : Type) := Mealy.Step (Sys S) (Timed ℚ (Ev V)) (Out V)

/-- What a step records on the breaker. -/
def recorded (r : Rec S V) : Verdict :=
  match r.out with
  | .finished o => cfg.verdict o
  | _ => .uncounted

def isReset (r : Rec S V) : Bool :=
  match r.ev.ev with
  | .reset => true
  | _ => false

/-- The steps that make the half-open check in every backend: `call` and `state`. -/
def isCheck (r : Rec S V) : Bool :=
  match r.ev.ev with
  | .call _ => true
  | .state => true
  | _ => false

/-- What one step can do to the backend. -/
inductive Moved (r : Rec S V) : Prop
  | admission (hc : isCheck r = true) (hr : isReset r = false) (hv : recorded cfg r = .uncounted)
      (h : r.post.brk = (B.admission r.ev.time r.pre.brk).1)
  | state (hc : isCheck r = true) (hr : isReset r = false) (hv : recorded cfg r = .uncounted)
      (h : r.post.brk = (B.state r.ev.time r.pre.brk).1)
  | success (hc : isCheck r = false) (hr : isReset r = false) (hv : recorded cfg r = .success)
      (h : r.post.brk = B.recordSuccess r.ev.time r.pre.brk)
  | failure (hc : isCheck r = false) (hr : isReset r = false) (hv : recorded cfg r = .failure)
      (h : r.post.brk = B.recordFailure r.ev.time r.pre.brk)
  | idle (hr : isReset r = false) (hv : recorded cfg r = .uncounted)
      (h : r.post.brk = r.pre.brk)
  | reset (hr : isReset r = true) (hv : recorded cfg r = .uncounted)
      (h : r.post.brk = B.reset r.ev.time r.pre.brk)

/-- **Inversion**: every step of the overlapping system is one of the six moves. -/
theorem moved (init : S) (s : Sys S) (e : Timed ℚ (Ev V)) :
    Moved B cfg ((B.overlapped cfg init).record s e) := by
  obtain ⟨t, ev⟩ := e
  cases ev with
  | call id =>
    by_cases ha : (B.admission t s.brk).2.admitted = true
    · exact .admission rfl rfl (by simp [recorded, Mealy.record, Mealy.out, overlapped, ha])
        (by simp [Mealy.record, Mealy.next, overlapped, ha])
    · exact .admission rfl rfl (by simp [recorded, Mealy.record, Mealy.out, overlapped, ha])
        (by simp [Mealy.record, Mealy.next, overlapped, ha])
  | finish id o =>
    by_cases hid : id ∈ s.inflight
    · have hv : recorded cfg ((B.overlapped cfg init).record s ⟨t, .finish id o⟩) = cfg.verdict o := by
        simp [recorded, Mealy.record, Mealy.out, overlapped, hid]
      have hb : ((B.overlapped cfg init).record s ⟨t, .finish id o⟩).post.brk =
          B.complete cfg t o s.brk := by
        simp [Mealy.record, Mealy.next, overlapped, hid]
      unfold complete at hb
      cases hvd : cfg.verdict o with
      | success => exact .success rfl rfl (hv.trans hvd) (by rw [hb, hvd]; rfl)
      | failure => exact .failure rfl rfl (hv.trans hvd) (by rw [hb, hvd]; rfl)
      | uncounted => exact .idle rfl (hv.trans hvd) (by rw [hb, hvd]; rfl)
    · exact .idle rfl (by simp [recorded, Mealy.record, Mealy.out, overlapped, hid])
        (by simp [Mealy.record, Mealy.next, overlapped, hid])
  | state => exact .state rfl rfl rfl rfl
  | reset => exact .reset rfl rfl rfl

end AsyncBreaker

end ResilienceKit

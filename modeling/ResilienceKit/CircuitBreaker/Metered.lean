import ResilienceKit.CircuitBreaker.Memory

/-!
# CircuitBreaker.Metered — the in-process breaker with its metrics

The lock sections of `InMemoryAsyncBreaker` with the emissions between their updates.  A sink that raises
ends the section where it stands: the updates before it stay, those after it are lost.
`observability_steers_iff` says at which steps that can be seen.
-/

namespace ResilienceKit

/-- The breaker, and how many metrics were emitted. -/
structure Metered where
  brk : InMemoryAsyncBreaker := {}
  emitted : ℕ := 0

/-- What the `n`-th emission of a metric raises. -/
abbrev Sink := ℕ → String → Option PyExc

/-- `NoopMetricsSink`. -/
def noopSink : Sink := fun _ _ => none

namespace Metered

/-- A lock section that may raise; what it has written stays. -/
abbrev Section := EStateM PyExc Metered

variable (sink : Sink) (cfg : BreakerConfig)

/-- `get_metrics().incr(name, …)`. -/
def incr (name : String) : Section Unit := do
  let s ← get
  set { s with emitted := s.emitted + 1 }
  match sink s.emitted name with
  | none => pure ()
  | some e => throw e

def update (f : InMemoryAsyncBreaker → InMemoryAsyncBreaker) : Section Unit :=
  modify fun s => { s with brk := f s.brk }

def openLocked (now : ℚ) : Section Unit := do
  update (·.openLocked now)
  incr sink "breaker.open"

def maybeHalfOpen (now : ℚ) : Section Unit := do
  let s ← get
  if s.brk.state ≠ .OPEN then return
  match s.brk.openedAt with
  | none => return
  | some openedAt =>
    if now - openedAt ≥ cfg.resetTimeout then
      update fun b => { b with state := .HALF_OPEN, successCount := 0 }
      incr sink "breaker.half_open"

def recordFailure (now : ℚ) : Section Unit := do
  let s ← get
  if s.brk.state = .HALF_OPEN then openLocked sink now
  else
    update fun b => { b with failureCount := b.failureCount + 1 }
    incr sink "breaker.failure"
    let s ← get
    if (s.brk.failureCount : ℤ) ≥ cfg.failMax then openLocked sink now

def recordSuccess : Section Unit := do
  incr sink "breaker.success"
  let s ← get
  if s.brk.state = .HALF_OPEN then
    update fun b => { b with successCount := b.successCount + 1 }
    let s ← get
    if (s.brk.successCount : ℤ) ≥ cfg.successThreshold then
      update fun b => { b with state := .CLOSED, failureCount := 0, successCount := 0, openedAt := none }
      incr sink "breaker.close"
  else update fun b => { b with failureCount := 0 }

/-- The admission step of `call`. -/
def admission (now : ℚ) : Section Unit := do
  maybeHalfOpen sink cfg now
  let s ← get
  if s.brk.state = .OPEN then
    incr sink "breaker.short_circuit"
    throw ⟨.serviceUnavailableError, 0⟩

/-- `state()`. -/
def reportState (now : ℚ) : Section BreakerState := do
  maybeHalfOpen sink cfg now
  let s ← get
  return s.brk.state

def reset : Section Unit := do
  update InMemoryAsyncBreaker.reset
  incr sink "breaker.reset"

/-- The completion step of an admitted `call`. -/
def complete {V : Type} (now : ℚ) (o : Outcome V) : Section Unit :=
  match cfg.verdict o with
  | .success => recordSuccess sink cfg
  | .failure => recordFailure sink cfg now
  | .uncounted => pure ()

/-! ### What the sections leave behind -/

/-- The breaker after a section, however it ended. -/
def brkAfter {α : Type} : EStateM.Result PyExc Metered α → InMemoryAsyncBreaker
  | .ok _ s => s.brk
  | .error _ s => s.brk

def returns {α : Type} : EStateM.Result PyExc Metered α → Bool
  | .ok _ _ => true
  | .error _ _ => false

variable {sink cfg} {s : Metered} {now : ℚ}

/-- An OPEN breaker whose timeout has elapsed. -/
def timedOut (cfg : BreakerConfig) (now : ℚ) (b : InMemoryAsyncBreaker) : Bool :=
  b.state = .OPEN && b.openedAt.any fun openedAt => now - openedAt ≥ cfg.resetTimeout

theorem run_incr (name : String) : (incr sink name).run s =
    match sink s.emitted name with
    | none => .ok () { s with emitted := s.emitted + 1 }
    | some e => .error e { s with emitted := s.emitted + 1 } := by
  cases h : sink s.emitted name <;> simp [incr, h]

theorem brkAfter_incr (name : String) : brkAfter ((incr sink name).run s) = s.brk := by
  rw [run_incr]
  cases sink s.emitted name <;> rfl

theorem brkAfter_openLocked : brkAfter ((openLocked sink now).run s) = s.brk.openLocked now :=
  brkAfter_incr (s := { s with brk := s.brk.openLocked now }) _

/-- The half-open check leaves what it should, and raises only what the sink raises when it goes to
HALF_OPEN. -/
theorem run_maybeHalfOpen (sink : Sink) (cfg : BreakerConfig) (now : ℚ) (s : Metered) :
    brkAfter ((maybeHalfOpen sink cfg now).run s) = InMemoryAsyncBreaker.maybeHalfOpen cfg now s.brk ∧
    returns ((maybeHalfOpen sink cfg now).run s) =
      !(timedOut cfg now s.brk && (sink s.emitted "breaker.half_open").isSome) := by
  unfold maybeHalfOpen InMemoryAsyncBreaker.maybeHalfOpen timedOut
  rw [EStateM.run_bind]
  by_cases hs : s.brk.state = .OPEN
  · cases ho : s.brk.openedAt with
    | none => simp [hs, ho, brkAfter, returns]
    | some o =>
      by_cases ht : now - o ≥ cfg.resetTimeout
      · cases hk : sink s.emitted "breaker.half_open" <;>
          simp [hs, ho, ht, hk, brkAfter, returns, run_incr, update]
      · simp [hs, ho, ht, brkAfter, returns]
  · simp [hs, brkAfter, returns]

/-- The admission step: the sink of the half-open check can turn a call away. -/
theorem run_admission (sink : Sink) (cfg : BreakerConfig) (now : ℚ) (s : Metered) :
    brkAfter ((admission sink cfg now).run s) = InMemoryAsyncBreaker.maybeHalfOpen cfg now s.brk ∧
    returns ((admission sink cfg now).run s) =
      ((InMemoryAsyncBreaker.admission cfg now s.brk).2.admitted &&
        !(timedOut cfg now s.brk && (sink s.emitted "breaker.half_open").isSome)) := by
  obtain ⟨hbrk, hret⟩ := run_maybeHalfOpen sink cfg now s
  unfold admission
  rw [EStateM.run_bind, ← hret]
  cases hrun : (maybeHalfOpen sink cfg now).run s with
  | error e s' =>
    rw [hrun] at hbrk
    exact ⟨hbrk, by simp [returns]⟩
  | ok a s' =>
    rw [hrun] at hbrk
    have hs' : s'.brk = InMemoryAsyncBreaker.maybeHalfOpen cfg now s.brk := hbrk
    by_cases hopen : s'.brk.state = .OPEN
    · cases hk : sink s'.emitted "breaker.short_circuit" <;>
        simp [hopen, hk, run_incr, brkAfter, returns, InMemoryAsyncBreaker.admission, ← hs']
    · simp [hopen, brkAfter, returns, InMemoryAsyncBreaker.admission, ← hs']

/-- A counted failure: the threshold is not checked when `breaker.failure` raises. -/
theorem brkAfter_recordFailure : brkAfter ((recordFailure sink cfg now).run s) =
    if s.brk.state ≠ .HALF_OPEN ∧ (sink s.emitted "breaker.failure").isSome then
      { s.brk with failureCount := s.brk.failureCount + 1 }
    else InMemoryAsyncBreaker.recordFailure cfg now s.brk := by
  unfold recordFailure InMemoryAsyncBreaker.recordFailure
  rw [EStateM.run_bind]
  by_cases hs : s.brk.state = .HALF_OPEN
  · simp [hs, brkAfter_openLocked]
  · cases hk : sink s.emitted "breaker.failure" with
    | some e => simp [hs, hk, run_incr, update, brkAfter]
    | none =>
      by_cases hm : (s.brk.failureCount + 1 : ℤ) ≥ cfg.failMax
      · simp [hs, hk, run_incr, update, hm, brkAfter_openLocked]
      · simp [hs, hk, run_incr, update, hm, brkAfter]

/-- A counted success: nothing changes when `breaker.success` raises. -/
theorem brkAfter_recordSuccess : brkAfter ((recordSuccess sink cfg).run s) =
    if (sink s.emitted "breaker.success").isSome then s.brk
    else InMemoryAsyncBreaker.recordSuccess cfg s.brk := by
  unfold recordSuccess InMemoryAsyncBreaker.recordSuccess
  rw [EStateM.run_bind, run_incr]
  cases hk : sink s.emitted "breaker.success" with
  | some e => simp [brkAfter]
  | none =>
    by_cases hs : s.brk.state = .HALF_OPEN
    · by_cases hm : (s.brk.successCount + 1 : ℤ) ≥ cfg.successThreshold
      · simp [hs, update, hm, brkAfter_incr]
      · simp [hs, update, hm, brkAfter]
    · simp [hs, update, brkAfter]

theorem brkAfter_reset (sink : Sink) (s : Metered) : brkAfter ((reset sink).run s) = s.brk.reset := by
  unfold reset
  rw [EStateM.run_bind]
  exact brkAfter_incr (s := { s with brk := s.brk.reset }) _

theorem brkAfter_reportState (sink : Sink) (cfg : BreakerConfig) (now : ℚ) (s : Metered) :
    brkAfter ((reportState sink cfg now).run s) = InMemoryAsyncBreaker.maybeHalfOpen cfg now s.brk := by
  obtain ⟨hbrk, -⟩ := run_maybeHalfOpen sink cfg now s
  unfold reportState
  rw [EStateM.run_bind]
  cases hrun : (maybeHalfOpen sink cfg now).run s with
  | error e s' =>
    rw [hrun] at hbrk
    exact hbrk
  | ok a s' =>
    rw [hrun] at hbrk
    exact hbrk

/-! ### Two runs -/

open AsyncBreaker
open Mealy (Timed)

variable (sink cfg)

/-- The breaker with its metrics, and the calls in flight. -/
structure Sys where
  met : Metered := {}
  inflight : List ℕ := []

/-- What a step tells an observer of the admissions: whether a call was let in. -/
inductive Decision
  | admitted
  | refused
  | none
  deriving DecidableEq, Repr

/-- The metered breaker under any number of overlapping calls. -/
def system (V : Type) : Mealy Sys (Timed ℚ (Ev V)) Decision where
  init := {}
  step s e :=
    match e.ev with
    | .call id =>
      match (admission sink cfg e.time).run s.met with
      | .ok _ met => (⟨met, id :: s.inflight⟩, .admitted)
      | .error _ met => (⟨met, s.inflight⟩, .refused)
    | .finish id o =>
      if id ∈ s.inflight then
        match (complete sink cfg e.time o).run s.met with
        | .ok _ met => (⟨met, s.inflight.erase id⟩, .none)
        | .error _ met => (⟨met, s.inflight.erase id⟩, .none)
      else (s, .none)
    | .state =>
      match (reportState sink cfg e.time).run s.met with
      | .ok _ met => (⟨met, s.inflight⟩, .none)
      | .error _ met => (⟨met, s.inflight⟩, .none)
    | .reset =>
      match (reset sink).run s.met with
      | .ok _ met => (⟨met, s.inflight⟩, .none)
      | .error _ met => (⟨met, s.inflight⟩, .none)

/-- The same decision, and the same four fields afterwards. -/
def Alike {V : Type} (r r' : Mealy.Step Sys (Timed ℚ (Ev V)) Decision) : Prop :=
  r.out = r'.out ∧ r.post.met.brk = r'.post.met.brk

/-- The sink does not raise where it can be felt: between a count and the threshold check, before a
success that matters, or in the half-open check of a call. -/
def Harmless {V : Type} (sink : Sink) (cfg : BreakerConfig) (s : Sys) (e : Timed ℚ (Ev V)) : Prop :=
  match e.ev with
  | .call _ => timedOut cfg e.time s.met.brk = true → sink s.met.emitted "breaker.half_open" = none
  | .finish id o =>
    id ∈ s.inflight →
      match cfg.verdict o with
      | .success => s.met.brk.state = .HALF_OPEN ∨ s.met.brk.failureCount ≠ 0 →
          sink s.met.emitted "breaker.success" = none
      | .failure => s.met.brk.state ≠ .HALF_OPEN → cfg.failMax ≤ s.met.brk.failureCount + 1 →
          sink s.met.emitted "breaker.failure" = none
      | .uncounted => True
  | .state => True
  | .reset => True

section Step

/-- What the admission step of a call does to the system. -/
theorem record_call (V : Type) (sink : Sink) (cfg : BreakerConfig) (s : Sys) (t : ℚ) (id : ℕ) :
    let r := (system sink cfg V).record s ⟨t, .call id⟩
    let letIn := returns ((admission sink cfg t).run s.met)
    r.out = (if letIn then .admitted else .refused) ∧
      r.post.met.brk = InMemoryAsyncBreaker.maybeHalfOpen cfg t s.met.brk ∧
      r.post.inflight = if letIn then id :: s.inflight else s.inflight := by
  obtain ⟨hbrk, -⟩ := run_admission sink cfg t s.met
  cases hrun : (admission sink cfg t).run s.met with
  | ok a met =>
    rw [hrun] at hbrk
    simp [Mealy.record, Mealy.out, Mealy.next, system, hrun, returns, ← hbrk, brkAfter]
  | error e met =>
    rw [hrun] at hbrk
    simp [Mealy.record, Mealy.out, Mealy.next, system, hrun, returns, ← hbrk, brkAfter]

/-- What the completion of a call in flight does to the system. -/
theorem record_finish {V : Type} (sink : Sink) (cfg : BreakerConfig) (s : Sys) (t : ℚ) {id : ℕ} (o : Outcome V)
    (hid : id ∈ s.inflight) :
    let r := (system sink cfg V).record s ⟨t, .finish id o⟩
    r.out = .none ∧ r.post.met.brk = brkAfter ((complete sink cfg t o).run s.met) ∧
      r.post.inflight = s.inflight.erase id := by
  cases hrun : (complete sink cfg t o).run s.met <;>
    simp [Mealy.record, Mealy.out, Mealy.next, system, hid, hrun, brkAfter]

/-- A completion of a call that is not in flight does nothing. -/
theorem record_finish_idle {V : Type} (sink : Sink) (cfg : BreakerConfig) (s : Sys) (t : ℚ) {id : ℕ}
    (o : Outcome V) (hid : id ∉ s.inflight) :
    (system sink cfg V).record s ⟨t, .finish id o⟩ = ⟨s, ⟨t, .finish id o⟩, .none, s⟩ := by
  simp [Mealy.record, Mealy.out, Mealy.next, system, hid]

theorem record_state (V : Type) (sink : Sink) (cfg : BreakerConfig) (s : Sys) (t : ℚ) :
    let r := (system sink cfg V).record s ⟨t, .state⟩
    r.out = .none ∧ r.post.met.brk = InMemoryAsyncBreaker.maybeHalfOpen cfg t s.met.brk ∧
      r.post.inflight = s.inflight := by
  have hbrk := brkAfter_reportState sink cfg t s.met
  cases hrun : (reportState sink cfg t).run s.met <;> rw [hrun] at hbrk <;>
    simp [Mealy.record, Mealy.out, Mealy.next, system, hrun, ← hbrk, brkAfter]

theorem record_reset (V : Type) (sink : Sink) (cfg : BreakerConfig) (s : Sys) (t : ℚ) :
    let r := (system sink cfg V).record s ⟨t, .reset⟩
    r.out = .none ∧ r.post.met.brk = s.met.brk.reset ∧ r.post.inflight = s.inflight := by
  have hbrk := brkAfter_reset sink s.met
  cases hrun : (reset sink).run s.met <;> rw [hrun] at hbrk <;>
    simp only [Mealy.record, Mealy.out, Mealy.next, system, hrun, ← hbrk, brkAfter, and_self]

end Step

/-! ### When the sink is felt -/

theorem halfOpens_of_timedOut {cfg : BreakerConfig} {now : ℚ} {b : InMemoryAsyncBreaker}
    (ht : timedOut cfg now b = true) :
    (InMemoryAsyncBreaker.maybeHalfOpen cfg now b).state = .HALF_OPEN := by
  obtain ⟨hs, hany⟩ := Bool.and_eq_true_iff.mp ht
  have hopen : b.state = .OPEN := of_decide_eq_true hs
  cases ho : b.openedAt with
  | none =>
    rw [ho] at hany
    cases hany
  | some o =>
    rw [ho] at hany
    have hle : now - o ≥ cfg.resetTimeout := of_decide_eq_true hany
    simp [InMemoryAsyncBreaker.maybeHalfOpen, hopen, ho, hle]

/-- A success that the breaker does not notice. -/
theorem recordSuccess_eq_self_iff (cfg : BreakerConfig) (b : InMemoryAsyncBreaker) :
    InMemoryAsyncBreaker.recordSuccess cfg b = b ↔ ¬ (b.state = .HALF_OPEN ∨ b.failureCount ≠ 0) := by
  by_cases hs : b.state = .HALF_OPEN
  · refine ⟨fun heq => ?_, fun hn => absurd (.inl hs) hn⟩
    by_cases hm : cfg.successThreshold ≤ b.successCount + 1
    · rw [InMemoryAsyncBreaker.recordSuccess_closes hs hm] at heq
      rw [← heq] at hs
      cases hs
    · rw [InMemoryAsyncBreaker.recordSuccess_counts hs (not_le.mp hm)] at heq
      have := congrArg InMemoryAsyncBreaker.successCount heq
      simp at this
  · rw [InMemoryAsyncBreaker.recordSuccess_other hs]
    constructor
    · rintro heq (h | h)
      · exact hs h
      · exact h (congrArg InMemoryAsyncBreaker.failureCount heq).symm
    · intro hn
      have h0 : b.failureCount = 0 := by
        by_contra h
        exact hn (.inr h)
      obtain ⟨state, failureCount, successCount, openedAt⟩ := b
      simp only at h0
      rw [h0]

/-- A count without the threshold check is the whole record while the threshold is not reached. -/
theorem count_eq_recordFailure_iff (cfg : BreakerConfig) (now : ℚ) {b : InMemoryAsyncBreaker}
    (hs : b.state ≠ .HALF_OPEN) :
    { b with failureCount := b.failureCount + 1 } = InMemoryAsyncBreaker.recordFailure cfg now b ↔
      ¬ cfg.failMax ≤ b.failureCount + 1 := by
  by_cases hm : cfg.failMax ≤ b.failureCount + 1
  · rw [InMemoryAsyncBreaker.recordFailure_opens hs hm]
    refine ⟨fun heq => ?_, fun h => absurd hm h⟩
    have := congrArg InMemoryAsyncBreaker.failureCount heq
    simp [InMemoryAsyncBreaker.openLocked] at this
  · rw [InMemoryAsyncBreaker.recordFailure_counts hs (not_le.mp hm)]
    exact ⟨fun _ => hm, fun _ => rfl⟩

variable {V : Type}

/-- A step of a call in flight is harmless exactly when recording its outcome leaves the breaker as it
would be without a sink. -/
theorem harmless_finish_iff {s s' : Sys} (t : ℚ) (o : Outcome V) {id : ℕ} (hbrk : s.met.brk = s'.met.brk)
    (hid : id ∈ s.inflight) :
    Harmless sink cfg s ⟨t, .finish id o⟩ ↔
      brkAfter ((complete sink cfg t o).run s.met) =
        brkAfter ((complete noopSink cfg t o).run s'.met) := by
  unfold Harmless complete
  cases hv : cfg.verdict o with
  | success =>
    simp only [hid, hv, forall_const]
    rw [brkAfter_recordSuccess, brkAfter_recordSuccess, ← hbrk]
    cases hk : sink s.met.emitted "breaker.success" with
    | none => simp [noopSink]
    | some err =>
      have hself := recordSuccess_eq_self_iff cfg s.met.brk
      simp only [noopSink, Option.isSome_some, Option.isSome_none, if_true, reduceCtorEq, imp_false]
      exact ⟨fun h => (hself.mpr h).symm, fun h => hself.mp h.symm⟩
  | failure =>
    simp only [hid, hv, forall_const]
    rw [brkAfter_recordFailure, brkAfter_recordFailure, ← hbrk]
    by_cases hs : s.met.brk.state = .HALF_OPEN
    · simp [hs]
    · cases hk : sink s.met.emitted "breaker.failure" with
      | none => simp [noopSink]
      | some err =>
        have hcount := count_eq_recordFailure_iff cfg t hs
        simp only [noopSink, ne_eq, hs, not_false_eq_true, Option.isSome_some, Option.isSome_none,
          and_self, and_false, if_true, if_false, forall_const, reduceCtorEq, imp_false]
        exact hcount.symm
  | uncounted =>
    simp only [hv, implies_true, true_iff]
    exact hbrk

/-- **Step lemma**: from one state, the two sinks lead to the same decision and state exactly when the
step is harmless. -/
theorem alike_iff_harmless {s s' : Sys} (e : Timed ℚ (Ev V)) (hbrk : s.met.brk = s'.met.brk)
    (hin : s.inflight = s'.inflight) :
    Alike ((system sink cfg V).record s e) ((system noopSink cfg V).record s' e) ↔
      Harmless sink cfg s e := by
  obtain ⟨t, ev⟩ := e
  cases ev with
  | call id =>
    obtain ⟨ho, hb, -⟩ := record_call V sink cfg s t id
    obtain ⟨ho', hb', -⟩ := record_call V noopSink cfg s' t id
    rw [Alike, ho, ho', hb, hb', (run_admission sink cfg t s.met).2,
      (run_admission noopSink cfg t s'.met).2, hbrk, Harmless, hbrk]
    cases hto : timedOut cfg t s'.met.brk with
    | false => simp
    | true =>
      have hadmitted : (InMemoryAsyncBreaker.admission cfg t s'.met.brk).2.admitted = true := by
        simp [InMemoryAsyncBreaker.admission, halfOpens_of_timedOut hto]
      cases hk : sink s.met.emitted "breaker.half_open" <;> simp [hadmitted, noopSink]
  | finish id o =>
    by_cases hid : id ∈ s.inflight
    · obtain ⟨ho, hb, -⟩ := record_finish sink cfg s t o hid
      obtain ⟨ho', hb', -⟩ := record_finish noopSink cfg s' t o (hin ▸ hid)
      have hH := harmless_finish_iff sink cfg t o hbrk hid
      rw [Alike, ho, ho', hb, hb', hH]
      exact ⟨fun h => h.2, fun h => ⟨rfl, h⟩⟩
    · rw [Alike, record_finish_idle sink cfg s t o hid, record_finish_idle noopSink cfg s' t o (hin ▸ hid)]
      exact ⟨fun _ h => absurd h hid, fun _ => ⟨rfl, hbrk⟩⟩
  | state =>
    obtain ⟨ho, hb, -⟩ := record_state V sink cfg s t
    obtain ⟨ho', hb', -⟩ := record_state V noopSink cfg s' t
    exact ⟨fun _ => trivial, fun _ => ⟨ho.trans ho'.symm, by rw [hb, hb', hbrk]⟩⟩
  | reset =>
    obtain ⟨ho, hb, -⟩ := record_reset V sink cfg s t
    obtain ⟨ho', hb', -⟩ := record_reset V noopSink cfg s' t
    exact ⟨fun _ => trivial, fun _ => ⟨ho.trans ho'.symm, by rw [hb, hb', hbrk]⟩⟩

/-- States that agree on the breaker go on agreeing on the calls in flight. -/
theorem inflight_eq_of_alike {s s' : Sys} (e : Timed ℚ (Ev V)) (hin : s.inflight = s'.inflight)
    (ha : Alike ((system sink cfg V).record s e) ((system noopSink cfg V).record s' e)) :
    ((system sink cfg V).next s e).inflight = ((system noopSink cfg V).next s' e).inflight := by
  obtain ⟨t, ev⟩ := e
  cases ev with
  | call id =>
    obtain ⟨ho, -, hi⟩ := record_call V sink cfg s t id
    obtain ⟨ho', -, hi'⟩ := record_call V noopSink cfg s' t id
    have hout := ha.1
    rw [ho, ho'] at hout
    refine hi.trans (Eq.trans ?_ hi'.symm)
    cases hr : returns ((admission sink cfg t).run s.met) <;>
      cases hr' : returns ((admission noopSink cfg t).run s'.met) <;> simp_all
  | finish id o =>
    by_cases hid : id ∈ s.inflight
    · obtain ⟨-, -, hi⟩ := record_finish sink cfg s t o hid
      obtain ⟨-, -, hi'⟩ := record_finish noopSink cfg s' t o (hin ▸ hid)
      exact hi.trans (hin ▸ hi'.symm)
    · have hpost := congrArg Mealy.Step.post (record_finish_idle sink cfg s t o hid)
      have hpost' := congrArg Mealy.Step.post (record_finish_idle noopSink cfg s' t o (hin ▸ hid))
      exact (congrArg Sys.inflight hpost).trans (hin.trans (congrArg Sys.inflight hpost').symm)
  | state =>
    exact (record_state V sink cfg s t).2.2.trans (hin.trans (record_state V noopSink cfg s' t).2.2.symm)
  | reset =>
    exact (record_reset V sink cfg s t).2.2.trans (hin.trans (record_reset V noopSink cfg s' t).2.2.symm)

theorem brkAfter_complete_noop (cfg : BreakerConfig) (t : ℚ) (o : Outcome V) (met : Metered) :
    brkAfter ((complete noopSink cfg t o).run met) =
      (InMemoryAsyncBreaker.breaker cfg).complete cfg t o met.brk := by
  unfold complete AsyncBreaker.complete
  cases cfg.verdict o with
  | success => exact brkAfter_recordSuccess.trans (by simp [noopSink, InMemoryAsyncBreaker.breaker])
  | failure => exact brkAfter_recordFailure.trans (by simp [noopSink, InMemoryAsyncBreaker.breaker])
  | uncounted => rfl

/-- **Step lemma**: with `NoopMetricsSink` the metered breaker does what the breaker does. -/
theorem noop_next (cfg : BreakerConfig) {s : Sys} {b : AsyncBreaker.Sys InMemoryAsyncBreaker}
    (hbrk : s.met.brk = b.brk) (hin : s.inflight = b.inflight) (e : Timed ℚ (Ev V)) :
    ((system noopSink cfg V).next s e).met.brk = ((InMemoryAsyncBreaker.system cfg V).next b e).brk ∧
    ((system noopSink cfg V).next s e).inflight =
      ((InMemoryAsyncBreaker.system cfg V).next b e).inflight := by
  obtain ⟨t, ev⟩ := e
  cases ev with
  | call id =>
    obtain ⟨-, hb, hi⟩ := record_call V noopSink cfg s t id
    have hr : returns ((admission noopSink cfg t).run s.met) =
        (InMemoryAsyncBreaker.admission cfg t b.brk).2.admitted := by
      rw [(run_admission noopSink cfg t s.met).2, hbrk]
      simp [noopSink]
    rw [Mealy.record_post] at hb hi
    rw [hb, hi, hr, hbrk, hin]
    by_cases ha : (InMemoryAsyncBreaker.maybeHalfOpen cfg t b.brk).state = .OPEN <;>
      simp [Mealy.next, InMemoryAsyncBreaker.system, InMemoryAsyncBreaker.breaker, overlapped, ha,
        InMemoryAsyncBreaker.admission]
  | finish id o =>
    by_cases hid : id ∈ s.inflight
    · obtain ⟨-, hb, hi⟩ := record_finish noopSink cfg s t o hid
      rw [Mealy.record_post, brkAfter_complete_noop] at hb
      rw [Mealy.record_post] at hi
      rw [hb, hi]
      simp [Mealy.next, InMemoryAsyncBreaker.system, overlapped, ← hin, hid, hbrk]
    · simp [Mealy.next, system, InMemoryAsyncBreaker.system, overlapped, ← hin, hid, hbrk]
  | state =>
    obtain ⟨-, hb, hi⟩ := record_state V noopSink cfg s t
    exact ⟨hb.trans (by rw [hbrk]; rfl), hi.trans hin⟩
  | reset =>
    obtain ⟨-, hb, hi⟩ := record_reset V noopSink cfg s t
    exact ⟨hb.trans (by rw [hbrk]; rfl), hi.trans hin⟩

/-- **Run lemma**: so does every run. -/
theorem noop_exec (cfg : BreakerConfig) (es : List (Timed ℚ (Ev V))) :
    ((system noopSink cfg V).exec {} es).met.brk =
      ((InMemoryAsyncBreaker.system cfg V).exec (InMemoryAsyncBreaker.system cfg V).init es).brk ∧
    ((system noopSink cfg V).exec {} es).inflight =
      ((InMemoryAsyncBreaker.system cfg V).exec (InMemoryAsyncBreaker.system cfg V).init es).inflight := by
  induction es using List.reverseRecOn with
  | nil => exact ⟨rfl, rfl⟩
  | append_singleton es e ih =>
    rw [Mealy.exec_concat, Mealy.exec_concat]
    exact noop_next cfg ih.1 ih.2 e

/-- A metrics sink leaves every run as `NoopMetricsSink` does, decisions and states, exactly when every
step of the run is harmless. -/
theorem observability_steers_iff (sink : Sink) (cfg : BreakerConfig) (es : List (Timed ℚ (Ev V))) :
    let M := system sink cfg V
    let N := system noopSink cfg V
    (∀ p, p <+: es →
      M.outs M.init p = N.outs N.init p ∧ (M.exec M.init p).met.brk = (N.exec N.init p).met.brk) ↔
      M.Along (fun _ => Harmless sink cfg) M.init es := by
  intro M N
  refine (Mealy.agree_iff_outs (fun s : Sys => s.met.brk) (fun s : Sys => s.met.brk) rfl es).symm.trans ?_
  refine Mealy.agree_iff_along (R := fun s s' : Sys => s.met.brk = s'.met.brk ∧ s.inflight = s'.inflight)
    ⟨rfl, rfl⟩ (fun _ s s' e hR => alike_iff_harmless sink cfg e hR.1 hR.2) (fun s s' e hR ha => ?_) es
  exact ⟨ha.2, inflight_eq_of_alike sink cfg e hR.2 ha⟩

/-- One counted failure under `fail_max = 1`: the count is emitted, the sink raises, and the breaker stays
CLOSED. -/
theorem failure_lost :
    let sink : Sink := fun _ name => if name = "breaker.failure" then some ⟨.valueError, 0⟩ else none
    let cfg : BreakerConfig := { failMax := 1 }
    let es : List (Timed ℚ (Ev ℕ)) := [⟨0, .call 1⟩, ⟨0, .finish 1 (.raised ⟨.transientError, 0⟩)⟩]
    ((system sink cfg ℕ).exec {} es).met.brk.state = .CLOSED ∧
      ((system noopSink cfg ℕ).exec {} es).met.brk.state = .OPEN := by
  decide

end Metered

end ResilienceKit

import Mathlib.Tactic.Linarith
import ResilienceKit.CircuitBreaker.Memory

/-!
# CircuitBreaker.MemoryRuns — whole runs of the in-process breaker

Completions of calls admitted in one state land in another: late failures in OPEN, late successes in
HALF_OPEN.  `Laws` is what every reachable state satisfies all the same, the two counters being
explained by the history; `StepLaws` says which steps change the state.
-/

namespace ResilienceKit.InMemoryAsyncBreaker

open AsyncBreaker Mealy

variable {V : Type} (cfg : BreakerConfig)

/-- Counted failures recorded since the latest of: construction, entering CLOSED, reset, a recorded
success.  Newest step first. -/
def failuresSince : List (Rec InMemoryAsyncBreaker V) → ℕ
  | [] => 0
  | r :: l =>
    if isReset r = true ∨ recorded cfg r = .success ∨
        (r.pre.brk.state ≠ .CLOSED ∧ r.post.brk.state = .CLOSED) then 0
    else if recorded cfg r = .failure then failuresSince l + 1
    else failuresSince l

/-- Successes recorded since HALF_OPEN was entered.  Newest step first. -/
def probeSuccesses : List (Rec InMemoryAsyncBreaker V) → ℕ
  | [] => 0
  | r :: l =>
    if r.pre.brk.state ≠ .HALF_OPEN then 0
    else if recorded cfg r = .success then probeSuccesses l + 1
    else probeSuccesses l

/-- What holds of the state `s` reached by the history `h`. -/
structure Laws (h : List (Rec InMemoryAsyncBreaker V)) (s : InMemoryAsyncBreaker) : Prop where
  closed_iff : s.state = .CLOSED ↔ s.openedAt = none
  failure_lt : (s.failureCount : ℤ) < cfg.failMax
  success_lt : (s.successCount : ℤ) < cfg.successThreshold
  success_halfOpen : 0 < s.successCount → s.state = .HALF_OPEN
  failure_eq : s.state = .CLOSED → s.failureCount = failuresSince cfg h.reverse
  success_eq : s.state = .HALF_OPEN → s.successCount = probeSuccesses cfg h.reverse

/-- What the step `r` after the history `h` can do to the state. -/
structure StepLaws (h : List (Rec InMemoryAsyncBreaker V)) (r : Rec InMemoryAsyncBreaker V) :
    Prop where
  /-- CLOSED opens exactly on the `failMax`-th counted failure in a row. -/
  opens_iff : r.pre.brk.state = .CLOSED → (r.post.brk.state = .OPEN ↔
    recorded cfg r = .failure ∧ (failuresSince cfg h.reverse + 1 : ℤ) = cfg.failMax)
  /-- OPEN is left by a reset, or by a half-open check after the timeout. -/
  leaves_open : r.pre.brk.state = .OPEN → r.post.brk.state ≠ .OPEN → isReset r = true ∨
    (isCheck r = true ∧ r.post.brk.state = .HALF_OPEN ∧
      ∃ o, r.pre.brk.openedAt = some o ∧ o + cfg.resetTimeout ≤ r.ev.time)
  /-- HALF_OPEN closes by a reset, or on the `successThreshold`-th success since it was entered. -/
  closes : r.pre.brk.state = .HALF_OPEN → r.post.brk.state = .CLOSED → isReset r = true ∨
    (recorded cfg r = .success ∧
      (probeSuccesses cfg h.reverse + 1 : ℤ) = cfg.successThreshold)
  /-- Any counted failure re-opens HALF_OPEN. -/
  reopens : r.pre.brk.state = .HALF_OPEN → recorded cfg r = .failure → r.post.brk.state = .OPEN

variable {cfg}

theorem Laws.initial (hf : 1 ≤ cfg.failMax) (hs : 1 ≤ cfg.successThreshold) :
    Laws (V := V) cfg [] {} where
  closed_iff := by simp
  failure_lt := by simp; omega
  success_lt := by simp; omega
  success_halfOpen := by simp
  failure_eq := fun _ => rfl
  success_eq := by simp

section Step

variable {h : List (Rec InMemoryAsyncBreaker V)} {r : Rec InMemoryAsyncBreaker V}

/-- A step that leaves the breaker alone and records nothing. -/
theorem Laws.idle (hl : Laws cfg h r.pre.brk) (hr : isReset r = false)
    (hv : recorded cfg r = .uncounted) (hb : r.post.brk = r.pre.brk) :
    Laws cfg (h ++ [r]) r.post.brk := by
  rw [hb]
  refine ⟨hl.closed_iff, hl.failure_lt, hl.success_lt, hl.success_halfOpen, fun hc => ?_,
    fun hh => ?_⟩
  · simpa [failuresSince, hr, hv, hb, hc] using hl.failure_eq hc
  · simpa [probeSuccesses, hv, hh] using hl.success_eq hh

/-- The half-open check of `call` and `state`. -/
theorem Laws.check (hl : Laws cfg h r.pre.brk) (hs : 1 ≤ cfg.successThreshold)
    (hr : isReset r = false) (hv : recorded cfg r = .uncounted)
    (hb : r.post.brk = maybeHalfOpen cfg r.ev.time r.pre.brk) :
    Laws cfg (h ++ [r]) r.post.brk := by
  rcases maybeHalfOpen_cases cfg r.ev.time r.pre.brk with he | ⟨o, ho, hoa, -, he⟩
  · exact hl.idle hr hv (hb.trans he)
  · rw [hb, he]
    refine ⟨by simp [hoa], hl.failure_lt, by simp; omega, by simp, by simp, fun _ => ?_⟩
    simp [probeSuccesses, ho]

theorem Laws.failure (hl : Laws cfg h r.pre.brk) (hf : 1 ≤ cfg.failMax)
    (hs : 1 ≤ cfg.successThreshold) (hr : isReset r = false) (hv : recorded cfg r = .failure)
    (hb : r.post.brk = recordFailure cfg r.ev.time r.pre.brk) :
    Laws cfg (h ++ [r]) r.post.brk := by
  have hopen : Laws cfg (h ++ [r]) (r.pre.brk.openLocked r.ev.time) := by
    refine ⟨by simp [openLocked], ?_, ?_, by simp [openLocked], by simp [openLocked],
      by simp [openLocked]⟩
    · simp [openLocked]; omega
    · simp [openLocked]; omega
  by_cases hh : r.pre.brk.state = .HALF_OPEN
  · rwa [hb, recordFailure_halfOpen hh]
  · by_cases hm : cfg.failMax ≤ r.pre.brk.failureCount + 1
    · rwa [hb, recordFailure_opens hh hm]
    · have hb' := hb.trans (recordFailure_counts hh (not_le.mp hm))
      rw [hb']
      refine ⟨hl.closed_iff, ?_, hl.success_lt, hl.success_halfOpen, fun hc => ?_,
        fun hc => absurd hc hh⟩
      · push_cast; omega
      · have hc' : r.pre.brk.state = .CLOSED := hc
        have := hl.failure_eq hc'
        simp [failuresSince, hr, hv, hc', this]

theorem Laws.success (hl : Laws cfg h r.pre.brk) (hf : 1 ≤ cfg.failMax)
    (hs : 1 ≤ cfg.successThreshold) (hv : recorded cfg r = .success)
    (hb : r.post.brk = recordSuccess cfg r.pre.brk) :
    Laws cfg (h ++ [r]) r.post.brk := by
  by_cases hh : r.pre.brk.state = .HALF_OPEN
  · by_cases hm : cfg.successThreshold ≤ r.pre.brk.successCount + 1
    · rw [hb, recordSuccess_closes hh hm]
      refine ⟨by simp, by simp; omega, by simp; omega, by simp, fun _ => ?_, by simp⟩
      simp [failuresSince, hv]
    · rw [hb, recordSuccess_counts hh (not_le.mp hm)]
      refine ⟨hl.closed_iff, hl.failure_lt, by push_cast; omega, fun _ => hh,
        fun hc => absurd (hh.symm.trans hc) (by decide), fun _ => ?_⟩
      have := hl.success_eq hh
      simp [probeSuccesses, hv, hh, this]
  · rw [hb, recordSuccess_other hh]
    refine ⟨hl.closed_iff, by simp; omega, hl.success_lt, hl.success_halfOpen, fun _ => ?_,
      fun hc => absurd hc hh⟩
    simp [failuresSince, hv]

theorem Laws.reset (hf : 1 ≤ cfg.failMax) (hs : 1 ≤ cfg.successThreshold)
    (hr : isReset r = true) (hb : r.post.brk = {}) : Laws cfg (h ++ [r]) r.post.brk := by
  rw [hb]
  refine ⟨by simp, by simp; omega, by simp; omega, by simp, fun _ => ?_, by simp⟩
  simp [failuresSince, hr]

/-- **Step lemma.** -/
theorem Laws.step (hl : Laws cfg h r.pre.brk) (hf : 1 ≤ cfg.failMax)
    (hs : 1 ≤ cfg.successThreshold) (hm : Moved (breaker cfg) cfg r) :
    Laws cfg (h ++ [r]) r.post.brk := by
  cases hm with
  | admission _ hr hv hb => exact hl.check hs hr hv hb
  | state _ hr hv hb => exact hl.check hs hr hv hb
  | success _ _ hv hb => exact hl.success hf hs hv hb
  | failure _ hr hv hb => exact hl.failure hf hs hr hv hb
  | idle hr hv hb => exact hl.idle hr hv hb
  | reset hr _ hb => exact Laws.reset hf hs hr hb

end Step

/-- **Run lemma.**  Every reachable state satisfies the laws. -/
theorem laws (hf : 1 ≤ cfg.failMax) (hs : 1 ≤ cfg.successThreshold)
    (es : List (Timed ℚ (Ev V))) :
    Laws cfg ((system cfg V).log (system cfg V).init es)
      ((system cfg V).exec (system cfg V).init es).brk := by
  refine log_induct (system cfg V)
    (P := fun l s => Laws cfg l s.brk) (Laws.initial hf hs) (fun l s e hl => ?_) es
  exact Laws.step (r := (system cfg V).record s e) hl hf hs (moved _ _ _ _ _)

section StepLaws

variable {h : List (Rec InMemoryAsyncBreaker V)} {r : Rec InMemoryAsyncBreaker V}

theorem StepLaws.idle (hv : recorded cfg r = .uncounted) (hb : r.post.brk = r.pre.brk) :
    StepLaws cfg h r :=
  ⟨fun h1 => by simp [hb, h1, hv], fun h1 h2 => absurd (hb ▸ h1) h2,
    fun h1 h2 => absurd ((hb ▸ h1).symm.trans h2) (by decide), fun _ h2 => by simp [hv] at h2⟩

theorem StepLaws.check (hv : recorded cfg r = .uncounted) (hc : isCheck r = true)
    (hb : r.post.brk = maybeHalfOpen cfg r.ev.time r.pre.brk) : StepLaws cfg h r := by
  rcases maybeHalfOpen_cases cfg r.ev.time r.pre.brk with he | ⟨o, ho, hoa, ht, he⟩
  · exact .idle hv (hb.trans he)
  · rw [he] at hb
    refine ⟨fun h1 => by simp [ho] at h1, fun _ _ => .inr ⟨hc, by rw [hb], o, hoa, ?_⟩,
      fun h1 => by simp [ho] at h1, fun h1 => by simp [ho] at h1⟩
    linarith

theorem StepLaws.reset (hr : isReset r = true) (hv : recorded cfg r = .uncounted)
    (hb : r.post.brk = {}) : StepLaws cfg h r :=
  ⟨fun _ => by simp [hb, hv], fun _ _ => .inl hr, fun _ _ => .inl hr, fun _ h2 => by simp [hv] at h2⟩

theorem Laws.stepLaws_success (hl : Laws cfg h r.pre.brk) (hv : recorded cfg r = .success)
    (hb : r.post.brk = recordSuccess cfg r.pre.brk) : StepLaws cfg h r := by
  refine ⟨fun h1 => ?_, fun h1 h2 => ?_, fun h1 h2 => ?_, fun _ h2 => by simp [hv] at h2⟩
  · rw [recordSuccess_other (by simp [h1])] at hb
    simp [hb, h1, hv]
  · rw [recordSuccess_other (by simp [h1])] at hb
    exact absurd (by rw [hb, h1]) h2
  · refine .inr ⟨hv, ?_⟩
    have hlt := hl.success_lt
    have heq := hl.success_eq h1
    by_cases hle : cfg.successThreshold ≤ r.pre.brk.successCount + 1
    · rw [← heq]; omega
    · rw [recordSuccess_counts h1 (not_le.mp hle)] at hb
      simp [hb, h1] at h2

theorem Laws.stepLaws_failure (hl : Laws cfg h r.pre.brk) (hv : recorded cfg r = .failure)
    (hb : r.post.brk = recordFailure cfg r.ev.time r.pre.brk) : StepLaws cfg h r := by
  refine ⟨fun h1 => ?_, fun h1 h2 => ?_, fun h1 h2 => ?_, fun h1 _ => ?_⟩
  · have hlt := hl.failure_lt
    have heq := hl.failure_eq h1
    by_cases hle : cfg.failMax ≤ r.pre.brk.failureCount + 1
    · rw [recordFailure_opens (by simp [h1]) hle] at hb
      refine ⟨fun _ => ⟨hv, by rw [← heq]; omega⟩, fun _ => by rw [hb]; rfl⟩
    · rw [recordFailure_counts (by simp [h1]) (not_le.mp hle)] at hb
      refine ⟨fun h3 => by simp [hb, h1] at h3, fun h3 => ?_⟩
      rw [← heq] at h3; omega
  · exfalso
    by_cases hle : cfg.failMax ≤ r.pre.brk.failureCount + 1
    · rw [recordFailure_opens (by simp [h1]) hle] at hb
      exact h2 (by rw [hb]; rfl)
    · rw [recordFailure_counts (by simp [h1]) (not_le.mp hle)] at hb
      exact h2 (by rw [hb]; exact h1)
  · rw [recordFailure_halfOpen h1] at hb
    simp [hb, openLocked] at h2
  · rw [hb, recordFailure_halfOpen h1]; rfl

theorem stepLaws_of_laws (hl : Laws cfg h r.pre.brk) (hm : Moved (breaker cfg) cfg r) :
    StepLaws cfg h r := by
  cases hm with
  | admission hc _ hv hb => exact .check hv hc hb
  | state hc _ hv hb => exact .check hv hc hb
  | idle _ hv hb => exact .idle hv hb
  | reset hr hv hb => exact .reset hr hv hb
  | success _ _ hv hb => exact hl.stepLaws_success hv hb
  | failure _ _ hv hb => exact hl.stepLaws_failure hv hb

end StepLaws

/-- Whole runs of the in-memory breaker: the laws of the reachable states, and of every step from
them, for every clock. -/
theorem memory_breaker_runs (cfg : BreakerConfig) (hf : 1 ≤ cfg.failMax)
    (hs : 1 ≤ cfg.successThreshold) (es : List (Timed ℚ (Ev V))) :
    let M := system cfg V
    Laws cfg (M.log M.init es) (M.exec M.init es).brk ∧
      ∀ e, StepLaws cfg (M.log M.init es) (M.record (M.exec M.init es) e) := by
  intro M
  have hl := laws (V := V) hf hs es
  exact ⟨hl, fun e => stepLaws_of_laws (r := M.record (M.exec M.init es) e) hl (moved _ _ _ _ _)⟩

theorem memory_breaker_runs_default :
    let M := system {} ℕ
    Laws {} (M.log M.init [⟨0, .call 1⟩, ⟨1, .finish 1 (.returned 7)⟩])
        (M.exec M.init [⟨0, .call 1⟩, ⟨1, .finish 1 (.returned 7)⟩]).brk ∧
      ∀ e, StepLaws {} (M.log M.init [⟨0, .call 1⟩, ⟨1, .finish 1 (.returned 7)⟩])
        (M.record (M.exec M.init [⟨0, .call 1⟩, ⟨1, .finish 1 (.returned 7)⟩]) e) :=
  memory_breaker_runs {} (by decide) (by decide) _

end ResilienceKit.InMemoryAsyncBreaker

import ResilienceKit.CircuitBreaker.LuaRuns
import ResilienceKit.CircuitBreaker.Memory

/-!
# CircuitBreaker.HalfOpen — what closes a HALF_OPEN breaker

The success counter is bumped by whichever call completes while the state is HALF_OPEN, so what closes
the breaker is the successes recorded since HALF_OPEN was entered, whenever their calls were admitted.
`Probing` is what a step of either backend does to the counter; `Counted` carries it through whole runs.
-/

namespace ResilienceKit

open Mealy AsyncBreaker

namespace AsyncBreaker

section Epoch

variable {S V : Type} (cfg : BreakerConfig) (st : S → BreakerState) (sc : S → ℕ)

/-- The steps since HALF_OPEN was last entered, the entering step included.  Newest step first. -/
def epoch : List (Rec S V) → List (Rec S V)
  | [] => []
  | r :: l => r :: if st r.pre.brk = .HALF_OPEN then epoch l else []

/-- The successes recorded in a list of steps. -/
def successes (l : List (Rec S V)) : ℕ := l.countP fun r => decide (recorded cfg r = .success)

/-- What a step does to the success counter. -/
structure Probing (r : Rec S V) : Prop where
  stays : st r.pre.brk = .HALF_OPEN → st r.post.brk = .HALF_OPEN →
    recorded cfg r ≠ .failure ∧
      sc r.post.brk = sc r.pre.brk + if recorded cfg r = .success then 1 else 0
  enters : st r.pre.brk ≠ .HALF_OPEN → st r.post.brk = .HALF_OPEN →
    recorded cfg r ≠ .failure ∧ sc r.post.brk = if recorded cfg r = .success then 1 else 0
  closes : st r.pre.brk ≠ .CLOSED → st r.post.brk = .CLOSED → isReset r = false →
    recorded cfg r = .success ∧ cfg.successThreshold ≤
      ((if st r.pre.brk = .HALF_OPEN then sc r.pre.brk else 0 : ℕ) : ℤ) + 1

/-- In HALF_OPEN the counter is the successes of the epoch, which has no counted failure. -/
def Counted (h : List (Rec S V)) (s : Sys S) : Prop :=
  st s.brk = .HALF_OPEN → sc s.brk = successes cfg (epoch st h.reverse) ∧
    ∀ r ∈ epoch st h.reverse, recorded cfg r ≠ .failure

variable {cfg st sc}

section Shapes

/-! The steps by what they leave: OPEN, HALF_OPEN, the state as it was, or CLOSED. -/

variable {r : Rec S V}

theorem Probing.of_open (ho : st r.post.brk = .OPEN) : Probing cfg st sc r :=
  ⟨fun _ h2 => by simp [ho] at h2, fun _ h2 => by simp [ho] at h2, fun _ h2 => by simp [ho] at h2⟩

theorem Probing.of_halfOpen (hh : st r.post.brk = .HALF_OPEN) (hnf : recorded cfg r ≠ .failure)
    (hsc : sc r.post.brk = (if st r.pre.brk = .HALF_OPEN then sc r.pre.brk else 0) +
      if recorded cfg r = .success then 1 else 0) : Probing cfg st sc r := by
  refine ⟨fun h1 _ => ⟨hnf, ?_⟩, fun h1 _ => ⟨hnf, ?_⟩, fun _ h2 => by simp [hh] at h2⟩
  · rwa [if_pos h1] at hsc
  · rwa [if_neg h1, Nat.zero_add] at hsc

theorem Probing.of_same (hst : st r.post.brk = st r.pre.brk)
    (hprobe : st r.pre.brk = .HALF_OPEN →
      recorded cfg r = .uncounted ∧ sc r.post.brk = sc r.pre.brk) : Probing cfg st sc r := by
  refine ⟨fun h1 _ => ?_, fun h1 h2 => absurd (hst ▸ h2) h1, fun h1 h2 => absurd (hst ▸ h2) h1⟩
  obtain ⟨hv, hsc⟩ := hprobe h1
  exact ⟨by simp [hv], by simp [hv, hsc]⟩

theorem Probing.of_closed (hc : st r.post.brk = .CLOSED)
    (hev : isReset r = false → recorded cfg r = .success ∧ cfg.successThreshold ≤
      ((if st r.pre.brk = .HALF_OPEN then sc r.pre.brk else 0 : ℕ) : ℤ) + 1) :
    Probing cfg st sc r :=
  ⟨fun _ h2 => by simp [hc] at h2, fun _ h2 => by simp [hc] at h2, fun _ _ hr => hev hr⟩

end Shapes

theorem successes_cons (r : Rec S V) (l : List (Rec S V)) :
    successes cfg (r :: l) = successes cfg l + if recorded cfg r = .success then 1 else 0 := by
  simp [successes, List.countP_cons]

theorem Counted.step {h : List (Rec S V)} {r : Rec S V} (hc : Counted cfg st sc h r.pre)
    (hp : Probing cfg st sc r) : Counted cfg st sc (h ++ [r]) r.post := by
  intro hpost
  rw [List.reverse_append, List.reverse_singleton, List.singleton_append, epoch]
  by_cases hpre : st r.pre.brk = .HALF_OPEN
  · obtain ⟨hnf, hsc⟩ := hp.stays hpre hpost
    obtain ⟨heq, hall⟩ := hc hpre
    rw [if_pos hpre, successes_cons, ← heq]
    refine ⟨hsc, fun r' hr' => ?_⟩
    rcases List.mem_cons.mp hr' with rfl | hr'
    · exact hnf
    · exact hall r' hr'
  · obtain ⟨hnf, hsc⟩ := hp.enters hpre hpost
    rw [if_neg hpre, successes_cons]
    refine ⟨by rw [hsc]; simp [successes], fun r' hr' => ?_⟩
    rw [List.mem_singleton.mp hr']
    exact hnf

/-- The evidence on which the step `r` after the history `h` closes the breaker. -/
def Evidence (cfg : BreakerConfig) (st : S → BreakerState) (h : List (Rec S V)) (r : Rec S V) :
    Prop :=
  st r.pre.brk ≠ .CLOSED → st r.post.brk = .CLOSED → isReset r = false →
    cfg.successThreshold ≤ successes cfg (epoch st (r :: h.reverse)) ∧
      ∀ r' ∈ epoch st (r :: h.reverse), recorded cfg r' ≠ .failure

theorem Counted.evidence {h : List (Rec S V)} {r : Rec S V} (hc : Counted cfg st sc h r.pre)
    (hp : Probing cfg st sc r) : Evidence cfg st h r := by
  intro hpre hpost hr
  obtain ⟨hv, hle⟩ := hp.closes hpre hpost hr
  have hnf : recorded cfg r ≠ .failure := by simp [hv]
  rw [epoch, successes_cons, if_pos hv]
  by_cases hh : st r.pre.brk = .HALF_OPEN
  · obtain ⟨heq, hall⟩ := hc hh
    rw [if_pos hh] at hle ⊢
    refine ⟨by rw [← heq]; exact_mod_cast hle, fun r' hr' => ?_⟩
    rcases List.mem_cons.mp hr' with rfl | hr'
    · exact hnf
    · exact hall r' hr'
  · rw [if_neg hh] at hle ⊢
    refine ⟨by simpa [successes] using hle, fun r' hr' => ?_⟩
    rw [List.mem_singleton.mp hr']
    exact hnf

end Epoch

end AsyncBreaker

/-! ### The two backends -/

theorem InMemoryAsyncBreaker.probing {V : Type} {cfg : BreakerConfig}
    {r : AsyncBreaker.Rec InMemoryAsyncBreaker V} (hm : Moved (breaker cfg) cfg r) :
    Probing cfg state successCount r := by
  have hcheck : recorded cfg r = .uncounted →
      r.post.brk = maybeHalfOpen cfg r.ev.time r.pre.brk → Probing cfg state successCount r := by
    intro hv hb
    rcases maybeHalfOpen_cases cfg r.ev.time r.pre.brk with he | ⟨o, ho, -, -, he⟩
    · rw [he] at hb
      exact .of_same (by rw [hb]) fun _ => ⟨hv, by rw [hb]⟩
    · rw [he] at hb
      exact .of_halfOpen (by rw [hb]) (by simp [hv]) (by simp [hb, hv, ho])
  cases hm with
  | admission _ _ hv hb => exact hcheck hv hb
  | state _ _ hv hb => exact hcheck hv hb
  | idle _ hv hb => exact .of_same (by rw [hb]) fun _ => ⟨hv, by rw [hb]⟩
  | reset hr _ hb =>
    have hb' : r.post.brk = {} := hb
    exact .of_closed (by rw [hb']) fun h => by simp [hr] at h
  | success _ _ hv hb =>
    have hb' : r.post.brk = recordSuccess cfg r.pre.brk := hb
    by_cases hh : r.pre.brk.state = .HALF_OPEN
    · by_cases ht : cfg.successThreshold ≤ (r.pre.brk.successCount : ℤ) + 1
      · rw [recordSuccess_closes hh ht] at hb'
        exact .of_closed (by rw [hb']) fun _ => ⟨hv, by rw [if_pos hh]; exact ht⟩
      · rw [recordSuccess_counts hh (not_le.mp ht)] at hb'
        exact .of_halfOpen (by rw [hb', hh]) (by simp [hv]) (by simp [hb', hv, hh])
    · rw [recordSuccess_other hh] at hb'
      exact .of_same (by rw [hb']) fun h1 => absurd h1 hh
  | failure _ _ _ hb =>
    have hb' : r.post.brk = recordFailure cfg r.ev.time r.pre.brk := hb
    by_cases hh : r.pre.brk.state = .HALF_OPEN
    · rw [recordFailure_halfOpen hh] at hb'
      exact .of_open (by rw [hb', openLocked])
    · by_cases ht : cfg.failMax ≤ (r.pre.brk.failureCount : ℤ) + 1
      · rw [recordFailure_opens hh ht] at hb'
        exact .of_open (by rw [hb', openLocked])
      · rw [recordFailure_counts hh (not_le.mp ht)] at hb'
        exact .of_same (by rw [hb']) fun h1 => absurd h1 hh

namespace BreakerLua

theorem probing {V : Type} {cfg : BreakerConfig} {key : String} {r : Rec V}
    (hm : HashMoved cfg r (hashOf key r.pre.brk) (hashOf key r.post.brk)) :
    Probing cfg (fun db => (hashOf key db).state) (fun db => (hashOf key db).successCount) r := by
  cases hm with
  | check _ hv hb =>
    rcases checked_cases cfg r.ev.time (hashOf key r.pre.brk) with he | ⟨ho, -, he⟩
    · rw [he] at hb
      exact .of_same (by rw [hb]) fun _ => ⟨hv, by rw [hb]⟩
    · rw [he] at hb
      exact .of_halfOpen (by rw [hb]) (by simp [hv]) (by simp [hb, hv, ho])
  | idle _ hv hb => exact .of_same (by rw [hb]) fun _ => ⟨hv, by rw [hb]⟩
  | reset hr _ hb => exact .of_closed (by rw [hb]) fun h => by simp [hr] at h
  | success _ hv hb =>
    rcases checked_cases cfg r.ev.time (hashOf key r.pre.brk) with he | ⟨ho, -, he⟩
    · rw [he] at hb
      cases hst : (hashOf key r.pre.brk).state with
      | CLOSED =>
        rw [succeeded_closed hst] at hb
        exact .of_same (by rw [hb]) fun h1 => by simp [hst] at h1
      | OPEN =>
        rw [succeeded_open hst] at hb
        exact .of_open (by rw [hb, hst])
      | HALF_OPEN =>
        by_cases ht : cfg.successThreshold ≤ ((hashOf key r.pre.brk).successCount : ℤ) + 1
        · rw [succeeded_closes hst ht] at hb
          exact .of_closed (by rw [hb]) fun _ => ⟨hv, by rw [if_pos hst]; exact ht⟩
        · rw [succeeded_counts hst (not_le.mp ht)] at hb
          exact .of_halfOpen (by rw [hb, hst]) (by simp [hv]) (by simp [hb, hv, hst])
    · -- the script that records the success is the one that enters HALF_OPEN
      rw [he] at hb
      by_cases ht : cfg.successThreshold ≤ ((0 : ℕ) : ℤ) + 1
      · rw [succeeded_closes rfl ht] at hb
        exact .of_closed (by rw [hb]) fun _ => ⟨hv, by rw [if_neg (by simp [ho])]; exact ht⟩
      · rw [succeeded_counts rfl (not_le.mp ht)] at hb
        exact .of_halfOpen (by rw [hb]) (by simp [hv]) (by simp [hb, hv, ho])
  | failure _ _ hb =>
    rcases checked_cases cfg r.ev.time (hashOf key r.pre.brk) with he | ⟨ho, -, he⟩
    · rw [he] at hb
      cases hst : (hashOf key r.pre.brk).state with
      | CLOSED =>
        by_cases ht : cfg.failMax ≤ ((hashOf key r.pre.brk).failureCount : ℤ) + 1
        · rw [failed_opens hst ht] at hb
          exact .of_open (by rw [hb])
        · rw [failed_counts hst (not_le.mp ht)] at hb
          exact .of_same (by rw [hb]) fun h1 => by simp [hst] at h1
      | OPEN =>
        rw [failed_open hst] at hb
        exact .of_open (by rw [hb, hst])
      | HALF_OPEN =>
        rw [failed_halfOpen hst] at hb
        exact .of_open (by rw [hb])
    · rw [he, failed_halfOpen rfl] at hb
      exact .of_open (by rw [hb])

end BreakerLua

/-! ### Whole runs -/

section Runs

variable {V : Type}

theorem memory_counted (cfg : BreakerConfig) (es : List (Timed ℚ (Ev V))) :
    let M := InMemoryAsyncBreaker.system cfg V
    Counted cfg InMemoryAsyncBreaker.state InMemoryAsyncBreaker.successCount (M.log M.init es)
      (M.exec M.init es) := by
  intro M
  refine log_induct M (fun hh => ?_) (fun l s e hc => ?_) es
  · cases hh
  · exact Counted.step (r := M.record s e) hc (InMemoryAsyncBreaker.probing (moved _ _ _ _ _))

/-- No step since HALF_OPEN was last entered has met a hash that had expired. -/
def BreakerLua.Kindled (key : String) (h : List (BreakerLua.Rec V)) : Prop :=
  ∀ r ∈ epoch (fun db => (BreakerLua.hashOf key db).state) h, BreakerLua.Fresh key r.ev.time r.pre.brk

instance (key : String) (h : List (BreakerLua.Rec V)) : Decidable (BreakerLua.Kindled key h) :=
  inferInstanceAs (Decidable (∀ r ∈ _, _))

theorem BreakerLua.Kindled.of_halfOpen {key : String} {h : List (BreakerLua.Rec V)} {r : BreakerLua.Rec V}
    (hk : BreakerLua.Kindled key (r :: h)) (hh : (BreakerLua.hashOf key r.pre.brk).state = .HALF_OPEN) :
    BreakerLua.Kindled key h := by
  intro r' hr'
  refine hk r' ?_
  rw [epoch, if_pos hh]
  exact List.mem_cons_of_mem r hr'

theorem redis_counted {cfg : BreakerConfig} {key : String} (hT : 0 < cfg.resetTimeout)
    (es : List (Timed ℚ (Ev V))) :
    let R := BreakerLua.system cfg key V
    BreakerLua.Kindled key (R.log R.init es).reverse →
      Counted cfg (fun db => (BreakerLua.hashOf key db).state)
        (fun db => (BreakerLua.hashOf key db).successCount) (R.log R.init es) (R.exec R.init es) := by
  intro R
  refine (log_induct R (P := fun l s => BreakerLua.Wf key s.brk ∧
    (BreakerLua.Kindled key l.reverse → Counted cfg (fun db => (BreakerLua.hashOf key db).state)
      (fun db => (BreakerLua.hashOf key db).successCount) l s)) ⟨.inl rfl, fun _ hh => ?_⟩
    (fun l s e ⟨hw, hc⟩ => ?_) es).2
  · cases hh
  · have hm : Moved (BreakerLua.breaker cfg key) cfg (R.record s e) := moved _ _ _ _ _
    refine ⟨(BreakerLua.seenMoved hm hw hT).1, fun hk => ?_⟩
    rw [List.reverse_append, List.reverse_singleton, List.singleton_append] at hk
    obtain ⟨-, hmoved⟩ := BreakerLua.hashMoved hm hw (hk _ List.mem_cons_self) hT
    refine Counted.step (r := R.record s e) (fun hh => ?_) (BreakerLua.probing hmoved)
    exact hc (hk.of_halfOpen hh) hh

/-- Whole runs, in memory and over the script: a breaker that closes without a reset does so on
`successThreshold` successes recorded since HALF_OPEN was last entered, with no counted failure between them.
Over the script the hash must not have expired since. -/
theorem closes_on_recorded_evidence (cfg : BreakerConfig) (key : String)
    (es : List (Timed ℚ (Ev V))) (e : Timed ℚ (Ev V)) :
    let M := InMemoryAsyncBreaker.system cfg V
    let R := BreakerLua.system cfg key V
    Evidence cfg InMemoryAsyncBreaker.state (M.log M.init es) (M.record (M.exec M.init es) e) ∧
      (BreakerLua.Kindled key (R.record (R.exec R.init es) e :: (R.log R.init es).reverse) →
        Evidence cfg (fun db => (BreakerLua.hashOf key db).state) (R.log R.init es)
          (R.record (R.exec R.init es) e)) := by
  intro M R
  refine ⟨(memory_counted cfg es).evidence (r := M.record (M.exec M.init es) e)
    (InMemoryAsyncBreaker.probing (moved _ _ _ _ _)), fun hk => ?_⟩
  rcases le_or_gt cfg.resetTimeout 0 with hT | hT
  · intro hpre
    have hnone := BreakerLua.past_run (V := V) key hT es
    exact absurd (congrArg BreakerLua.Hash.state (BreakerLua.hashOf_none hnone)) hpre
  obtain ⟨-, hm⟩ := BreakerLua.hashMoved (r := R.record (R.exec R.init es) e) (moved _ _ _ _ _)
    (BreakerLua.wf_run hT es) (hk _ List.mem_cons_self) hT
  refine Counted.evidence (r := R.record (R.exec R.init es) e) (fun hh => ?_) (BreakerLua.probing hm)
  exact redis_counted hT es (hk.of_halfOpen hh) hh

/-- After an idle hour in CLOSED, in which the hash expires: two calls, the first fails and opens, a third is
admitted ten seconds later and enters HALF_OPEN, and the success of the second closes. -/
theorem closes_on_recorded_evidence_late_success :
    let cfg : BreakerConfig := { failMax := 1, resetTimeout := 10, successThreshold := 1 }
    let es : List (Timed ℚ (Ev ℕ)) := [⟨0, .call 0⟩, ⟨1, .finish 0 (.returned 7)⟩, ⟨3600, .call 1⟩,
      ⟨3600, .call 2⟩, ⟨3600, .finish 1 (.raised ⟨.transientError, 0⟩)⟩, ⟨3610, .call 3⟩]
    let e : Timed ℚ (Ev ℕ) := ⟨3611, .finish 2 (.returned 7)⟩
    let M := InMemoryAsyncBreaker.system cfg ℕ
    let R := BreakerLua.system cfg "cb:svc" ℕ
    let stored := fun db => (BreakerLua.hashOf "cb:svc" db).state
    (1 ≤ (successes cfg (epoch InMemoryAsyncBreaker.state
      (M.record (M.exec M.init es) e :: (M.log M.init es).reverse)) : ℤ)) ∧
    (1 ≤ (successes cfg (epoch stored (R.record (R.exec R.init es) e :: (R.log R.init es).reverse)) : ℤ)) := by
  intro cfg es e M R stored
  obtain ⟨hmemory, hredis⟩ := closes_on_recorded_evidence cfg "cb:svc" es e
  have hkindled : BreakerLua.Kindled "cb:svc" (R.record (R.exec R.init es) e :: (R.log R.init es).reverse) := by
    decide +kernel
  have hM := hmemory (by decide +kernel) (by decide +kernel) (by decide +kernel)
  have hR := hredis hkindled (by decide +kernel) (by decide +kernel) (by decide +kernel)
  exact ⟨hM.1, hR.1⟩

end Runs

/-- The successes of the calls that were admitted in the epoch itself. -/
def AsyncBreaker.probes {S V : Type} (cfg : BreakerConfig) (l : List (AsyncBreaker.Rec S V)) : ℕ :=
  l.countP fun r =>
    match r.ev.ev with
    | .finish id _ => decide (recorded cfg r = .success) && l.any fun r' =>
      match r'.ev.ev, r'.out with
      | .call id', .admitted => decide (id' = id)
      | _, _ => false
    | _ => false

/-- A call admitted before the outage closes the breaker: two calls at 0, the first fails at once and
opens, a third is admitted at 10 and enters HALF_OPEN, the second succeeds then and closes. -/
theorem late_success_closes :
    let cfg : BreakerConfig := { failMax := 1, resetTimeout := 10, successThreshold := 1 }
    let es : List (Timed ℚ (Ev ℕ)) := [⟨0, .call 1⟩, ⟨0, .call 2⟩,
      ⟨0, .finish 1 (.raised ⟨.transientError, 0⟩)⟩, ⟨10, .call 3⟩]
    let e : Timed ℚ (Ev ℕ) := ⟨10, .finish 2 (.returned 7)⟩
    let M := InMemoryAsyncBreaker.system cfg ℕ
    let R := BreakerLua.system cfg "cb:svc" ℕ
    let rM := M.record (M.exec M.init es) e
    let rR := R.record (R.exec R.init es) e
    (rM.pre.brk.state = .HALF_OPEN ∧ rM.post.brk.state = .CLOSED ∧
      probes cfg (epoch InMemoryAsyncBreaker.state (rM :: (M.log M.init es).reverse)) = 0) ∧
    ((BreakerLua.hashOf "cb:svc" rR.pre.brk).state = .HALF_OPEN ∧
      (BreakerLua.hashOf "cb:svc" rR.post.brk).state = .CLOSED ∧
      probes cfg (epoch (fun db => (BreakerLua.hashOf "cb:svc" db).state)
        (rR :: (R.log R.init es).reverse)) = 0) := by
  decide +kernel

end ResilienceKit

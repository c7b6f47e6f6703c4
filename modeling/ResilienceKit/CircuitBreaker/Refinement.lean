import ResilienceKit.CircuitBreaker.RedisClient

/-!
# CircuitBreaker.Refinement — the Redis breaker refines the in-memory one

The script keeps counting failures through OPEN and HALF_OPEN, leaves the success count behind on
closing and has the last failure where the in-memory breaker has the time of opening.  `Same` compares
in each state only what decides its future; every action keeps it, so on operations that do not overlap
the two breakers answer alike (`redis_refines_memory`).
-/

namespace ResilienceKit

open Mealy AsyncBreaker BreakerLua

/-- The hash and the in-memory breaker agree on what decides the future. -/
inductive Same (h : Hash) (m : InMemoryAsyncBreaker) : Prop
  | closed (hh : h.state = .CLOSED) (hm : m.state = .CLOSED) (hc : h.failureCount = m.failureCount)
  | opened (hh : h.state = .OPEN) (hm : m.state = .OPEN) (ho : m.openedAt = some h.lastFailure)
  | halfOpen (hh : h.state = .HALF_OPEN) (hm : m.state = .HALF_OPEN)
      (hc : h.successCount = m.successCount)

variable {cfg : BreakerConfig} {h : Hash} {m : InMemoryAsyncBreaker} {now : ℚ}

theorem Same.initial : Same {} {} := .closed rfl rfl rfl

theorem Same.state_eq (hs : Same h m) : h.state = m.state := by
  cases hs with
  | closed hh hm _ => rw [hh, hm]
  | opened hh hm _ => rw [hh, hm]
  | halfOpen hh hm _ => rw [hh, hm]

/-- The half-open checks fire together. -/
theorem Same.checked (hs : Same h m) (now : ℚ) :
    Same (checked cfg now h) (InMemoryAsyncBreaker.maybeHalfOpen cfg now m) := by
  by_cases ho : h.state = .OPEN
  · have hm : m.state = .OPEN := hs.state_eq ▸ ho
    have hoa : m.openedAt = some h.lastFailure := by
      cases hs with
      | closed hh _ _ => simp [ho] at hh
      | opened _ _ hoa => exact hoa
      | halfOpen hh _ _ => simp [ho] at hh
    unfold InMemoryAsyncBreaker.maybeHalfOpen
    rw [if_neg (not_not.mpr hm), hoa]
    by_cases ht : now - h.lastFailure ≥ cfg.resetTimeout
    · rw [checked_halfOpen ho ht]
      simp only [ht, if_true]
      exact .halfOpen rfl rfl rfl
    · rw [checked_open ho (not_le.mp ht)]
      simp only [ht, if_false]
      exact .opened ho hm hoa
  · have hm : m.state ≠ .OPEN := hs.state_eq ▸ ho
    have h2 : InMemoryAsyncBreaker.maybeHalfOpen cfg now m = m := by
      simp [InMemoryAsyncBreaker.maybeHalfOpen, hm]
    rw [checked_of_ne_open ho, h2]
    exact hs

theorem Same.succeeded (hs : Same h m) (ho : h.state ≠ .OPEN) :
    Same (succeeded cfg h) (InMemoryAsyncBreaker.recordSuccess cfg m) := by
  cases hs with
  | closed hh hm hc =>
    rw [InMemoryAsyncBreaker.recordSuccess_other (by simp [hm]), succeeded_closed hh]
    exact .closed hh hm rfl
  | opened hh _ _ => exact absurd hh ho
  | halfOpen hh hm hc =>
    by_cases ht : cfg.successThreshold ≤ (m.successCount : ℤ) + 1
    · rw [InMemoryAsyncBreaker.recordSuccess_closes hm ht, succeeded_closes hh (by rwa [hc])]
      exact .closed rfl rfl rfl
    · rw [InMemoryAsyncBreaker.recordSuccess_counts hm (not_le.mp ht),
        succeeded_counts hh (by rw [hc]; exact not_le.mp ht)]
      exact .halfOpen hh hm (congrArg (· + 1) hc)

theorem Same.failed (hs : Same h m) (ho : h.state ≠ .OPEN) (now : ℚ) :
    Same (failed cfg now h) (InMemoryAsyncBreaker.recordFailure cfg now m) := by
  cases hs with
  | closed hh hm hc =>
    have hne : m.state ≠ .HALF_OPEN := by simp [hm]
    by_cases ht : cfg.failMax ≤ (m.failureCount : ℤ) + 1
    · rw [InMemoryAsyncBreaker.recordFailure_opens hne ht, failed_opens hh (by rwa [hc])]
      exact .opened rfl rfl rfl
    · rw [InMemoryAsyncBreaker.recordFailure_counts hne (not_le.mp ht),
        failed_counts hh (by rw [hc]; exact not_le.mp ht)]
      exact .closed hh hm (congrArg (· + 1) hc)
  | opened hh _ _ => exact absurd hh ho
  | halfOpen hh hm hc =>
    rw [InMemoryAsyncBreaker.recordFailure_halfOpen hm, failed_halfOpen hh]
    exact .opened rfl rfl rfl

/-! ### One operation -/

section Client

variable {key : String} {db : Redis.Db} {V : Type}

/-- A script execution without a fault answers and computes `effect`. -/
theorem eval_none (hw : Wf key db) (hT : 0 < cfg.resetTimeout) (now : ℚ) (action : Action) :
    ∃ r db', RedisAsyncBreaker.eval cfg key now .none action db = (db', some r) ∧
      Left now key (lifetime cfg) db db' (effect cfg now action (seen now key db)) ∧
      (action = .is_available → available (checked cfg now (seen now key db)) r) := by
  obtain ⟨r, db', hrun, hl, hr, -⟩ := BREAKER_LUA_ok hw hT now action
  refine ⟨r, db', ?_, hl, hr⟩
  unfold RedisAsyncBreaker.eval
  rw [hrun]

/-- The client is healthy and its hash agrees with the in-memory breaker. -/
structure Agree (key : String) (w : World) (m : InMemoryAsyncBreaker) : Prop where
  healthy : w.client.healthy = true
  wf : Wf key w.db
  same : Same (hashOf key w.db) m

theorem Agree.initial : Agree key {} {} := ⟨rfl, .inl rfl, Same.initial⟩

/-- Recording an outcome out of OPEN. -/
theorem Agree.complete {w : World} (ha : Agree key w m) (hT : 0 < cfg.resetTimeout)
    (hf : Fresh key now w.db) (ho : (hashOf key w.db).state ≠ .OPEN) (o : Outcome V) :
    Agree key (RedisAsyncBreaker.complete cfg key .primary now .none o w)
      ((InMemoryAsyncBreaker.breaker cfg).complete cfg now o m) := by
  have hrec : ∀ action, ∃ db', RedisAsyncBreaker.record cfg key now .none action w = ⟨w.client, db'⟩ ∧
      Wf key db' ∧ hashOf key db' = acted cfg now action (hashOf key w.db) := by
    intro action
    obtain ⟨r, db', hev, hl, -⟩ := eval_none ha.wf hT now action
    refine ⟨db', by rw [RedisAsyncBreaker.record, hev], hl.wf ha.wf, ?_⟩
    rw [hl.hashOf_fresh ha.wf hf, effect, ha.wf.seen_fresh hf, checked_of_ne_open ho]
  unfold RedisAsyncBreaker.complete AsyncBreaker.complete
  cases cfg.verdict o with
  | success =>
    obtain ⟨db', hr, hw', hh⟩ := hrec .record_success
    rw [hr]
    exact ⟨ha.healthy, hw', hh ▸ ha.same.succeeded ho⟩
  | failure =>
    obtain ⟨db', hr, hw', hh⟩ := hrec .record_failure
    rw [hr]
    exact ⟨ha.healthy, hw', hh ▸ ha.same.failed ho now⟩
  | uncounted => exact ha

/-- The admission step of a call, and `state()`. -/
theorem Agree.available {w : World} (ha : Agree key w m) (hT : 0 < cfg.resetTimeout)
    (hf : Fresh key now w.db) :
    ∃ r db', RedisAsyncBreaker.eval cfg key now .none .is_available w.db = (db', some r) ∧
      Agree key ⟨w.client, db'⟩ (InMemoryAsyncBreaker.maybeHalfOpen cfg now m) ∧
      (r.flag = 0 ↔ (InMemoryAsyncBreaker.maybeHalfOpen cfg now m).state = .OPEN) ∧
      stateOf r.state = (InMemoryAsyncBreaker.maybeHalfOpen cfg now m).state := by
  obtain ⟨r, db', hev, hl, hr⟩ := eval_none ha.wf hT now .is_available
  obtain ⟨remaining, rfl⟩ := hr rfl
  have hsame : Same (checked cfg now (hashOf key w.db))
      (InMemoryAsyncBreaker.maybeHalfOpen cfg now m) := ha.same.checked now
  have hh : hashOf key db' = checked cfg now (hashOf key w.db) := by
    rw [hl.hashOf_fresh ha.wf hf, effect, ha.wf.seen_fresh hf]
    rfl
  rw [ha.wf.seen_fresh hf, hsame.state_eq] at hev
  refine ⟨_, db', hev, ⟨ha.healthy, hl.wf ha.wf, hh ▸ hsame⟩, ?_, stateOf_stateText _⟩
  show (if _ then (0 : ℤ) else 1) = 0 ↔ _
  split_ifs with ho <;> simp [ho]

/-- No script execution of an operation meets a hash whose lifetime is over. -/
def InTime (cfg : BreakerConfig) (key : String) (w : World) : Op V → Prop
  | .call t₁ _ t₂ => Fresh key t₁ w.db ∧
      Fresh key t₂ (RedisAsyncBreaker.eval cfg key t₁ .none .is_available w.db).1
  | .state t => Fresh key t w.db
  | .reset t => Fresh key t w.db

instance (w : World) : ∀ op : Op V, Decidable (InTime cfg key w op)
  | .call _ _ _ => inferInstanceAs (Decidable (_ ∧ _))
  | .state t => inferInstanceAs (Decidable (Fresh key t w.db))
  | .reset t => inferInstanceAs (Decidable (Fresh key t w.db))

/-- The two breakers on one operation: the same answer, and still in agreement. -/
def Alike (cfg : BreakerConfig) (key : String) (w : World) (m : InMemoryAsyncBreaker) (op : Op V) :
    Prop :=
  (RedisAsyncBreaker.quiet cfg key V).out w op =
      ((InMemoryAsyncBreaker.breaker cfg).sequential cfg {}).out m op ∧
    Agree key ((RedisAsyncBreaker.quiet cfg key V).next w op)
      (((InMemoryAsyncBreaker.breaker cfg).sequential cfg {}).next m op)

theorem Agree.call {w : World} (ha : Agree key w m) (hT : 0 < cfg.resetTimeout) {t₁ t₂ : ℚ}
    {o : Outcome V} (hop : InTime cfg key w (.call t₁ o t₂)) :
    Alike cfg key w m (.call t₁ o t₂) := by
  obtain ⟨hf₁, hf₂⟩ := hop
  obtain ⟨r, db', hev, ha', hflag, -⟩ := ha.available hT hf₁
  rw [hev] at hf₂
  have hadm : RedisAsyncBreaker.admission cfg key t₁ .none w =
      (⟨w.client, db'⟩, if r.flag = 0 then none else some .primary) := by
    rw [RedisAsyncBreaker.admission, if_neg (by simp [ha.healthy]), hev]
  have hstep : (RedisAsyncBreaker.quiet cfg key V).step w (.call t₁ o t₂) =
      if r.flag = 0 then (⟨w.client, db'⟩, .shortCircuit)
      else (RedisAsyncBreaker.complete cfg key .primary t₂ .none o ⟨w.client, db'⟩,
        .finished o) := by
    show RedisAsyncBreaker.apply cfg key (.call t₁ o t₂) w = _
    rw [RedisAsyncBreaker.apply, hadm]
    split_ifs <;> rfl
  set m₁ := InMemoryAsyncBreaker.maybeHalfOpen cfg t₁ m with hm₁
  have hstep' : ((InMemoryAsyncBreaker.breaker cfg).sequential cfg {}).step m (.call t₁ o t₂) =
      if m₁.state ≠ .OPEN then
        ((InMemoryAsyncBreaker.breaker cfg).complete cfg t₂ o m₁, .finished o)
      else (m₁, .shortCircuit) := by
    simp [sequential, InMemoryAsyncBreaker.breaker, InMemoryAsyncBreaker.admission, ← hm₁]
  unfold Alike Mealy.out Mealy.next
  rw [hstep, hstep']
  by_cases ho : m₁.state = .OPEN
  · rw [if_pos (hflag.mpr ho), if_neg (not_not.mpr ho)]
    exact ⟨rfl, ha'⟩
  · have ho' : (hashOf key db').state ≠ .OPEN := ha'.same.state_eq ▸ ho
    rw [if_neg (mt hflag.mp ho), if_pos ho]
    exact ⟨rfl, ha'.complete hT hf₂ ho' o⟩

theorem Agree.state {w : World} (ha : Agree key w m) (hT : 0 < cfg.resetTimeout) {t : ℚ}
    (hop : Fresh key t w.db) : Alike (V := V) cfg key w m (.state t) := by
  obtain ⟨r, db', hev, ha', -, hst⟩ := ha.available hT hop
  have hstep : (RedisAsyncBreaker.quiet cfg key V).step w (.state t) =
      (⟨w.client, db'⟩, .reported (stateOf r.state)) := by
    show RedisAsyncBreaker.state cfg key t .none w = _
    rw [RedisAsyncBreaker.state, if_neg (by simp [ha.healthy]), hev]
  unfold Alike Mealy.out Mealy.next
  rw [hstep, hst]
  exact ⟨rfl, ha'⟩

theorem Agree.reset {w : World} (ha : Agree key w m) (hT : 0 < cfg.resetTimeout) {t : ℚ}
    (hop : Fresh key t w.db) : Alike (V := V) cfg key w m (.reset t) := by
  obtain ⟨r, db', hev, hl, -⟩ := eval_none ha.wf hT t .reset
  have hrec : RedisAsyncBreaker.record cfg key t .none .reset w = ⟨w.client, db'⟩ := by
    rw [RedisAsyncBreaker.record, hev]
  have hstep : (RedisAsyncBreaker.quiet cfg key V).step w (.reset t) =
      (World.setFallback ⟨w.client, db'⟩ w.client.fallback.reset, .resetDone) := by
    show RedisAsyncBreaker.apply cfg key (.reset t) w = _
    rw [RedisAsyncBreaker.apply, RedisAsyncBreaker.reset, hrec]
  unfold Alike Mealy.out Mealy.next
  rw [hstep]
  refine ⟨rfl, ha.healthy, hl.wf ha.wf, ?_⟩
  show Same (hashOf key db') _
  rw [hl.hashOf_fresh ha.wf hop]
  exact Same.initial

/-- **Step lemma**: an operation gets the same answer from both breakers and keeps them in
agreement. -/
theorem Agree.step {w : World} (ha : Agree key w m) (hT : 0 < cfg.resetTimeout) {op : Op V}
    (hop : InTime cfg key w op) : Alike cfg key w m op := by
  cases op with
  | call t₁ o t₂ => exact ha.call hT hop
  | state t => exact ha.state hT hop
  | reset t => exact ha.reset hT hop

/-- **Refinement**: on operations that do not overlap, while Redis never errors and the hash never
expires, the Redis breaker answers what the in-memory breaker answers. -/
theorem redis_refines_memory (cfg : BreakerConfig) (key : String) (hT : 0 < cfg.resetTimeout)
    (es : List (Op V)) (hes : (RedisAsyncBreaker.quiet cfg key V).Along
      (fun _ w op => InTime cfg key w op) {} es) :
    (RedisAsyncBreaker.quiet cfg key V).outs {} es =
      ((InMemoryAsyncBreaker.breaker cfg).sequential cfg {}).outs {} es :=
  (outs_eq_of_sim (R := Agree key) Agree.initial
    (fun _ _ _ _ ha hop => ha.step hT hop) hes).1

end Client

/-- Two failures open the breaker, which refuses a call; two probes close it again. -/
theorem redis_refines_memory_opens :
    let cfg : BreakerConfig := { failMax := 2, resetTimeout := 10, successThreshold := 2 }
    let es : List (Op ℕ) := [.call 0 (.raised ⟨.transientError, 0⟩) 1, .call 2 (.raised ⟨.transientError, 1⟩) 3,
      .call 5 (.returned 7) 6, .call 14 (.returned 8) 15, .state 15, .call 16 (.returned 9) 17, .state 18]
    (RedisAsyncBreaker.quiet cfg "cb:svc" ℕ).outs {} es =
      ((InMemoryAsyncBreaker.breaker cfg).sequential cfg {}).outs {} es := by
  intro cfg es
  -- the hash is written at each step, and lives for 100 seconds
  exact redis_refines_memory cfg "cb:svc" (by decide +kernel) es (by decide +kernel)

end ResilienceKit

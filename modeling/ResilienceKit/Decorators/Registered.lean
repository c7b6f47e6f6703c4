import ResilienceKit.Decorators.OneCall
import ResilienceKit.Lib.Ensures
import ResilienceKit.Registry

/-!
# Decorators.Registered — what a wrapped call of a registered service returns

The policy comes from the registry, and nobody checks it.  `Honest` calls return what the function returned,
and tell the breaker of a success only then; all calls are honest exactly if the policy has an attempt.
-/

namespace ResilienceKit

open Program Code Py
open Retry

variable {V B : Type}

namespace ResilienceRegistry

variable (r : ResilienceRegistry B) (b : Builtins) (defaults : Defaults)

/-- `resilient(service)(func)`, on a breaker that is configured by `breakerCfg`. -/
def resilient (breakerCfg : BreakerConfig) (service : String) (funcName : Option String) (mode : Mode)
    (func : Py (Option V) (Option V)) : Py (Option V) (Option V) :=
  circuitBreaker breakerCfg (r.retryOnFailure b defaults service funcName mode func)

end ResilienceRegistry

/-- A value that is returned is one that the function returned, and so it is when the breaker has recorded a
success. -/
def Honest (run : History (Option V) × Except PyExc (Option V)) : Prop :=
  (∀ v, run.2 = .ok v → ⟨.invoke, .returned v⟩ ∈ run.1) ∧
    (.success ∈ records run.1 → ∃ v, run.2 = .ok v ∧ ⟨.invoke, .returned v⟩ ∈ run.1)

/-! ### The loop -/

section Loop

variable {args : RetryArgs} {sleep : PyNum → Py (Option V) Unit}

/-- A value that is returned is one that the function returned. -/
def Genuine (h : History (Option V)) (x : Except PyExc (Option V)) : Prop :=
  ∀ v, x = .ok v → ⟨.invoke, .returned v⟩ ∈ h

theorem genuine_error (h : History (Option V)) (e : PyExc) : Genuine h (.error e) := nofun

/-- After a failure the loop raises it. -/
theorem genuine_afterLoop (hraise : args.raiseOnFailure = true) (e : PyExc) (h : History (Option V)) :
    Ensures Genuine h (afterLoop args (some e)) := by
  refine ensures_bind_of (fun h _ => ?_) genuine_error
  simp only [hraise, if_true, ensures_throw]
  exact genuine_error h e

theorem genuine_onFailure (hraise : args.raiseOnFailure = true) (attempt : ℕ) (previousDelay : PyNum) (e : PyExc)
    {again : PyNum → Py (Option V) (Option V)} (hagain : ∀ h d, Ensures Genuine h (again d))
    (h : History (Option V)) : Ensures Genuine h (onFailure args sleep attempt previousDelay e again) := by
  unfold onFailure
  split_ifs
  · exact genuine_error h e
  · exact ensures_bind_of (fun h _ => genuine_afterLoop hraise e h) genuine_error
  · exact ensures_bind_of (fun h _ => ensures_bind_of hagain genuine_error) genuine_error
  · exact genuine_error h e

theorem genuine_attempts (hraise : args.raiseOnFailure = true) (n attempt : ℕ) {last : Option PyExc}
    (previousDelay : PyNum) (hn : 0 < n ∨ last.isSome = true) (h : History (Option V)) :
    Ensures Genuine h (attempts args sleep invoke n attempt last previousDelay) := by
  induction n generalizing attempt last previousDelay h with
  | zero =>
    obtain ⟨e, rfl⟩ := Option.isSome_iff_exists.mp (hn.resolve_left (lt_irrefl 0))
    exact genuine_afterLoop hraise e h
  | succ n ih =>
    have hfails : ∀ h e, Ensures Genuine h (onFailure args sleep attempt previousDelay e fun delay =>
        attempts args sleep invoke n (attempt + 1) (some e) delay) :=
      fun h e => genuine_onFailure hraise attempt previousDelay e
        (fun h d => ih (attempt + 1) d (.inr rfl) h) h
    refine (ensures_tryElse _ _ _).mpr ((ensures_bind _ _).mpr fun o => ?_)
    cases o with
    | raised e => exact hfails _ e
    | returned v =>
      -- whatever counting the success does, the call stands in the history
      have hmem : (⟨.invoke, .returned v⟩ : Exchange (Answer (Option V))) ∈ h ++ [⟨.invoke, .returned v⟩] :=
        List.mem_append_right h List.mem_cons_self
      show Ensures _ (h ++ [⟨.invoke, .returned v⟩]) (countSuccess args attempt >>= fun _ => pure v)
      refine (ensures_bind _ _).mpr ((ensures_true (countSuccess args attempt)).grown.mono fun h' r hgrown => ?_)
      cases r with
      | error e => exact hfails h' e
      | ok _ =>
        rintro w ⟨⟩
        exact hgrown.1.subset hmem

end Loop

/-- With an attempt at least, the wrapper returns what the function returned; without one it counts the end
under the name of the function first. -/
theorem genuine_retry {policy : RetryPolicy} {funcName : Option String}
    (hmax : 1 ≤ policy.maxAttempts ∨ funcName = none) (mode : Mode) (h : History (Option V)) :
    Ensures Genuine h (Retry.retryOnFailure policy funcName mode invoke) := by
  rw [retryOnFailure_eq]
  by_cases hone : 1 ≤ policy.maxAttempts
  · exact genuine_attempts rfl _ 0 _ (.inl (by omega)) h
  · obtain rfl := hmax.resolve_left hone
    rw [Int.toNat_of_nonpos (by omega)]
    exact genuine_error h noName

/-- Without one, and with a name, it returns `None`. -/
theorem exec_retry_none {policy : RetryPolicy} (hmax : policy.maxAttempts ≤ 0) (name : String) (mode : Mode)
    (o : Outcome (Option V)) (h : History (Option V)) : ∃ x : Exchange (Answer (Option V)),
      exec (fun _ => o.alone) h (Retry.retryOnFailure policy name mode invoke) = (h ++ [x], .ok none) ∧
      ∃ metric tags, x.1 = .incr metric tags := by
  rw [retryOnFailure_eq, Int.toNat_of_nonpos hmax]
  exact ⟨_, rfl, _, _, rfl⟩

/-! ### The registered wrappers -/

section Wrappers

variable {r : ResilienceRegistry B} {b : Builtins} {defaults : Defaults} {service : String}
  {cfg : ServiceConfig}

theorem honest_retry (hcfg : r.getConfig b defaults service = .ok cfg) {funcName : Option String}
    (hmax : 1 ≤ cfg.retry.maxAttempts ∨ funcName = none) (mode : Mode) (env : Env (Answer (Option V))) :
    Honest (exec env [] (r.retryOnFailure b defaults service funcName mode invoke)) := by
  rw [ResilienceRegistry.retryOnFailure, hcfg]
  dsimp only
  refine ⟨(genuine_retry hmax mode []).exec env, fun hs => ?_⟩
  rw [records_retry] at hs
  cases hs

theorem honest_resilient (hcfg : r.getConfig b defaults service = .ok cfg) {funcName : Option String}
    (hmax : 1 ≤ cfg.retry.maxAttempts ∨ funcName = none) (breakerCfg : BreakerConfig) (mode : Mode)
    (env : Env (Answer (Option V))) :
    Honest (exec env [] (r.resilient b defaults breakerCfg service funcName mode invoke)) := by
  rw [ResilienceRegistry.resilient, ResilienceRegistry.retryOnFailure, hcfg]
  dsimp only [circuitBreaker]
  cases ha : env [] .admission with
  | false =>
    rw [exec_breakerCall_refused ha]
    exact ⟨nofun, fun hs => by cases hs⟩
  | true =>
    have hgen := (genuine_retry hmax mode [⟨.admission, true⟩]).exec env
    have hrec := records_retry env funcName mode cfg.retry [⟨.admission, true⟩]
    rcases hf : exec env [⟨.admission, true⟩] (Retry.retryOnFailure cfg.retry funcName mode invoke)
      with ⟨h₁, x⟩
    rw [hf] at hgen hrec
    obtain ⟨h', hr, hh', hrec'⟩ := exec_breakerCall_admitted breakerCfg ha hf
    have hsub : ∀ y ∈ h₁, y ∈ h' := by
      obtain rfl | ⟨q, a, -, rfl⟩ := hh'
      · exact fun y hy => hy
      · exact fun y hy => List.mem_append_left _ hy
    rw [show exec env [] _ = (h', x) from hr]
    refine ⟨fun v hv => hsub _ (hgen v hv), fun hs => ?_⟩
    rw [hrec', hrec] at hs
    cases x with
    | ok v => exact ⟨v, rfl, hsub _ (hgen v rfl)⟩
    | error e =>
      simp only [recordsOf] at hs
      split_ifs at hs
      · cases hs
      · simp [recordOf] at hs

/-- Without an attempt `None` comes from the wrapper. -/
theorem dishonest_retry (hcfg : r.getConfig b defaults service = .ok cfg) (hmax : cfg.retry.maxAttempts ≤ 0)
    (name : String) (mode : Mode) (o : Outcome (Option V)) :
    ¬ Honest (exec (fun _ => o.alone) [] (r.retryOnFailure b defaults service name mode invoke)) := by
  rw [ResilienceRegistry.retryOnFailure, hcfg]
  dsimp only
  obtain ⟨x, hrun, metric, tags, hx⟩ := exec_retry_none hmax name mode o []
  rw [hrun]
  intro h
  have hmem := List.mem_singleton.mp (h.1 none rfl)
  rw [← hmem] at hx
  cases hx

/-- So it does behind the breaker. -/
theorem dishonest_resilient (hcfg : r.getConfig b defaults service = .ok cfg) (hmax : cfg.retry.maxAttempts ≤ 0)
    (breakerCfg : BreakerConfig) (name : String) (mode : Mode) (o : Outcome (Option V)) :
    ¬ Honest (exec (fun _ => o.alone) [] (r.resilient b defaults breakerCfg service name mode invoke)) := by
  rw [ResilienceRegistry.resilient, ResilienceRegistry.retryOnFailure, hcfg]
  dsimp only [circuitBreaker]
  obtain ⟨x, hrun, metric, tags, hx⟩ := exec_retry_none hmax name mode o [⟨.admission, true⟩]
  obtain ⟨h', hr, hh', -⟩ := exec_breakerCall_admitted (h := []) breakerCfg rfl hrun
  rw [hr]
  intro h
  have hmem := h.1 none rfl
  have hold : (⟨.invoke, .returned none⟩ : Exchange (Answer (Option V))) ∉
      ([⟨.admission, true⟩] : History (Option V)) ++ [x] := by
    intro hin
    obtain hin | hin := List.mem_append.mp hin
    · cases List.mem_singleton.mp hin
    · rw [← List.mem_singleton.mp hin] at hx
      cases hx
  obtain rfl | ⟨q, a, hq, rfl⟩ := hh'
  · exact hold hmem
  · obtain hin | hin := List.mem_append.mp hmem
    · exact hold hin
    · obtain rfl | rfl := hq <;> cases List.mem_singleton.mp hin

/-- The number of attempts of a service: that of its override, or that of the settings. -/
def Attempts (r : ResilienceRegistry B) (b : Builtins) (defaults : Defaults) (service : String) (n : ℤ) : Prop :=
  b.int ((((r.overrides service).getD {}).retry "max_attempts").getD (.int defaults.retry.maxAttempts)) = .ok n

theorem attempts_iff (hcfg : r.getConfig b defaults service = .ok cfg) :
    (∃ n, Attempts r b defaults service n ∧ 1 ≤ n) ↔ 1 ≤ cfg.retry.maxAttempts := by
  have hread := (ResilienceRegistry.retryPolicy_ok (ResilienceRegistry.getConfig_retry hcfg)).1
  constructor
  · rintro ⟨n, hn, hle⟩
    rwa [Except.ok.inj (hread.symm.trans hn)]
  · exact fun hle => ⟨_, hread, hle⟩

/-- **No fabricated results**: of a policy that the registry accepts, all calls of either wrapper are honest
exactly if it has at least one attempt, or the function has no name. -/
theorem honest_iff (breakerCfg : BreakerConfig) (funcName : Option String) (mode : Mode)
    (hcfg : r.getConfig b defaults service = .ok cfg) :
    ((∀ env : Env (Answer (Option V)),
        Honest (exec env [] (r.retryOnFailure b defaults service funcName mode invoke))) ↔
      (∃ n, Attempts r b defaults service n ∧ 1 ≤ n) ∨ funcName = none) ∧
    ((∀ env : Env (Answer (Option V)),
        Honest (exec env [] (r.resilient b defaults breakerCfg service funcName mode invoke))) ↔
      (∃ n, Attempts r b defaults service n ∧ 1 ≤ n) ∨ funcName = none) := by
  rw [attempts_iff hcfg]
  refine ⟨⟨fun h => ?_, fun hmax => honest_retry hcfg hmax mode⟩,
    ⟨fun h => ?_, fun hmax => honest_resilient hcfg hmax breakerCfg mode⟩⟩
  · cases funcName with
    | none => exact .inr rfl
    | some name =>
      refine .inl (by_contra fun hmax => ?_)
      exact dishonest_retry hcfg (by omega) name mode (.returned none) (h _)
  · cases funcName with
    | none => exact .inr rfl
    | some name =>
      refine .inl (by_contra fun hmax => ?_)
      exact dishonest_resilient hcfg (by omega) breakerCfg name mode (.returned none) (h _)

end Wrappers

/-! ### Two registrations -/

/-- A registry with one service, of which one retry field is overridden. -/
def overriding (field : String) (value : Obj) : ResilienceRegistry Unit :=
  ResilienceRegistry.registerService {} "svc" (retryOverride field value)

theorem honest_iff_defaults : ∃ cfg,
    (overriding "max_attempts" (.int 1)).getConfig silentBuiltins {} "svc" = .ok cfg ∧
    ∀ env : Env (Answer (Option ℕ)), Honest (exec env [] ((overriding "max_attempts" (.int 1)).resilient
      silentBuiltins {} {} "svc" "f" .async invoke)) :=
  ⟨_, rfl, (honest_iff {} "f" .async rfl).2.mpr (.inl ⟨1, rfl, le_rfl⟩)⟩

/-- The function raises each time, and the call of it returns `None`, which the breaker counts as a success. -/
theorem fabricated_none :
    let o : Outcome (Option ℕ) := .raised ⟨.valueError, 0⟩
    let run := exec (fun _ => o.alone) [] ((overriding "max_attempts" (.int 0)).resilient
      silentBuiltins {} {} "svc" "f" .async invoke)
    run.2 = .ok none ∧ .success ∈ records run.1 ∧ ¬ Honest run := by
  intro o run
  refine ⟨rfl, ?_, dishonest_resilient rfl (by decide) {} "f" .async o⟩
  decide +kernel

end ResilienceKit

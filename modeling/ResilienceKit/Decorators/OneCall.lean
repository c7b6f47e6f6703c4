import Mathlib.Order.Monotone.Basic
import Mathlib.Tactic.Linarith
import ResilienceKit.Decorators.Base
import ResilienceKit.Retry.Success

/-!
# Decorators.OneCall — breaker over retry, and retry over breaker

One call that nothing overlaps.  The breaker answers from its state, time passes as it likes, and the
function, the metrics sink, the random source and the sleeps do what they like (`Surroundings`).
-/

namespace ResilienceKit

open Program Code Py
open Retry

variable {V : Type}

/-- The breaker as the call finds it, what the clock reads at each exchange, and the answers of all that
is not the breaker. -/
structure Surroundings (V : Type) where
  brk : InMemoryAsyncBreaker
  clock : ℕ → ℚ
  clock_mono : Monotone clock
  answer : Env (Answer V)

namespace Surroundings

variable (cfg : BreakerConfig) (w : Surroundings V)

/-- The breaker after a history. -/
def brkAfter (h : History V) : InMemoryAsyncBreaker :=
  h.zipIdx.foldl (fun s x => (InMemoryAsyncBreaker.serve cfg (w.clock x.2) s x.1.1 x.1.2).2) w.brk

def env : Env (Answer V) := fun h q =>
  (InMemoryAsyncBreaker.serve cfg (w.clock h.length) (w.brkAfter cfg h) q (w.answer h q)).1

variable {cfg w} {h : History V}

@[simp] theorem brkAfter_nil : w.brkAfter cfg [] = w.brk := rfl

theorem brkAfter_concat (q : Ask) (a : Answer V q) : w.brkAfter cfg (h ++ [⟨q, a⟩]) =
    (InMemoryAsyncBreaker.serve cfg (w.clock h.length) (w.brkAfter cfg h) q a).2 := by
  simp [brkAfter, List.zipIdx_append, List.foldl_append]

theorem brkAfter_other {q : Ask} (hq : InMemoryAsyncBreaker.serves q = false) (a : Answer V q) :
    w.brkAfter cfg (h ++ [⟨q, a⟩]) = w.brkAfter cfg h := by
  rw [brkAfter_concat, InMemoryAsyncBreaker.serve_other hq]

/-- A call is admitted unless the half-open check leaves the breaker OPEN. -/
theorem env_admission : w.env cfg h .admission =
    decide ((InMemoryAsyncBreaker.maybeHalfOpen cfg (w.clock h.length) (w.brkAfter cfg h)).state ≠
      .OPEN) := rfl

end Surroundings

/-- What was recorded on the breaker. -/
def recordOf : Ask → Option Verdict
  | .recordSuccess => some .success
  | .recordFailure => some .failure
  | _ => none

abbrev records (h : History V) : List Verdict := seen recordOf h

/-! ### How a call of the breaker runs -/

section BreakerCall

variable {env : Env (Answer V)} {h : History V} {cfg : BreakerConfig} {func : Py V V}

theorem exec_breakerCall_refused (ha : env h .admission = false) :
    exec env h (breakerCall cfg func) =
      (h ++ [⟨.admission, false⟩], .error ⟨.serviceUnavailableError, 0⟩) := by
  rw [breakerCall, exec_bind, exec_perform]
  simp [ha]

/-- What the breaker is told of a result. -/
def recordsOf (cfg : BreakerConfig) : Except PyExc V → List Verdict
  | .ok _ => [.success]
  | .error e =>
    if isinstance e .cancelledError ∨ catches cfg.excludedExceptions e then [] else [.failure]

/-- What leaves the function is recorded, then handed on. -/
theorem exec_breakerCall_admitted (cfg : BreakerConfig) {h₁ : History V} {x : Except PyExc V}
    (ha : env h .admission = true) (hf : exec env (h ++ [⟨.admission, true⟩]) func = (h₁, x)) : ∃ h',
    exec env h (breakerCall cfg func) = (h', x) ∧
    (h' = h₁ ∨ ∃ q a, (q = .recordSuccess ∨ q = .recordFailure) ∧ h' = h₁ ++ [⟨q, a⟩]) ∧
    records h' = records h₁ ++ recordsOf cfg x := by
  rw [breakerCall, exec_bind, exec_perform]
  simp only [ha, if_true]
  rw [exec_tryElse, hf]
  rcases x with e | v
  · by_cases hc : isinstance e .cancelledError = true
    · exact ⟨h₁, by simp only [hc, if_true, exec_throw], .inl rfl, by simp [recordsOf, hc]⟩
    · by_cases hx : catches cfg.excludedExceptions e = true
      · exact ⟨h₁, by simp only [hc, hx, if_true]; rfl, .inl rfl, by simp [recordsOf, hx]⟩
      · refine ⟨h₁ ++ [⟨.recordFailure, env h₁ .recordFailure⟩], ?_, .inr ⟨_, _, .inr rfl, rfl⟩, ?_⟩
        · simp only [hc, hx]
          rfl
        · simp [recordsOf, hc, hx, recordOf]
  · exact ⟨h₁ ++ [⟨.recordSuccess, env h₁ .recordSuccess⟩], rfl, .inr ⟨_, _, .inl rfl, rfl⟩,
      by simp [recordsOf, recordOf]⟩

end BreakerCall

/-! ### The breaker outside -/

section Outside

variable (env : Env (Answer (Option V))) {policy : RetryPolicy} (funcName : Option String) (mode : Mode)

theorem retryOnFailure_eq (policy : RetryPolicy) (funcName : Option String) (mode : Mode)
    (func : Py (Option V) (Option V)) : retryOnFailure policy funcName mode func =
      attempts (policy.retryArgs funcName) mode.sleep func policy.maxAttempts.toNat 0 none
        (.float policy.waitMin) := by
  cases mode <;> rfl

/-- The retry loop does not talk to the breaker. -/
theorem records_retry (policy : RetryPolicy) (h : History (Option V)) :
    records (exec env h (retryOnFailure policy funcName mode invoke)).1 = records h := by
  have hasks : Asks (fun q : Ask => q.isAside = true ∨ q = .invoke)
      (retryOnFailure policy funcName mode (invoke : Py (Option V) (Option V))) := by
    rw [retryOnFailure_eq]
    refine asks_attempts (fun q hq => .inl hq) mode.aside_sleep ?_ _ _ _ _
    exact Asks.bind (Asks.perform (.inr rfl)) fun o => asks_fromExcept _
  refine hasks.invariant env (I := fun h' => records h' = records h) ?_ rfl
  rintro h' q hq hI
  have hnone : recordOf q = none := by
    rcases hq with hq | rfl
    · cases q <;> first | rfl | cases hq
    · rfl
  simp [hI, hnone]

theorem calls_retry (hmax : 1 ≤ policy.maxAttempts) (h : History (Option V)) :
    calls h + 1 ≤ calls (exec env h (retryOnFailure policy funcName mode invoke)).1 ∧
      (calls (exec env h (retryOnFailure policy funcName mode invoke)).1 : ℤ) ≤
        calls h + policy.maxAttempts := by
  rw [retryOnFailure_eq]
  obtain ⟨m, hm⟩ : ∃ m : ℕ, policy.maxAttempts.toNat = m + 1 :=
    Nat.exists_eq_succ_of_ne_zero (by omega)
  have hle := calls_attempts_le (policy.retryArgs funcName) env mode.aside_sleep policy.maxAttempts.toNat 0 none
    (.float policy.waitMin) h
  refine ⟨?_, by omega⟩
  rw [hm]
  exact calls_lt_attempts m 0 none (.float policy.waitMin) h

end Outside

/-- What an admitted call of `resilient` does. -/
theorem exec_resilient (cfg : BreakerConfig) {policy : RetryPolicy} (funcName : Option String) (mode : Mode)
    (hmax : 1 ≤ policy.maxAttempts) {env : Env (Answer (Option V))} (ha : env [] .admission = true) :
    let r := exec env [] (resilient cfg policy funcName mode invoke)
    1 ≤ calls r.1 ∧ (calls r.1 : ℤ) ≤ policy.maxAttempts ∧
      r.2 = (exec env [⟨.admission, true⟩] (retryOnFailure policy funcName mode invoke)).2 ∧
      records r.1 = recordsOf cfg r.2 := by
  intro r
  have hrec₁ := records_retry env funcName mode policy [⟨.admission, true⟩]
  have hcalls₁ := calls_retry env funcName mode hmax [⟨.admission, true⟩]
  rcases hf : exec env [⟨.admission, true⟩] (retryOnFailure policy funcName mode invoke) with ⟨h₁, x⟩
  rw [hf] at hrec₁ hcalls₁
  obtain ⟨h', hr, hh', hrec⟩ := exec_breakerCall_admitted cfg ha hf
  have hr' : r = (h', x) := hr
  have hcalls : calls h' = calls h₁ := by
    rcases hh' with rfl | ⟨q, a, rfl | rfl, rfl⟩ <;> simp
  rw [hr', hcalls]
  refine ⟨by simpa using hcalls₁.1, by simpa using hcalls₁.2, rfl, ?_⟩
  rw [hrec, hrec₁]
  rfl

/-- What `resilient` returns is what the last invocation returned. -/
theorem lastSeen_resilient (cfg : BreakerConfig) {policy : RetryPolicy} (funcName : Option String) (mode : Mode)
    (hmax : 1 ≤ policy.maxAttempts) {env : Env (Answer (Option V))} {h' : History (Option V)} {v : Option V}
    (hexec : exec env [] (resilient cfg policy funcName mode invoke) = (h', .ok v)) :
    lastSeen Ask.outcome? h' = some (.returned v) := by
  rw [resilient, circuitBreaker] at hexec
  cases ha : env [] .admission with
  | false =>
    rw [exec_breakerCall_refused ha] at hexec
    cases congrArg Prod.snd hexec
  | true =>
    rcases hf : exec env [⟨.admission, true⟩] (retryOnFailure policy funcName mode invoke) with ⟨h₁, x⟩
    obtain ⟨h₂, hr, hh₂, -⟩ := exec_breakerCall_admitted cfg ha hf
    cases hr.symm.trans hexec
    rw [retryOnFailure_eq] at hf
    have hlast := lastSeen_attempts rfl mode.aside_sleep policy.maxAttempts.toNat 0 none (.float policy.waitMin)
      (by omega) hf
    rcases hh₂ with rfl | ⟨q, a, rfl | rfl, rfl⟩
    · exact hlast
    · rwa [lastSeen_concat]
    · rwa [lastSeen_concat]

/-! ### The breaker inside -/

section Inside

variable {cfg : BreakerConfig} {w : Surroundings (Option V)} {h : History (Option V)}

/-- No function starts while the breaker, open at some earlier moment, has its timeout to run. -/
def Respected (cfg : BreakerConfig) (w : Surroundings (Option V)) (h : History (Option V)) : Prop :=
  ∀ p o r, h = p ++ ⟨.invoke, o⟩ :: r → ∀ p', p' <+: p → ∀ t,
    (w.brkAfter cfg p').state = .OPEN → (w.brkAfter cfg p').openedAt = some t →
      t + cfg.resetTimeout ≤ w.clock p.length

/-- A breaker that was OPEN is so still, or its timeout has elapsed. -/
def Cooled (cfg : BreakerConfig) (w : Surroundings (Option V)) (h : History (Option V)) : Prop :=
  ∀ p', p' <+: h → ∀ t,
    (w.brkAfter cfg p').state = .OPEN → (w.brkAfter cfg p').openedAt = some t →
      ((w.brkAfter cfg h).state = .OPEN ∧ (w.brkAfter cfg h).openedAt = some t) ∨
        t + cfg.resetTimeout ≤ w.clock h.length

theorem Respected.concat {q : Ask} {a : Answer (Option V) q} (hr : Respected cfg w h)
    (hq : q = .invoke → Cooled cfg w h ∧ (w.brkAfter cfg h).state ≠ .OPEN) :
    Respected cfg w (h ++ [⟨q, a⟩]) := by
  intro p o r he p' hp' t ho ht
  rcases split_concat he with ⟨-, rfl, hx⟩ | ⟨r', -, he'⟩
  · obtain ⟨hc, hne⟩ := hq (congrArg Sigma.fst hx).symm
    exact (hc p' hp' t ho ht).resolve_left fun hopen => hne hopen.1
  · exact hr p o r' he' p' hp' t ho ht

theorem Cooled.concat {q : Ask} {a : Answer (Option V) q} (hc : Cooled cfg w h)
    (hq : ∀ t, (w.brkAfter cfg h).state = .OPEN → (w.brkAfter cfg h).openedAt = some t →
      w.brkAfter cfg (h ++ [⟨q, a⟩]) = w.brkAfter cfg h ∨
        t + cfg.resetTimeout ≤ w.clock h.length) :
    Cooled cfg w (h ++ [⟨q, a⟩]) := by
  have hmono : w.clock h.length ≤ w.clock (h ++ [(⟨q, a⟩ : Exchange (Answer (Option V)))]).length :=
    w.clock_mono (by simp)
  intro p' hp' t ho ht
  rcases List.prefix_concat_iff.mp hp' with rfl | hp'
  · exact .inl ⟨ho, ht⟩
  · rcases hc p' hp' t ho ht with ⟨hopen, hat⟩ | helapsed
    · rcases hq t hopen hat with hsame | helapsed
      · exact .inl (by rw [hsame]; exact ⟨hopen, hat⟩)
      · exact .inr (helapsed.trans hmono)
    · exact .inr (helapsed.trans hmono)

/-- The admission step. -/
theorem Cooled.admission {a : Answer (Option V) .admission} (hc : Cooled cfg w h) :
    Cooled cfg w (h ++ [⟨.admission, a⟩]) := by
  refine hc.concat fun t ho ht => ?_
  rw [Surroundings.brkAfter_concat]
  rcases InMemoryAsyncBreaker.maybeHalfOpen_cases cfg (w.clock h.length) (w.brkAfter cfg h) with
    hsame | ⟨t', -, ht', helapsed, -⟩
  · exact .inl hsame
  · obtain rfl : t = t' := Option.some.inj (ht.symm.trans ht')
    exact .inr (by linarith)

/-- No attempt was short-circuited. -/
def Unrefused (h : History (Option V)) : Prop := ⟨.admission, false⟩ ∉ h

/-- What the inverted stack keeps while it goes on. -/
structure Going (cfg : BreakerConfig) (w : Surroundings (Option V)) (h : History (Option V)) :
    Prop where
  respected : Respected cfg w h
  cooled : Cooled cfg w h
  unrefused : Unrefused h

/-- How the inverted stack ends at a short-circuited attempt. -/
def Refused (cfg : BreakerConfig) (w : Surroundings (Option V))
    (r : History (Option V) × Except PyExc (Option V)) : Prop :=
  Respected cfg w r.1 ∧ (∃ p, r.1 = p ++ [⟨.admission, false⟩] ∧ Unrefused p) ∧
    r.2 = .error ⟨.serviceUnavailableError, 0⟩

theorem Unrefused.concat {q : Ask} {a : Answer (Option V) q} (hu : Unrefused h) (hq : q ≠ .admission) :
    Unrefused (h ++ [⟨q, a⟩]) := by
  intro hmem
  rcases List.mem_append.mp hmem with hmem | hmem
  · exact hu hmem
  · exact hq (congrArg Sigma.fst (List.mem_singleton.mp hmem)).symm

/-- What is not asked of the breaker, and is not the function, keeps everything. -/
theorem Going.aside {α : Type} {x : Py (Option V) α} (hx : Aside x) (hg : Going cfg w h) :
    Going cfg w (exec (w.env cfg) h x).1 := by
  refine hx.invariant (w.env cfg) (fun h q hq hg => ?_) hg
  have hserve : InMemoryAsyncBreaker.serves q = false := by
    cases q <;> first | rfl | cases hq
  refine ⟨hg.respected.concat fun hinv => ?_, hg.cooled.concat fun t _ _ => .inl ?_,
    hg.unrefused.concat ?_⟩
  · subst hinv
    cases hq
  · exact Surroundings.brkAfter_other hserve _
  · rintro rfl
    cases hq

/-- **One attempt**: it keeps everything, or is short-circuited. -/
theorem Going.attempt (hg : Going cfg w h) :
    Going cfg w (exec (w.env cfg) h (circuitBreaker cfg invoke)).1 ∨
      Refused cfg w (exec (w.env cfg) h (circuitBreaker cfg invoke)) := by
  cases ha : w.env cfg h .admission with
  | false =>
    refine .inr ?_
    rw [circuitBreaker, exec_breakerCall_refused ha]
    exact ⟨hg.respected.concat (fun hq => by cases hq), ⟨h, rfl, hg.unrefused⟩, rfl⟩
  | true =>
    refine .inl ?_
    have hstate : (w.brkAfter cfg (h ++ [⟨.admission, true⟩])).state ≠ .OPEN := by
      rw [Surroundings.brkAfter_concat]
      exact of_decide_eq_true (Surroundings.env_admission ▸ ha)
    have hg₁ : Going cfg w (h ++ [⟨.admission, true⟩]) := by
      refine ⟨hg.respected.concat (fun hq => by cases hq), hg.cooled.admission, fun hmem => ?_⟩
      rcases List.mem_append.mp hmem with hmem | hmem
      · exact hg.unrefused hmem
      · cases List.mem_singleton.mp hmem
    have hg₂ : ∀ o, Going cfg w (h ++ [⟨.admission, true⟩] ++ [⟨.invoke, o⟩]) := by
      intro o
      refine ⟨hg₁.respected.concat fun _ => ⟨hg₁.cooled, hstate⟩, hg₁.cooled.concat fun t _ _ => .inl ?_,
        hg₁.unrefused.concat (by rintro ⟨⟩)⟩
      exact Surroundings.brkAfter_other rfl o
    obtain ⟨h', hr, hh', -⟩ := exec_breakerCall_admitted cfg ha exec_invoke
    rw [circuitBreaker, hr]
    rcases hh' with rfl | ⟨q, a, hq, rfl⟩
    · exact hg₂ _
    · -- a completion finds the breaker as the admission left it
      have hclosed : (w.brkAfter cfg (h ++ [⟨.admission, true⟩] ++
          [⟨.invoke, w.env cfg (h ++ [⟨.admission, true⟩]) .invoke⟩])).state ≠ .OPEN := by
        rw [Surroundings.brkAfter_other rfl]
        exact hstate
      refine ⟨(hg₂ _).respected.concat fun hinv => ?_, (hg₂ _).cooled.concat fun t hopen _ => ?_,
        (hg₂ _).unrefused.concat ?_⟩
      · rcases hq with rfl | rfl <;> cases hinv
      · exact absurd hopen hclosed
      · rcases hq with rfl | rfl <;> rintro ⟨⟩

/-- **Run lemma**: the inverted stack keeps everything, or ends at a short-circuited attempt. -/
theorem going_or_refused (cfg : BreakerConfig) (policy : RetryPolicy) (funcName : Option String) (mode : Mode)
    (w : Surroundings (Option V)) :
    let r := exec (w.env cfg) [] (retryOnFailure policy funcName mode (circuitBreaker cfg invoke))
    Going cfg w r.1 ∨ Refused cfg w r := by
  intro r
  have hstart : Going cfg w [] := by
    refine ⟨fun p o r he => ?_, fun p' hp' t ho ht => ?_, List.not_mem_nil⟩
    · simp at he
    · obtain rfl := List.prefix_nil.mp hp'
      exact .inl ⟨ho, ht⟩
  have hr : r = exec (w.env cfg) [] (attempts (policy.retryArgs funcName) mode.sleep
      (circuitBreaker cfg invoke) policy.maxAttempts.toNat 0 none (.float policy.waitMin)) := by
    rw [← retryOnFailure_eq]
  rw [hr]
  refine attempts_keeps (fun x hx h hg => Going.aside hx hg) mode.aside_sleep (fun h hg => ?_) _ _ _ _
    hstart
  rcases hg.attempt with hg | hrefused
  · exact .inl hg
  · exact .inr ⟨hrefused, _, hrefused.2.2, rfl⟩

end Inside

/-- Breaker over retry: an OPEN breaker turns the call away; otherwise the function is called once to
`max_attempts` times, and what leaves the retry loop is what the breaker is told, once.  Retry over
breaker, for any `retry_on`: no function starts while an open breaker has its timeout to run, and the
first short-circuited attempt ends the call. -/
theorem breaker_and_retry (cfg : BreakerConfig) (policy : RetryPolicy) (funcName : Option String) (mode : Mode)
    (w : Surroundings (Option V)) (hmax : 1 ≤ policy.maxAttempts) :
    (let r := exec (w.env cfg) [] (resilient cfg policy funcName mode invoke)
     let found := (InMemoryAsyncBreaker.maybeHalfOpen cfg (w.clock 0) w.brk).state
     (found = .OPEN → calls r.1 = 0 ∧ r.2 = .error ⟨.serviceUnavailableError, 0⟩) ∧
     (found ≠ .OPEN → 1 ≤ calls r.1 ∧ (calls r.1 : ℤ) ≤ policy.maxAttempts ∧
       r.2 = (exec (w.env cfg) [⟨.admission, true⟩] (retryOnFailure policy funcName mode invoke)).2 ∧
       records r.1 = recordsOf cfg r.2)) ∧
    (let r := exec (w.env cfg) [] (retryOnFailure policy funcName mode (circuitBreaker cfg invoke))
     Respected cfg w r.1 ∧ ∀ p q, r.1 = p ++ ⟨.admission, false⟩ :: q →
       q = [] ∧ r.2 = .error ⟨.serviceUnavailableError, 0⟩) := by
  refine ⟨⟨fun hopen => ?_, fun hne => ?_⟩, ?_⟩
  · have ha : w.env cfg [] .admission = false := decide_eq_false (not_not.mpr hopen)
    rw [resilient, circuitBreaker, exec_breakerCall_refused ha]
    exact ⟨rfl, rfl⟩
  · exact exec_resilient cfg funcName mode hmax (decide_eq_true hne)
  · intro r
    rcases going_or_refused cfg policy funcName mode w with
      hg | ⟨hrespected, ⟨p₀, hp₀, hun⟩, hres⟩
    · refine ⟨hg.respected, fun p q he => absurd ?_ hg.unrefused⟩
      rw [he]
      simp
    · refine ⟨hrespected, fun p q he => ⟨?_, hres⟩⟩
      rcases split_concat (hp₀.symm.trans he) with ⟨rfl, -, -⟩ | ⟨r', -, hmem⟩
      · rfl
      · refine absurd ?_ hun
        rw [hmem]
        simp

/-- A blip inside one call of `resilient` is one success for the breaker. -/
theorem breaker_and_retry_blip :
    let policy : RetryPolicy := ⟨2, 1, 60, 2, "decorrelated", []⟩
    let w : Surroundings (Option ℕ) := {
      brk := {}
      clock := fun _ => 0
      clock_mono := monotone_const
      answer := fun h => Outcome.alone
        (if calls h = 0 then .raised ⟨.transientError, 0⟩ else .returned (some 7)) }
    let r := exec (w.env {}) [] (resilient {} policy "fetch" .async invoke)
    r.2 = .ok (some 7) ∧ records r.1 = [.success] := by
  intro policy w r
  have hr : r.2 = .ok (some 7) := by decide +kernel
  obtain ⟨-, -, -, hrec⟩ :=
    (breaker_and_retry {} policy "fetch" .async w (by decide)).1.2 (by decide)
  refine ⟨hr, hrec.trans ?_⟩
  show recordsOf {} r.2 = [.success]
  rw [hr]
  rfl

end ResilienceKit

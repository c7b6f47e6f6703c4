import ResilienceKit.CircuitBreaker.RedisCall

/-!
# CircuitBreaker.RedisSteps — the code of a call and the two steps of the machine

`RedisCall.call` asks; here a `World` answers, with its clock and with one fault for the script of the
admission and one for the script of the record.  `call_steps` says that the call then does what
`RedisAsyncBreaker.admission` and `RedisAsyncBreaker.complete` do.
-/

namespace ResilienceKit.RedisCall

open Program Code
open BreakerLua (Action Reply)
open RedisAsyncBreaker (Fault Machine)

/-- The clock at the two steps of a call, the faults of their scripts, and how the function ends. -/
structure Setting (V : Type) where
  start : ℚ
  finish : ℚ
  admissionFault : Fault
  recordFault : Fault
  outcome : Outcome V

/-- The world, and whether the function has been invoked. -/
structure Scene where
  world : World
  invoked : Bool := false

namespace Setting

variable {V : Type} (w : Setting V)

def now (s : Scene) : ℚ := if s.invoked then w.finish else w.start

def fault (s : Scene) : Fault := if s.invoked then w.recordFault else w.admissionFault

end Setting

/-- An execution of the script as the client sees it. -/
def tripOf (fault : Fault) : Option Reply → Trip Reply
  | some r => .answered r
  | none =>
    if fault = .before then .before ⟨.redisError, 0⟩ (by decide) (by decide)
    else .after ⟨.redisError, 0⟩ (by decide) (by decide)

theorem tripOf_result (fault : Fault) (reply : Option Reply) :
    (tripOf fault reply).result = match reply with
      | some r => .ok r
      | none => .error ⟨.redisError, 0⟩ := by
  unfold tripOf
  cases reply with
  | some r => rfl
  | none =>
    simp only
    split_ifs <;> rfl

variable {V : Type} (cfg : BreakerConfig) (key : String) (w : Setting V)

/-- The world answers. -/
def serve (s : Scene) : (q : Ask) → Answer V q × Scene
  | .healthy => (s.world.client.healthy, s)
  | .markDegraded _ => ((), { s with world := ⟨s.world.client.markDegraded (w.now s), s.world.db⟩ })
  | .shaCached => (true, s)
  | .scriptLoad => (.answered (), s)
  | .evalsha action =>
    let r := RedisAsyncBreaker.eval cfg key (w.now s) (w.fault s) action s.world.db
    (tripOf (w.fault s) r.2, { s with world := ⟨s.world.client, r.1⟩ })
  | .invoke => (w.outcome, { s with invoked := true })
  | .fallbackAdmission =>
    let r := InMemoryAsyncBreaker.admission cfg (w.now s) s.world.client.fallback
    (r.2.admitted, { s with world := s.world.setFallback r.1 })
  | .fallbackSuccess =>
    ((), { s with world := s.world.setFallback (s.world.client.fallback.recordSuccess cfg) })
  | .fallbackFailure =>
    ((), { s with world := s.world.setFallback (s.world.client.fallback.recordFailure cfg (w.now s)) })

variable {cfg key w} {s : Scene}

/-! ### The parts of the code -/

@[simp] theorem play_fromExcept {α : Type} (x : Except PyExc α) :
    play (serve cfg key w) s (fromExcept x : Py V α) = (s, x) := by
  cases x <;> rfl

/-- With a cached script `_eval` is one execution. -/
theorem play_eval (action : Action) : play (serve cfg key w) s (eval action : Py V Reply) =
    match RedisAsyncBreaker.eval cfg key (w.now s) (w.fault s) action s.world.db with
    | (db, some r) => ({ s with world := ⟨s.world.client, db⟩ }, .ok r)
    | (db, none) => ({ s with world := ⟨s.world.client, db⟩ }, .error ⟨.redisError, 0⟩) := by
  rw [eval, play_bind, play_perform]
  simp only [serve]
  show play (serve cfg key w) s (tryElse _ _ _) = _
  rw [play_tryElse, evalsha, play_bind, play_perform]
  simp only [serve, play_fromExcept, tripOf_result]
  rcases RedisAsyncBreaker.eval cfg key (w.now s) (w.fault s) action s.world.db with ⟨db, _ | r⟩
  · rfl
  · rfl

theorem play_record (action : Action) : play (serve cfg key w) s (record action : Py V Unit) =
    ({ s with world := RedisAsyncBreaker.record cfg key (w.now s) (w.fault s) action s.world }, .ok ()) := by
  rw [record, play_tryElse, play_eval, RedisAsyncBreaker.record]
  rcases RedisAsyncBreaker.eval cfg key (w.now s) (w.fault s) action s.world.db with ⟨db, _ | r⟩
  · rfl
  · rfl

/-- From the function on: its result is recorded as its verdict says, and handed on. -/
theorem play_guarded (recordFailure recordSuccess : Py V Unit) (failure success : World)
    (hf : play (serve cfg key w) { s with invoked := true } recordFailure = (⟨failure, true⟩, .ok ()))
    (hs : play (serve cfg key w) { s with invoked := true } recordSuccess = (⟨success, true⟩, .ok ())) :
    play (serve cfg key w) s (guarded cfg recordFailure recordSuccess) =
      (⟨match cfg.verdict w.outcome with
        | .success => success
        | .failure => failure
        | .uncounted => s.world, true⟩, w.outcome.result) := by
  have hinvoke : play (serve cfg key w) s (invoke : Py V V) =
      ({ s with invoked := true }, w.outcome.result) := by
    rw [invoke, play_bind, play_perform]
    exact play_fromExcept _
  rw [guarded, play_tryElse, hinvoke]
  cases ho : w.outcome with
  | returned v =>
    simp only [Outcome.result, BreakerConfig.verdict]
    rw [play_bind, hs]
    rfl
  | raised e =>
    simp only [Outcome.result, BreakerConfig.verdict]
    by_cases hcancel : isinstance e .cancelledError = true
    · simp only [hcancel, if_true]
      rfl
    · by_cases hx : catches cfg.excludedExceptions e = true
      · simp only [hcancel, hx, if_true]
        rfl
      · simp only [hcancel, hx]
        show play _ _ (recordFailure >>= fun _ => throw e) = _
        rw [play_bind, hf]
        rfl

theorem play_primary (world : World) : play (serve cfg key w) ⟨world, false⟩
    (guarded cfg (record .record_failure) (record .record_success)) =
      (⟨RedisAsyncBreaker.complete cfg key .primary w.finish w.recordFault w.outcome world, true⟩,
        w.outcome.result) := by
  rw [play_guarded (s := ⟨world, false⟩) _ _ _ _ (play_record .record_failure) (play_record .record_success)]
  rfl

theorem play_fallback (world : World) : play (serve cfg key w) ⟨world, false⟩ (fallbackCall cfg) =
    match RedisAsyncBreaker.admissionFallback cfg w.start world with
    | (world', none) => (⟨world', false⟩, .error ⟨.serviceUnavailableError, 0⟩)
    | (world', some m) =>
      (⟨RedisAsyncBreaker.complete cfg key m w.finish w.recordFault w.outcome world', true⟩,
        w.outcome.result) := by
  have hserve : serve cfg key w ⟨world, false⟩ .fallbackAdmission =
      ((InMemoryAsyncBreaker.admission cfg w.start world.client.fallback).2.admitted,
        ⟨world.setFallback (InMemoryAsyncBreaker.admission cfg w.start world.client.fallback).1, false⟩) := rfl
  rw [fallbackCall, play_ask, hserve, RedisAsyncBreaker.admissionFallback]
  rcases InMemoryAsyncBreaker.admission cfg w.start world.client.fallback with ⟨m, a⟩
  cases ha : a.admitted with
  | true =>
    simp only [ha, if_true]
    rw [play_guarded _ _ _ _ rfl rfl]
    simp only [RedisAsyncBreaker.complete, AsyncBreaker.complete]
    cases cfg.verdict w.outcome <;> rfl
  | false =>
    simp only [ha, Bool.false_eq_true, if_false]
    rfl

/-- The call and the world in turn. -/
theorem call_steps (world : World) : play (serve cfg key w) ⟨world, false⟩ (call cfg) =
    match RedisAsyncBreaker.admission cfg key w.start w.admissionFault world with
    | (world', none) => (⟨world', false⟩, .error ⟨.serviceUnavailableError, 0⟩)
    | (world', some m) =>
      (⟨RedisAsyncBreaker.complete cfg key m w.finish w.recordFault w.outcome world', true⟩,
        w.outcome.result) := by
  have hserve : serve cfg key w ⟨world, false⟩ .healthy = (world.client.healthy, ⟨world, false⟩) := rfl
  rw [call, play_ask, hserve, RedisAsyncBreaker.admission]
  cases hh : world.client.healthy with
  | false =>
    simp only [Bool.not_false, if_true, Bool.false_eq_true, not_false_eq_true]
    exact play_fallback world
  | true =>
    simp only [Bool.not_true, Bool.false_eq_true, if_false, not_true_eq_false]
    have heval : play (serve cfg key w) ⟨world, false⟩ (eval .is_available : Py V Reply) =
        match RedisAsyncBreaker.eval cfg key w.start w.admissionFault .is_available world.db with
        | (db, some r) => (⟨⟨world.client, db⟩, false⟩, .ok r)
        | (db, none) => (⟨⟨world.client, db⟩, false⟩, .error ⟨.redisError, 0⟩) := play_eval .is_available
    rw [play_tryElse, heval]
    rcases RedisAsyncBreaker.eval cfg key w.start w.admissionFault .is_available world.db with ⟨db, _ | r⟩
    · exact play_fallback ⟨world.client.markDegraded w.start, db⟩
    · by_cases hflag : r.flag = 0
      · simp only [hflag, if_true]
        rfl
      · simp only [hflag, if_false]
        exact play_primary ⟨world.client, db⟩

/-- **The code and the machine agree**: a run of the call against the world leaves the world as the two steps
of the machine do, and gives the caller what they give. -/
theorem call_agrees (world : World) :
    (stateAfter (serve cfg key w) ⟨world, false⟩
        (exec (envOf (serve cfg key w) ⟨world, false⟩) [] (call cfg)).1,
      (exec (envOf (serve cfg key w) ⟨world, false⟩) [] (call cfg)).2) =
    match RedisAsyncBreaker.admission cfg key w.start w.admissionFault world with
    | (world', none) => (⟨world', false⟩, .error ⟨.serviceUnavailableError, 0⟩)
    | (world', some m) =>
      (⟨RedisAsyncBreaker.complete cfg key m w.finish w.recordFault w.outcome world', true⟩,
        w.outcome.result) := by
  obtain ⟨hstate, hresult⟩ := exec_envOf (serve cfg key w) ⟨world, false⟩ (call cfg)
  rw [hstate, hresult]
  exact call_steps world

end ResilienceKit.RedisCall

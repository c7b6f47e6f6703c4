import ResilienceKit.Cache.RedisClient
import ResilienceKit.CircuitBreaker.RedisCall
import ResilienceKit.Health.Tasks
import ResilienceKit.Throttle.RedisClient

/-!
# Health.Flags — the health flags of the three Redis backends

The methods of `RedisAsyncBreaker`, `RedisAsyncThrottle` and `RedisAsyncCache` as the tasks of a backend, each
await answered in any way.  The flags stay consistent and probes keep their distance; of a throttle that fails
closed, `allowed` comes from the script alone.
-/

namespace ResilienceKit

open Mealy (Timed Clocked)
open Program Code RedisHealth

/-! ### The methods -/

namespace BreakerCalls

open BreakerLua (Action Reply stateOf)

/-- What the methods await: what `call` asks, and the fallback's other two methods. -/
inductive Await
  | asked (q : RedisCall.Ask)
  | fallbackState
  | fallbackReset

@[reducible] def Result (V : Type) : Await → Type
  | .asked q => RedisCall.Answer V q
  | .fallbackState => BreakerState
  | .fallbackReset => Unit

variable {V : Type}

abbrev Py (V α : Type) := RedisHealth.Py (Result V) α

def ask : (q : RedisCall.Ask) → Py V (RedisCall.Answer V q)
  | .healthy => perform RedisHealth.Ask.healthy
  | .markDegraded exc => markDegraded exc
  | .shaCached => await (Await.asked .shaCached)
  | .scriptLoad => await (Await.asked .scriptLoad)
  | .evalsha action => await (Await.asked (.evalsha action))
  | .invoke => await (Await.asked .invoke)
  | .fallbackAdmission => await (Await.asked .fallbackAdmission)
  | .fallbackSuccess => await (Await.asked .fallbackSuccess)
  | .fallbackFailure => await (Await.asked .fallbackFailure)

def call (cfg : BreakerConfig) : Py V V := translate ask (RedisCall.call cfg)

/-- `_eval`. -/
def eval (action : Action) : Py V Reply := translate ask (RedisCall.eval action)

def state : Py V BreakerState := do
  let healthy : Bool ← perform RedisHealth.Ask.healthy
  if !healthy then await Await.fallbackState
  else degrading (eval .is_available) (await Await.fallbackState) fun res => return stateOf res.state

def reset : Py V Unit := do
  degrading (eval .reset) (pure ()) (fun _ => pure ())
  await Await.fallbackReset

inductive Request
  | call
  | state
  | reset
  | healthCheck
  | tryRecover

inductive Returned (V : Type)
  | result (v : V)
  | state (s : BreakerState)
  | done
  | health (snapshot : HealthSnapshot)
  | recovered (b : Bool)

def method (cfg : BreakerConfig) : Request → Py V (Returned V)
  | .call => do return .result (← call cfg)
  | .state => do return .state (← state)
  | .reset => do
    reset
    return .done
  | .healthCheck => do
    return .health (← healthCheck "redis unreachable; serving via in-memory fallback")
  | .tryRecover => do return .recovered (← tryRecover)

end BreakerCalls

namespace ThrottleCalls

open RedisAsyncThrottle (Config decision)
open SlidingWindow (Reply)

inductive Request
  | check (key : String) (rate : Rate)
  | reset (key : String)
  | healthCheck
  | tryRecover

inductive Returned
  | decided (d : ThrottleDecision)
  | done
  | health (snapshot : HealthSnapshot)
  | recovered (b : Bool)
  deriving DecidableEq

def method (cfg : Config) : Request → Py Returned
  | .check key rate => do return .decided (← check cfg key rate)
  | .reset key => do
    reset key
    return .done
  | .healthCheck => do
    return .health (← healthCheck "redis unreachable; serving via in-memory fallback")
  | .tryRecover => do return .recovered (← tryRecover)

variable {cfg : Config} {P : RedisHealth.Ask Await → Prop}

/-- The questions of the methods, but for the fallback of a `check`. -/
theorem asks_method (hflag : ∀ q, Flagged q → (∀ i, q ≠ .probeDue i) → P q)
    (hp : P (.probeDue cfg.probeInterval)) (hawait : ∀ c, (∀ key rate, c ≠ .fallbackCheck key rate) → P (.await c))
    (hcheck : cfg.failMode = .open → ∀ key rate, P (.await (.fallbackCheck key rate))) (m : Request) :
    Asks P (method cfg m) := by
  have hstep : ∀ c : Await, (∀ key rate, c ≠ .fallbackCheck key rate) →
      Asks P (await c : Py (Result c)) := fun c hc => asks_await (hawait c hc)
  have heval : ∀ key rate, Asks P (eval key rate) := by
    intro key rate
    have hrun : Asks P (tryElse (await (Await.evalsha key rate))
        (fun exc => if isinstance exc .noScriptError then do
            await Await.scriptLoad
            await (Await.evalsha key rate)
          else throw exc) fun res => return res : Py Reply) := by
      refine .tryElse (hstep (.evalsha key rate) (by simp)) (fun exc => ?_) fun res => .pure _
      split_ifs
      · exact .bind (hstep .scriptLoad (by simp)) fun _ => hstep (.evalsha key rate) (by simp)
      · exact .throw _
    refine .bind (hstep .sha (by simp)) fun cached => ?_
    cases cached with
    | false => exact .bind (hstep .scriptLoad (by simp)) fun _ => hrun
    | true => exact hrun
  have hdegraded : ∀ key rate, Asks P (degradedDecision cfg key rate) := by
    intro key rate
    unfold degradedDecision
    cases hmode : cfg.failMode with
    | «open» => exact asks_await (hcheck hmode key rate)
    | closed => exact .bind (hstep .now (by simp)) fun _ => .pure _
  cases m with
  | check key rate =>
    exact .bind (asks_guarded hflag hp (heval key rate) (hdegraded key rate) fun res =>
      .bind (hstep .now (by simp)) fun _ => .pure _) fun _ => .pure _
  | reset key =>
    refine .bind (.bind (asks_degrading (fun exc => hflag _ (by simp [Flagged]) (by simp))
      (hstep (.delete key) (by simp)) (.pure _) fun _ => .pure _) fun _ =>
      hstep (.fallbackReset key) (by simp)) fun _ => .pure _
  | healthCheck => exact .bind (asks_healthCheck hflag _) fun _ => .pure _
  | tryRecover => exact .bind (asks_tryRecover hflag) fun _ => .pure _

/-! ### Failing closed -/

/-- The script ran for this key and rate, let the request in, and the decision is its reply. -/
def Scripted (key : String) (rate : Rate) (h : List (Exchange (RedisHealth.Answer Result)))
    (d : ThrottleDecision) : Prop :=
  ∃ reply now, ⟨.await (.evalsha key rate), .ok reply⟩ ∈ h ∧ reply.allowed ≠ 0 ∧ d = decision now rate reply

theorem ensures_eval (key : String) (rate : Rate) (h : List (Exchange (RedisHealth.Answer Result))) :
    Ensures (ends (fun h reply => ⟨.await (.evalsha key rate), .ok reply⟩ ∈ h) fun _ _ => True) h
      (eval key rate) := by
  have hcall : ∀ h, Ensures (ends (fun h reply => ⟨.await (.evalsha key rate), .ok reply⟩ ∈ h) fun _ _ => True) h
      (await (Await.evalsha key rate) : Py Reply) := by
    intro h
    refine (ensures_await _).mpr fun r => ?_
    cases r with
    | ok reply => exact List.mem_append_right _ (List.mem_singleton.mpr rfl)
    | error exc => trivial
  have hrun : ∀ h, Ensures (ends (fun h reply => ⟨.await (.evalsha key rate), .ok reply⟩ ∈ h) fun _ _ => True) h
      (tryElse (await (Await.evalsha key rate))
        (fun exc => if isinstance exc .noScriptError then do
            await Await.scriptLoad
            await (Await.evalsha key rate)
          else throw exc) fun res => return res : Py Reply) := by
    intro h
    refine (ensures_tryElse _ _ _).mpr ((hcall h).mono fun h r hr => ?_)
    cases r with
    | ok reply => exact hr
    | error exc =>
      simp only [ends]
      split_ifs
      · exact ensures_bind_of (fun h _ => hcall h) fun _ _ => trivial
      · trivial
  refine ensures_bind_of (fun h cached => ?_) fun _ _ => trivial
  cases cached with
  | false => exact ensures_bind_of (fun h _ => hrun h) fun _ _ => trivial
  | true => exact hrun h

/-- A throttle that fails closed lets nobody in but by the script. -/
theorem check_closed (hclosed : cfg.failMode = .closed) (key : String) (rate : Rate)
    (h : List (Exchange (RedisHealth.Answer Result))) :
    Ensures (ends (fun h d => d.allowed = true → Scripted key rate h d) fun _ _ => True) h
      (check cfg key rate) := by
  refine ensures_guarded (fun h => ?_) (fun _ _ => trivial) fun h => (ensures_eval key rate h).mono ?_
  · rw [degradedDecision, hclosed]
    exact ensures_bind_of (fun h now hallowed => by cases hallowed) fun _ _ => trivial
  · rintro h r hr
    cases r with
    | error exc => trivial
    | ok reply =>
      simp only [ends]
      refine (ensures_bind _ _).mpr ((ensures_await _).mpr fun r => ?_)
      cases r with
      | error exc => trivial
      | ok now =>
        intro hallowed
        exact ⟨reply, now, List.mem_append_left _ hr, by simpa [decision] using hallowed, rfl⟩

theorem method_closed (hclosed : cfg.failMode = .closed) (m : Request) :
    Ensures (fun h r => ∀ d, r = .ok (.decided d) → d.allowed = true →
      ∃ key rate, m = .check key rate ∧ Scripted key rate h d) [] (method cfg m) := by
  cases m with
  | check key rate =>
    refine (ensures_bind _ _).mpr ((check_closed hclosed key rate []).mono fun h r hr => ?_)
    cases r with
    | ok d =>
      rintro d' heq hallowed
      obtain rfl : d = d' := by simpa using heq
      exact ⟨key, rate, rfl, hr hallowed⟩
    | error exc =>
      rintro d ⟨⟩
  | reset key => exact ensures_bind_of (fun h _ d heq => by cases heq) fun h e d heq => by cases heq
  | healthCheck => exact ensures_bind_of (fun h _ d heq => by cases heq) fun h e d heq => by cases heq
  | tryRecover => exact ensures_bind_of (fun h _ d heq => by cases heq) fun h e d heq => by cases heq

end ThrottleCalls

namespace CacheCalls

open RedisAsyncCache (Config Request Out)

def operation (interval : ℚ) : Cache.Op → Py Cache.Ans
  | .get key => do return .got (← get interval key)
  | .set key value ttl => do
    set interval key value ttl
    return .stored
  | .add key value ttl => do return .added (← add interval key value ttl)
  | .incr key amount ttl => do return .counted (← incr key amount ttl)
  | .delete key => do
    delete interval key
    return .deleted

def method (cfg : Config) : Request → Py Out
  | .op op => do return .ans (← operation cfg.probeInterval op)
  | .healthCheck => do return .health (← healthCheck ("redis unreachable; alias=" ++ cfg.cacheAlias))
  | .tryRecover => do return .recovered (← tryRecover)

theorem asks_method {cfg : Config} {P : RedisHealth.Ask Await → Prop}
    (hflag : ∀ q, Flagged q → (∀ i, q ≠ .probeDue i) → P q) (hp : P (.probeDue cfg.probeInterval))
    (hawait : ∀ c, P (.await c)) (m : Request) : Asks P (method cfg m) := by
  have hstep : ∀ c : Await, Asks P (await c : Py (Result c)) := fun c => asks_await (hawait c)
  cases m with
  | op op =>
    refine .bind ?_ fun _ => .pure _
    cases op with
    | get key => exact .bind (asks_guarded hflag hp (hstep _) (hstep _) fun _ => .pure _) fun _ => .pure _
    | set key value ttl =>
      exact .bind (asks_guarded hflag hp (hstep _) (hstep _) fun _ => .pure _) fun _ => .pure _
    | add key value ttl =>
      exact .bind (asks_guarded hflag hp (hstep _) (hstep _) fun _ => .pure _) fun _ => .pure _
    | incr key amount ttl =>
      refine .bind (.bind ?_ fun n => ?_) fun _ => .pure _
      · unfold change
        split_ifs
        · exact hstep _
        · exact hstep _
      · cases ttl with
        | none => exact .pure _
        | some seconds =>
          simp only
          split_ifs
          · exact .bind (hstep _) fun _ => .pure _
          · exact .pure _
    | delete key => exact .bind (asks_guarded hflag hp (hstep _) (hstep _) fun _ => .pure _) fun _ => .pure _
  | healthCheck => exact .bind (asks_healthCheck hflag _) fun _ => .pure _
  | tryRecover => exact .bind (asks_tryRecover hflag) fun _ => .pure _

end CacheCalls

/-! ### Whole runs -/

namespace RedisHealth

variable {C M α : Type} {R : C → Type}

/-- The history of the calls of a backend. -/
abbrev history (method : M → Py R α) (es : List (TaskEvent M R)) : List (TaskStep M R α) :=
  (backend method).log (backend method).init es

/-- The calls of a backend after a run. -/
abbrev after (method : M → Py R α) (es : List (TaskEvent M R)) : Tasks M R α :=
  (backend method).exec (backend method).init es

/-- Consistent flags, and one warning between two recoveries as long as no recovery finds the backend
recovered. -/
structure FlagsHold (method : M → Py R α) (es : List (TaskEvent M R)) : Prop where
  consistent : (after method es).shared.Consistent
  warned : OneWarning (notices (history method es)) ↔ FindsDegraded method es

theorem flagsHold (method : M → Py R α) (es : List (TaskEvent M R)) : FlagsHold method es :=
  ⟨consistent method es, warns_once_iff method es⟩

open ThrottleCalls (Await Result Request Returned)

/-- Every check that has let its request in was decided by the script, and no check asked the fallback. -/
structure LetInByScript (cfg : RedisAsyncThrottle.Config) (es : List (TaskEvent Request Result)) : Prop where
  scripted : ∀ id d,
    ((after (ThrottleCalls.method cfg) es).threads id).bind Pool.result = some (.ok (.decided d)) →
      d.allowed = true → ∃ key rate reply now,
      ⟨.called, .check key rate⟩ ∈ Pool.exchanges id (history (ThrottleCalls.method cfg) es) ∧
      ⟨.asked (.await (.evalsha key rate)), .ok reply⟩ ∈
        Pool.exchanges id (history (ThrottleCalls.method cfg) es) ∧
      reply.allowed ≠ 0 ∧ d = RedisAsyncThrottle.decision now rate reply
  noFallback : ∀ id, ∀ x ∈ Pool.exchanges id (history (ThrottleCalls.method cfg) es),
    ∀ key rate, x.1 ≠ .asked (.await (.fallbackCheck key rate))

theorem letInByScript {cfg : RedisAsyncThrottle.Config} (hclosed : cfg.failMode = .closed)
    (es : List (TaskEvent Request Result)) : LetInByScript cfg es := by
  constructor
  · intro id d hdone hallowed
    obtain ⟨m, h, hpost, hex⟩ := Pool.ensures
      (task_ensures fun m => ThrottleCalls.method_closed hclosed m) es id _ hdone
    obtain ⟨key, rate, rfl, reply, now, hmem, hreply, rfl⟩ := hpost d rfl hallowed
    have hown : Pool.exchanges id (history (ThrottleCalls.method cfg) es) = _ := hex
    refine ⟨key, rate, reply, now, ?_, ?_, hreply, rfl⟩
    · rw [hown]
      exact List.mem_cons_self
    · rw [hown]
      exact List.mem_cons_of_mem _ (List.mem_map_of_mem hmem)
  · rintro id x hx key rate heq
    have hasks : ∀ m, Asks (fun q => ∀ key rate, q ≠ .await (.fallbackCheck key rate))
        (ThrottleCalls.method cfg m) := by
      refine ThrottleCalls.asks_method (fun q hq _ key rate => hq _) (by simp) (fun c hc key rate => ?_) ?_
      · intro heq
        exact hc key rate (RedisHealth.Ask.await.inj heq)
      · intro hopen
        rw [hclosed] at hopen
        cases hopen
    exact Pool.asks_exchanges (task_asks hasks) hx _ heq key rate rfl

/-- For each of the three backends and every interleaving of its calls, with any answers: the flags stay
consistent; between two consecutive recoveries there is exactly one warning if and only if every recovery but
the first finds the backend degraded; throttle and cache never start two probes within the probe interval; and
a throttle that fails closed lets requests in by the script only. -/
theorem health_flags (V : Type) (breaker : BreakerConfig) (throttle : RedisAsyncThrottle.Config)
    (cache : RedisAsyncCache.Config) :
    (∀ es, FlagsHold (BreakerCalls.method (V := V) breaker) es) ∧
    (∀ es, FlagsHold (ThrottleCalls.method throttle) es ∧
      (Clocked es → Spaced throttle.probeInterval (history (ThrottleCalls.method throttle) es)) ∧
      (throttle.failMode = .closed → LetInByScript throttle es)) ∧
    ∀ es, FlagsHold (CacheCalls.method cache) es ∧
      (Clocked es → Spaced cache.probeInterval (history (CacheCalls.method cache) es)) := by
  have hflag : ∀ {C : Type} {interval : ℚ} (q : RedisHealth.Ask C), Flagged q → (∀ i, q ≠ .probeDue i) →
      ProbesEvery interval q := fun q _ hq i heq => absurd heq (hq i)
  have hprobe : ∀ {C : Type} {interval : ℚ}, ProbesEvery interval (.probeDue interval : RedisHealth.Ask C) := by
    intro C interval i heq
    exact (RedisHealth.Ask.probeDue.inj heq).symm
  have hawait : ∀ {C : Type} {interval : ℚ} (c : C), ProbesEvery interval (.await c : RedisHealth.Ask C) := by
    rintro C interval c i ⟨⟩
  refine ⟨fun es => flagsHold _ es, fun es => ⟨flagsHold _ es, fun hc => ?_, fun hclosed => ?_⟩,
    fun es => ⟨flagsHold _ es, fun hc => ?_⟩⟩
  · exact probes_spaced (fun m => ThrottleCalls.asks_method hflag hprobe (fun c _ => hawait c)
      (fun _ _ _ => hawait _) m) hc
  · exact letInByScript hclosed es
  · exact probes_spaced (fun m => CacheCalls.asks_method hflag hprobe hawait m) hc

/-- What a task is called for, and what Redis answers it. -/
def replies (request : M) (pong : Bool) (result : (c : C) → Except PyExc (R c)) :
    (q : TaskAsk C) → TaskAnswer M R q
  | .called => request
  | .asked .healthy => true
  | .asked .degradedSince => none
  | .asked (.markDegraded _) => ()
  | .asked .recover => ()
  | .asked (.probeDue _) => false
  | .asked .ping => if pong then .ok () else .error ⟨.redisError, 0⟩
  | .asked (.await c) => result c

/-- A check that the script lets in. -/
def admission : List (TaskEvent Request Result) :=
  let reply := replies (.check "k" ⟨1, 1⟩) true fun
    | .sha => .ok true
    | .scriptLoad => .ok ()
    | .evalsha _ _ => .ok ⟨1, 1, 1⟩
    | .delete _ => .ok ()
    | .now => .ok 0
    | .fallbackCheck _ _ => .error ⟨.redisError, 0⟩
    | .fallbackReset _ => .ok ()
  [⟨0, .spawn 0⟩, ⟨0, .resume 0 reply⟩, ⟨0, .resume 0 reply⟩, ⟨0, .resume 0 reply⟩, ⟨0, .resume 0 reply⟩,
    ⟨0, .resume 0 reply⟩]

theorem health_flags_admission : Clocked admission ∧
    Spaced 30 (history (ThrottleCalls.method { failMode := .closed }) admission) ∧
    LetInByScript { failMode := .closed } admission ∧
    ((after (ThrottleCalls.method { failMode := .closed }) admission).threads 0).bind Pool.result =
      some (.ok (.decided (RedisAsyncThrottle.decision 0 ⟨1, 1⟩ ⟨1, 1, 1⟩))) := by
  have hc : Clocked admission := by decide
  obtain ⟨-, hspaced, hscript⟩ := (health_flags Unit {} { failMode := .closed } {}).2.1 admission
  exact ⟨hc, hspaced hc, hscript rfl, by decide +kernel⟩

/-- Two calls of `try_recover` whose `PING`s are both under way while the cache is degraded. -/
def overlappingRecoveries : List (TaskEvent RedisAsyncCache.Request CacheCalls.Result) :=
  let failing := replies .healthCheck false fun _ => .error ⟨.redisError, 0⟩
  let recovering := replies .tryRecover true fun _ => .error ⟨.redisError, 0⟩
  [⟨0, .spawn 0⟩, ⟨0, .resume 0 failing⟩, ⟨0, .resume 0 failing⟩, ⟨0, .resume 0 failing⟩, ⟨0, .resume 0 failing⟩,
    ⟨1, .spawn 1⟩, ⟨1, .resume 1 recovering⟩, ⟨1, .resume 1 recovering⟩,
    ⟨1, .spawn 2⟩, ⟨1, .resume 2 recovering⟩, ⟨1, .resume 2 recovering⟩,
    ⟨2, .resume 1 recovering⟩, ⟨2, .resume 1 recovering⟩, ⟨2, .resume 2 recovering⟩, ⟨2, .resume 2 recovering⟩]

theorem recovers_twice : Clocked overlappingRecoveries ∧
    notices (history (CacheCalls.method {}) overlappingRecoveries) = [.degraded, .recovered, .recovered] ∧
    ¬ OneWarning (notices (history (CacheCalls.method {}) overlappingRecoveries)) := by
  have hnotices : notices (history (CacheCalls.method {}) overlappingRecoveries) =
      [.degraded, .recovered, .recovered] := by
    decide +kernel
  refine ⟨by decide, hnotices, fun h => ?_⟩
  rw [hnotices] at h
  cases h [.degraded] [] [] rfl (by simp)

end RedisHealth

end ResilienceKit

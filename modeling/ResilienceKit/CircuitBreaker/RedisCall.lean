import ResilienceKit.CircuitBreaker.RedisClient
import ResilienceKit.Lib.Program

/-!
# CircuitBreaker.RedisCall — `RedisAsyncBreaker.call`, one round trip after the other

Every round trip to Redis can fail by itself, before or after the server has run the script, and a
`NoScriptError` makes `_eval` load the script and run it again.  `call` is the code with all its questions;
`accounts_once` is what it keeps to under every pattern of answers.
-/

namespace ResilienceKit

open Program Code
open BreakerLua (Action Reply)

/-- How a round trip ends.  A `NoScriptError` says that the server had no script to run. -/
inductive Trip (α : Type)
  | answered (a : α)
  | noScript (e : PyExc) (hn : isinstance e .noScriptError = true) (hr : isinstance e .redisError = true)
  | before (e : PyExc) (hn : isinstance e .noScriptError = false)
      (hr : isinstance e .redisError = true)
  | after (e : PyExc) (hn : isinstance e .noScriptError = false) (hr : isinstance e .redisError = true)

namespace Trip

variable {α : Type}

/-- What the client of the round trip gets. -/
def result : Trip α → Except PyExc α
  | answered a => .ok a
  | noScript e _ _ => .error e
  | before e _ _ => .error e
  | after e _ _ => .error e

/-- The server ran the script. -/
def executed : Trip α → Bool
  | answered _ => true
  | noScript _ _ _ => false
  | before _ _ _ => false
  | after _ _ _ => true

def isAnswered : Trip α → Bool
  | answered _ => true
  | _ => false

theorem redisError_of_error {t : Trip α} {e : PyExc} (h : t.result = .error e) :
    isinstance e .redisError = true := by
  cases t with
  | answered a => cases h
  | noScript e' hn hr => cases h; exact hr
  | before e' hn hr => cases h; exact hr
  | after e' hn hr => cases h; exact hr

/-- Only a server without the script raises `NoScriptError`. -/
theorem executed_of_noScript {t : Trip α} {e : PyExc} (h : t.result = .error e)
    (hn : isinstance e .noScriptError = true) : t.executed = false ∧ t.isAnswered = false := by
  cases t with
  | answered a => cases h
  | noScript e' hn' hr => exact ⟨rfl, rfl⟩
  | before e' hn' hr => exact ⟨rfl, rfl⟩
  | after e' hn' hr =>
    cases h
    rw [hn] at hn'
    cases hn'

end Trip

namespace RedisCall

/-- What `call` asks: the flag of the client, the script cache, the round trips, the caller's function and
the three steps of the embedded fallback. -/
inductive Ask
  | healthy
  | markDegraded (exc : PyExc)
  | shaCached
  | scriptLoad
  | evalsha (action : Action)
  | invoke
  | fallbackAdmission
  | fallbackSuccess
  | fallbackFailure

@[reducible] def Answer (V : Type) : Ask → Type
  | .healthy => Bool
  | .markDegraded _ => Unit
  | .shaCached => Bool
  | .scriptLoad => Trip Unit
  | .evalsha _ => Trip Reply
  | .invoke => Outcome V
  | .fallbackAdmission => Bool
  | .fallbackSuccess => Unit
  | .fallbackFailure => Unit

abbrev Py (V α : Type) := Code Ask (Answer V) PyExc α

abbrev History (V : Type) := List (Exchange (Answer V))

variable {V : Type}

def fromExcept {α : Type} : Except PyExc α → Py V α
  | .ok a => pure a
  | .error e => throw e

def invoke : Py V V := do
  let o ← perform Ask.invoke
  fromExcept (Outcome.result o)

def scriptLoad : Py V Unit := do
  let t ← perform Ask.scriptLoad
  fromExcept (Trip.result t)

def evalsha (action : Action) : Py V Reply := do
  let t ← perform (Ask.evalsha action)
  fromExcept (Trip.result t)

/-- `_eval`. -/
def eval (action : Action) : Py V Reply := do
  let cached : Bool ← perform Ask.shaCached
  if !cached then scriptLoad
  tryElse (evalsha action)
    (fun exc =>
      if isinstance exc .noScriptError then do
        scriptLoad
        evalsha action
      else throw exc)
    (fun res => return res)

/-- `_mark_degraded`. -/
def markDegraded (exc : PyExc) : Py V Unit := do
  let _ ← perform (Ask.markDegraded exc)

/-- `_record`. -/
def record (action : Action) : Py V Unit :=
  tryElse (eval action)
    (fun exc => if isinstance exc .redisError then markDegraded exc else throw exc)
    (fun _ => pure ())

/-- The part of a `call` from the function on, which the two machines share up to their recorders. -/
def guarded (cfg : BreakerConfig) (recordFailure recordSuccess : Py V Unit) : Py V V :=
  tryElse invoke
    (fun exc =>
      if isinstance exc .cancelledError then throw exc
      else if catches cfg.excludedExceptions exc then throw exc
      else do
        recordFailure
        throw exc)
    (fun result => do
      recordSuccess
      return result)

/-- `self._fallback.call(func)`. -/
def fallbackCall (cfg : BreakerConfig) : Py V V := do
  let admitted : Bool ← perform Ask.fallbackAdmission
  if admitted then
    guarded cfg (do let _ ← perform Ask.fallbackFailure) (do let _ ← perform Ask.fallbackSuccess)
  else throw ⟨.serviceUnavailableError, 0⟩

/-- `RedisAsyncBreaker.call`. -/
def call (cfg : BreakerConfig) : Py V V := do
  let healthy : Bool ← perform Ask.healthy
  if !healthy then fallbackCall cfg
  else
    tryElse (eval .is_available)
      (fun exc =>
        if isinstance exc .redisError then do
          markDegraded exc
          fallbackCall cfg
        else throw exc)
      (fun res =>
        if res.flag = 0 then throw ⟨.serviceUnavailableError, 0⟩
        else guarded cfg (record .record_failure) (record .record_success))

/-! ### What is counted -/

/-- An invocation of the caller's function. -/
def invoked : Exchange (Answer V) → Bool
  | ⟨.invoke, _⟩ => true
  | _ => false

/-- A machine has decided: the script answered, or the fallback was asked. -/
def decided : Exchange (Answer V) → Bool
  | ⟨.evalsha .is_available, t⟩ => Trip.isAnswered t
  | ⟨.fallbackAdmission, _⟩ => true
  | _ => false

/-- The decision lets the call in. -/
def admits : Exchange (Answer V) → Bool
  | ⟨.evalsha .is_available, .answered res⟩ => res.flag ≠ 0
  | ⟨.fallbackAdmission, admitted⟩ => admitted
  | _ => false

/-- A machine has recorded the outcome: the script ran, whatever the client got, or the fallback did. -/
def recorded : Exchange (Answer V) → Bool
  | ⟨.evalsha .record_success, t⟩ => Trip.executed t
  | ⟨.evalsha .record_failure, t⟩ => Trip.executed t
  | ⟨.fallbackSuccess, _⟩ => true
  | ⟨.fallbackFailure, _⟩ => true
  | _ => false

/-! ### How the round trips run -/

variable {env : Env (Answer V)} {h : History V}

@[simp] theorem exec_fromExcept {α : Type} (x : Except PyExc α) :
    exec env h (fromExcept x : Py V α) = (h, x) := by
  cases x <;> rfl

theorem exec_scriptLoad : exec env h (scriptLoad : Py V Unit) =
    (h ++ [⟨.scriptLoad, env h .scriptLoad⟩], (env h .scriptLoad).result) := by
  rw [scriptLoad, exec_bind, exec_perform]
  exact exec_fromExcept _

theorem exec_evalsha (action : Action) : exec env h (evalsha action : Py V Reply) =
    (h ++ [⟨.evalsha action, env h (.evalsha action)⟩], (env h (.evalsha action)).result) := by
  rw [evalsha, exec_bind, exec_perform]
  exact exec_fromExcept _

theorem exec_invoke : exec env h (invoke : Py V V) =
    (h ++ [⟨.invoke, env h .invoke⟩], (env h .invoke).result) := by
  rw [invoke, exec_bind, exec_perform]
  exact exec_fromExcept _

/-- What a run of `_eval` adds to the history, and how it ends. -/
structure Evaluated (action : Action) (h : History V) (r : History V × Except PyExc Reply) : Prop where
  grown : ∃ added, r.1 = h ++ added ∧ added.countP invoked = 0 ∧
    added.countP decided = (if action = .is_available ∧ r.2.isOk then 1 else 0) ∧
    (added.countP recorded ≤ if action = .is_available then 0 else 1) ∧
    ∀ x ∈ added, decided x = true → ∃ res, r.2 = .ok res ∧ x = ⟨.evalsha .is_available, .answered res⟩
  redis : ∀ e, r.2 = .error e → isinstance e .redisError = true

theorem decided_evalsha (action : Action) (t : Trip Reply) :
    decided (V := V) ⟨.evalsha action, t⟩ = (decide (action = .is_available) && t.isAnswered) := by
  cases action <;> simp [decided]

theorem recorded_evalsha_le (action : Action) (t : Trip Reply) :
    (if recorded (V := V) ⟨.evalsha action, t⟩ then 1 else 0) ≤
      if action = .is_available then 0 else if t.executed then 1 else 0 := by
  cases action <;> simp [recorded] <;> split_ifs <;> simp_all

/-- One execution of the script. -/
theorem evaluated_evalsha (env : Env (Answer V)) (action : Action) (h : History V) :
    Evaluated action h (exec env h (evalsha action)) := by
  rw [exec_evalsha]
  generalize env h (.evalsha action) = t
  refine ⟨⟨[⟨.evalsha action, t⟩], rfl, rfl, ?_, ?_, ?_⟩, fun e he => Trip.redisError_of_error he⟩
  · rw [List.countP_singleton, decided_evalsha]
    cases t <;> simp [Trip.isAnswered, Trip.result, Except.isOk, Except.toBool]
  · rw [List.countP_singleton]
    refine (recorded_evalsha_le action t).trans ?_
    split_ifs <;> simp
  · intro x hx hd
    obtain rfl := List.mem_singleton.mp hx
    rw [decided_evalsha, Bool.and_eq_true] at hd
    obtain rfl : action = .is_available := of_decide_eq_true hd.1
    cases t with
    | answered res => exact ⟨res, rfl, rfl⟩
    | noScript e hn hr => cases hd.2
    | before e hn hr => cases hd.2
    | after e hn hr => cases hd.2

/-- An exchange that none of the counts notices. -/
def Silent (x : Exchange (Answer V)) : Prop :=
  invoked x = false ∧ decided x = false ∧ recorded x = false

theorem Evaluated.of_silent {action : Action} {r : History V × Except PyExc Reply} {pre : History V}
    (hpre : ∀ x ∈ pre, Silent x) (he : Evaluated action (h ++ pre) r) : Evaluated action h r := by
  obtain ⟨⟨added, hr, hi, hd, hc, ha⟩, hredis⟩ := he
  have h0 : ∀ p : Exchange (Answer V) → Bool, (∀ x ∈ pre, p x = false) → pre.countP p = 0 := by
    intro p hp
    rw [List.countP_eq_zero]
    intro x hx
    simp [hp x hx]
  refine ⟨⟨pre ++ added, by rw [hr, List.append_assoc], ?_, ?_, ?_, ?_⟩, hredis⟩
  · rw [List.countP_append, h0 _ fun x hx => (hpre x hx).1, hi]
  · rw [List.countP_append, h0 _ fun x hx => (hpre x hx).2.1, hd, Nat.zero_add]
  · rw [List.countP_append, h0 _ fun x hx => (hpre x hx).2.2, Nat.zero_add]
    exact hc
  · intro x hx hx'
    rcases List.mem_append.mp hx with hx | hx
    · rw [(hpre x hx).2.1] at hx'
      cases hx'
    · exact ha x hx hx'

/-- A round trip that ends in an error before anything counts. -/
theorem Evaluated.of_error {action : Action} {pre : History V} {e : PyExc}
    (hpre : ∀ x ∈ pre, Silent x) (hr : isinstance e .redisError = true) :
    Evaluated action h (h ++ pre, .error e) := by
  refine Evaluated.of_silent hpre ⟨⟨[], by simp, rfl, ?_, by simp, by simp⟩,
    fun e' he => by cases he; exact hr⟩
  simp [Except.isOk, Except.toBool]

theorem silent_scriptLoad (t : Trip Unit) : Silent (V := V) ⟨.scriptLoad, t⟩ := ⟨rfl, rfl, rfl⟩

theorem silent_shaCached (b : Bool) : Silent (V := V) ⟨.shaCached, b⟩ := ⟨rfl, rfl, rfl⟩

/-- The script did not run. -/
theorem silent_evalsha {action : Action} {t : Trip Reply} (he : t.executed = false)
    (ha : t.isAnswered = false) : Silent (V := V) ⟨.evalsha action, t⟩ := by
  refine ⟨rfl, by rw [decided_evalsha, ha, Bool.and_false], ?_⟩
  have hle := recorded_evalsha_le (V := V) action t
  rw [he] at hle
  simpa using hle

/-- `EVALSHA`, with the reload that a `NoScriptError` asks for. -/
theorem evaluated_reload (env : Env (Answer V)) (action : Action) (h : History V) :
    Evaluated action h (exec env h (tryElse (evalsha action)
      (fun exc => if isinstance exc .noScriptError then (do scriptLoad; evalsha action) else throw exc)
      (fun res => return res))) := by
  have hfirst := evaluated_evalsha env action h
  rw [exec_tryElse]
  rw [exec_evalsha] at hfirst ⊢
  cases hres : (env h (.evalsha action)).result with
  | ok res =>
    rw [hres] at hfirst
    exact hfirst
  | error e =>
    rw [hres] at hfirst
    by_cases hn : isinstance e .noScriptError = true
    · obtain ⟨hexec, hans⟩ := Trip.executed_of_noScript hres hn
      have hsilent : Silent ⟨.evalsha action, env h (.evalsha action)⟩ := silent_evalsha (V := V) hexec hans
      simp only [hn, if_true]
      rw [exec_bind, exec_scriptLoad]
      cases hload : (env (h ++ [⟨.evalsha action, env h (.evalsha action)⟩]) .scriptLoad).result with
      | error e' =>
        simp only
        rw [List.append_assoc]
        refine Evaluated.of_error ?_ (Trip.redisError_of_error hload)
        intro x hx
        rcases List.mem_append.mp hx with hx | hx <;> rw [List.mem_singleton.mp hx]
        · exact hsilent
        · exact silent_scriptLoad _
      | ok u =>
        simp only
        rw [List.append_assoc]
        refine Evaluated.of_silent ?_ (evaluated_evalsha env action _)
        intro x hx
        rcases List.mem_append.mp hx with hx | hx <;> rw [List.mem_singleton.mp hx]
        · exact hsilent
        · exact silent_scriptLoad _
    · simp only [hn]
      exact hfirst

/-- **`_eval`**: under every pattern of faults the script runs at most once, and answers once or not. -/
theorem evaluated_eval (env : Env (Answer V)) (action : Action) (h : History V) :
    Evaluated action h (exec env h (eval action)) := by
  rw [eval, exec_bind, exec_perform]
  simp only
  cases hc : env h .shaCached with
  | true =>
    refine Evaluated.of_silent ?_ (evaluated_reload env action (h ++ [⟨.shaCached, true⟩]))
    intro x hx
    rw [List.mem_singleton.mp hx]
    exact silent_shaCached true
  | false =>
    show Evaluated action h (exec env (h ++ [⟨.shaCached, false⟩]) (scriptLoad >>= fun _ => _))
    rw [exec_bind, exec_scriptLoad]
    have hsilent : ∀ t, ∀ x ∈ [⟨.shaCached, false⟩] ++ [⟨.scriptLoad, t⟩], Silent (V := V) x := by
      intro t x hx
      rcases List.mem_append.mp hx with hx | hx <;> rw [List.mem_singleton.mp hx]
      · exact silent_shaCached false
      · exact silent_scriptLoad t
    cases hload : (env (h ++ [⟨.shaCached, false⟩]) .scriptLoad).result with
    | error e =>
      simp only
      rw [List.append_assoc]
      exact Evaluated.of_error (hsilent _) (Trip.redisError_of_error hload)
    | ok u =>
      simp only
      rw [List.append_assoc]
      exact Evaluated.of_silent (hsilent _) (evaluated_reload env action _)

/-! ### From the admission on -/

/-- What a recorder adds: no invocation, no decision, at most one record, and never an exception. -/
def Records (env : Env (Answer V)) (recorder : Py V Unit) : Prop :=
  ∀ h, ∃ added, exec env h recorder = (h ++ added, .ok ()) ∧ added.countP invoked = 0 ∧
    added.countP decided = 0 ∧ added.countP recorded ≤ 1

theorem records_fallbackSuccess (env : Env (Answer V)) :
    Records env (do let _ ← perform Ask.fallbackSuccess) :=
  fun h => ⟨[⟨.fallbackSuccess, env h .fallbackSuccess⟩], rfl, rfl, rfl, le_rfl⟩

theorem records_fallbackFailure (env : Env (Answer V)) :
    Records env (do let _ ← perform Ask.fallbackFailure) :=
  fun h => ⟨[⟨.fallbackFailure, env h .fallbackFailure⟩], rfl, rfl, rfl, le_rfl⟩

/-- `_record` swallows every error of a round trip. -/
theorem records_record (env : Env (Answer V)) {action : Action} (ha : action ≠ .is_available) :
    Records env (record action) := by
  intro h
  obtain ⟨⟨added, hr, hi, hd, hc, -⟩, hredis⟩ := evaluated_eval env action h
  rw [if_neg (by simp [ha])] at hd
  rw [if_neg ha] at hc
  rw [record, exec_tryElse]
  generalize exec env h (eval action) = r at hr hredis ⊢
  rcases r with ⟨h', e | res⟩
  · obtain rfl : h' = h ++ added := hr
    have hredis' : isinstance e .redisError = true := hredis e rfl
    refine ⟨added ++ [⟨.markDegraded e, ()⟩], ?_, ?_, ?_, ?_⟩
    · simp only [hredis', if_true]
      rw [markDegraded, exec_bind, exec_perform, List.append_assoc]
      rfl
    · rw [List.countP_append, hi]
      rfl
    · rw [List.countP_append, hd]
      rfl
    · rw [List.countP_append]
      exact hc
  · obtain rfl : h' = h ++ added := hr
    exact ⟨added, rfl, hi, hd, hc⟩

/-- From the function on: its own result or exception, and one record at most. -/
theorem exec_guarded (cfg : BreakerConfig) {recordFailure recordSuccess : Py V Unit}
    (hf : Records env recordFailure) (hs : Records env recordSuccess) (h : History V) :
    ∃ o added, exec env h (guarded cfg recordFailure recordSuccess) =
        (h ++ ⟨.invoke, o⟩ :: added, o.result) ∧ added.countP invoked = 0 ∧
      added.countP decided = 0 ∧ added.countP recorded ≤ 1 ∧
      (cfg.verdict o = .uncounted → added.countP recorded = 0) := by
  refine ⟨env h .invoke, ?_⟩
  rw [guarded, exec_tryElse, exec_invoke]
  cases ho : env h .invoke with
  | returned v =>
    obtain ⟨added, hr, hi, hd, hc⟩ := hs (h ++ [⟨.invoke, .returned v⟩])
    refine ⟨added, ?_, hi, hd, hc, fun hv => by cases hv⟩
    show exec env _ (recordSuccess >>= fun _ => pure v) = _
    rw [exec_bind, hr, List.append_assoc]
    rfl
  | raised e =>
    simp only [Outcome.result]
    by_cases hcancel : isinstance e .cancelledError = true
    · exact ⟨[], by rw [if_pos hcancel]; rfl, rfl, rfl, by simp, fun _ => rfl⟩
    · by_cases hx : catches cfg.excludedExceptions e = true
      · exact ⟨[], by rw [if_neg hcancel, if_pos hx]; rfl, rfl, rfl, by simp, fun _ => rfl⟩
      · obtain ⟨added, hr, hi, hd, hc⟩ := hf (h ++ [⟨.invoke, .raised e⟩])
        refine ⟨added, ?_, hi, hd, hc, fun hv => ?_⟩
        · rw [if_neg hcancel, if_neg hx, exec_bind, hr, List.append_assoc]
          rfl
        · simp [BreakerConfig.verdict, hcancel, hx] at hv

/-! ### The whole call -/

/-- What a call keeps to. -/
structure AccountsOnce (cfg : BreakerConfig) (r : History V × Except PyExc V) : Prop where
  /-- One machine decides, and the function is invoked as it decided: once, or not. -/
  decided : r.1.countP decided = 1
  acts : ∀ x ∈ r.1, RedisCall.decided x = true → r.1.countP invoked = if admits x then 1 else 0
  /-- At most one record, over both machines. -/
  recorded : r.1.countP recorded ≤ 1
  /-- The caller gets what the function gave; what does not count is not recorded. -/
  outcome : ∀ o, ⟨.invoke, o⟩ ∈ r.1 →
    r.2 = o.result ∧ (cfg.verdict o = .uncounted → r.1.countP RedisCall.recorded = 0)
  refused : r.1.countP invoked = 0 →
    r.2 = .error ⟨.serviceUnavailableError, 0⟩ ∧ r.1.countP RedisCall.recorded = 0

/-- The part of a run up to the decision of a machine. -/
structure Decides (pre : History V) (admitted : Bool) : Prop where
  invoked : pre.countP invoked = 0
  decided : pre.countP decided = 1
  recorded : pre.countP recorded = 0
  admits : ∀ x ∈ pre, RedisCall.decided x = true → admits x = admitted

theorem invoke_notMem {added : History V} (hi : added.countP invoked = 0) (o : Outcome V) :
    ⟨.invoke, o⟩ ∉ added := by
  intro hmem
  have hnone := List.countP_eq_zero.mp hi _ hmem
  exact hnone rfl

theorem accountsOnce_refused (cfg : BreakerConfig) {pre : History V} (hd : Decides pre false) :
    AccountsOnce cfg (pre, .error ⟨.serviceUnavailableError, 0⟩) where
  decided := hd.decided
  acts x hx hx' := by rw [hd.admits x hx hx']; exact hd.invoked
  recorded := hd.recorded.trans_le (by simp)
  outcome o ho := absurd ho (invoke_notMem hd.invoked o)
  refused _ := ⟨rfl, hd.recorded⟩

theorem accountsOnce_guarded (cfg : BreakerConfig) {recordFailure recordSuccess : Py V Unit}
    (hf : Records env recordFailure) (hs : Records env recordSuccess) {pre : History V}
    (hd : Decides pre true) : AccountsOnce cfg (exec env pre (guarded cfg recordFailure recordSuccess)) := by
  obtain ⟨o, added, hr, hi, hdec, hc, hu⟩ := exec_guarded cfg hf hs pre
  have hdecided : ∀ x ∈ ⟨.invoke, o⟩ :: added, decided x = false := by
    intro x hx
    rcases List.mem_cons.mp hx with rfl | hx
    · rfl
    · simpa using List.countP_eq_zero.mp hdec x hx
  have hinv : (pre ++ ⟨.invoke, o⟩ :: added).countP invoked = 1 := by
    rw [List.countP_append, hd.invoked, List.countP_cons, hi]
    rfl
  have hrec : (pre ++ ⟨.invoke, o⟩ :: added).countP recorded = added.countP recorded := by
    rw [List.countP_append, hd.recorded, List.countP_cons, Nat.zero_add]
    rfl
  rw [hr]
  refine ⟨?_, fun x hx hx' => ?_, hrec.trans_le hc, fun o' ho' => ?_, fun h0 => ?_⟩
  · rw [List.countP_append, hd.decided, List.countP_cons, hdec]
    rfl
  · rcases List.mem_append.mp hx with hx | hx
    · rw [hd.admits x hx hx']
      exact hinv
    · rw [hdecided x hx] at hx'
      cases hx'
  · have ho : o' = o := by
      rcases List.mem_append.mp ho' with hmem | hmem
      · exact absurd hmem (invoke_notMem hd.invoked o')
      · rcases List.mem_cons.mp hmem with heq | hmem
        · cases heq
          rfl
        · exact absurd hmem (invoke_notMem hi o')
    subst ho
    exact ⟨rfl, fun hv => hrec.trans (hu hv)⟩
  · rw [hinv] at h0
    cases h0

/-- A call that the fallback serves. -/
theorem accountsOnce_fallback (cfg : BreakerConfig) {pre : History V} (hi : pre.countP invoked = 0)
    (hd : pre.countP decided = 0) (hc : pre.countP recorded = 0) :
    AccountsOnce cfg (exec env pre (fallbackCall cfg)) := by
  have hdecides : ∀ b, Decides (pre ++ [⟨.fallbackAdmission, b⟩]) b := by
    intro b
    refine ⟨?_, ?_, ?_, fun x hx hx' => ?_⟩
    · rw [List.countP_append, hi]
      rfl
    · rw [List.countP_append, hd]
      rfl
    · rw [List.countP_append, hc]
      rfl
    · rcases List.mem_append.mp hx with hx | hx
      · exact absurd hx' (List.countP_eq_zero.mp hd x hx)
      · obtain rfl := List.mem_singleton.mp hx
        rfl
  rw [fallbackCall, exec_bind, exec_perform]
  cases hb : env pre .fallbackAdmission with
  | true =>
    simp only [if_true]
    exact accountsOnce_guarded cfg (records_fallbackFailure env) (records_fallbackSuccess env)
      (hdecides true)
  | false => exact accountsOnce_refused cfg (hdecides false)

/-- Under every pattern of answers, at every round trip, and whatever the function does: one machine
decides, the function is invoked as it decided and never twice, what it gave reaches the caller, and it
is recorded at most once over both machines. -/
theorem accounts_once (cfg : BreakerConfig) (env : Env (Answer V)) :
    AccountsOnce cfg (exec env [] (call cfg)) := by
  rw [call, exec_bind, exec_perform]
  cases hhealthy : env [] .healthy with
  | false =>
    simp only [Bool.not_false, if_true]
    exact accountsOnce_fallback cfg rfl rfl rfl
  | true =>
    simp only [Bool.not_true, Bool.false_eq_true, if_false]
    obtain ⟨⟨added, hr, hi, hd, hc, ha⟩, hredis⟩ :=
      evaluated_eval env .is_available ([] ++ [⟨.healthy, true⟩])
    rw [exec_tryElse]
    generalize exec env ([] ++ [⟨.healthy, true⟩]) (eval .is_available) = r at hr hd ha hredis ⊢
    rcases r with ⟨h', e | res⟩
    · obtain rfl : h' = [] ++ [⟨.healthy, true⟩] ++ added := hr
      have hredis' : isinstance e .redisError = true := hredis e rfl
      simp only [hredis', if_true]
      rw [markDegraded, exec_bind, exec_bind, exec_perform]
      refine accountsOnce_fallback cfg ?_ ?_ ?_
      · simp [hi, invoked]
      · simp [hd, decided, Except.isOk, Except.toBool]
      · simp [Nat.le_zero.mp hc, recorded]
    · obtain rfl : h' = [] ++ [⟨.healthy, true⟩] ++ added := hr
      have hdecides : Decides ([] ++ [⟨.healthy, true⟩] ++ added) (decide (res.flag ≠ 0)) := by
        refine ⟨?_, ?_, ?_, fun x hx hx' => ?_⟩
        · simp [hi, invoked]
        · simp [hd, decided, Except.isOk, Except.toBool]
        · simp [Nat.le_zero.mp hc, recorded]
        · rcases List.mem_append.mp hx with hx | hx
          · obtain rfl := List.mem_singleton.mp hx
            cases hx'
          · obtain ⟨res', hres, rfl⟩ := ha x hx hx'
            cases hres
            rfl
      by_cases hflag : res.flag = 0
      · simp only [hflag, if_true]
        exact accountsOnce_refused cfg (by simpa [hflag] using hdecides)
      · simp only [hflag, if_false]
        exact accountsOnce_guarded cfg (records_record env (by decide)) (records_record env (by decide))
          (by simpa [hflag] using hdecides)

end RedisCall

end ResilienceKit

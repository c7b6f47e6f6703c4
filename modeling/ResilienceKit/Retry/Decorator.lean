import ResilienceKit.Retry.Backoff

/-!
# Retry.Decorator — `retry` and `retry_on_failure`

The two wrappers of `retry` run one loop and differ in how they sleep.  `attempts n attempt …` is the
loop with `n` attempts left.  A function returns an `Option V`, `none` being Python's `None`.
-/

namespace ResilienceKit.Retry

open Program Code Py

/-- The arguments of `retry`; `funcName` is `func.__name__`, which a callable need not have, `onError` says that
a callback is given. -/
structure RetryArgs where
  maxAttempts : ℤ := 3
  baseDelay : PyNum := .float 1
  exponentialBase : PyNum := .float 2
  maxDelay : PyNum := .float 60
  exceptions : List PyClass := [.exception]
  jitter : String := "decorrelated"
  raiseOnFailure : Bool := true
  onError : Bool := false
  funcName : Option String := some "func"

/-- `_filter_retry_on`. -/
def filterRetryOn (exceptions : List PyClass) : List PyClass :=
  exceptions.filter fun c => !c.issubclass .serviceUnavailableError

variable (args : RetryArgs) {V : Type}

/-- `_next_delay`. -/
def nextDelay (attempt : ℕ) (previousDelay : PyNum) : Py V PyNum :=
  if args.jitter = "none" then
    fromExcept (exponentialBackoff attempt args.baseDelay args.exponentialBase args.maxDelay)
  else if args.jitter = "full" then do
    let capped ← fromExcept
      (exponentialBackoff attempt args.baseDelay args.exponentialBase args.maxDelay)
    uniform (.float 0) capped
  else decorrelatedJitter previousDelay args.baseDelay args.maxDelay

/-- What looking up a missing `func.__name__` raises. -/
def noName : PyExc := ⟨.attributeError, 0⟩

/-- `get_metrics().incr(name, tags={"func": func.__name__, key: value})` -/
def count (name key value : String) : Py V Unit :=
  match args.funcName with
  | none => throw noName
  | some func => incr name [("func", func), (key, value)]

/-- The end of the wrapper, after the loop. -/
def afterLoop (lastExc : Option PyExc) : Py (Option V) (Option V) := do
  count args "retry.exhausted" "attempts" (toString args.maxAttempts)
  match lastExc with
  | some e => if args.raiseOnFailure then throw e else return none
  | none => return none

/-- `if attempt > 0: get_metrics().incr("retry.success", …)`. -/
def countSuccess (attempt : ℕ) : Py V Unit :=
  if attempt > 0 then count args "retry.success" "attempt" (toString (attempt + 1))
  else pure ()

/-- The `try` body: one call of the function. -/
def attemptOnce (func : Py (Option V) (Option V)) (attempt : ℕ) : Py (Option V) (Option V) := do
  let result ← func
  countSuccess args attempt
  return result

/-- `if on_error: …`. -/
def notify (exc : PyExc) (attempt : ℕ) : Py V Unit :=
  if args.onError then Py.onError exc (attempt + 1) else pure ()

/-- From a failed attempt that is not the last to the start of the next: the delay that was slept. -/
def backOff (sleep : PyNum → Py (Option V) Unit) (attempt : ℕ) (previousDelay : PyNum) :
    Py (Option V) PyNum := do
  let delay ← nextDelay args attempt previousDelay
  count args "retry.attempt" "attempt" (toString (attempt + 1))
  sleep delay
  return delay

/-- The `except` clauses of an attempt; `again` is the rest of the loop. -/
def onFailure (sleep : PyNum → Py (Option V) Unit) (attempt : ℕ) (previousDelay : PyNum) (exc : PyExc)
    (again : PyNum → Py (Option V) (Option V)) : Py (Option V) (Option V) :=
  if isinstance exc .serviceUnavailableError then throw exc
  else if catches (filterRetryOn args.exceptions) exc then do
    notify args exc attempt
    if (attempt : ℤ) = args.maxAttempts - 1 then afterLoop args (some exc)
    else
      let delay ← backOff args sleep attempt previousDelay
      again delay
  else throw exc

def attempts (sleep : PyNum → Py (Option V) Unit) (func : Py (Option V) (Option V)) :
    ℕ → ℕ → Option PyExc → PyNum → Py (Option V) (Option V)
  | 0, _, lastExc, _ => afterLoop args lastExc
  | n + 1, attempt, _, previousDelay =>
    tryElse (attemptOnce args func attempt)
      (fun exc => onFailure args sleep attempt previousDelay exc fun delay =>
        attempts sleep func n (attempt + 1) (some exc) delay)
      (fun result => return result)

/-- The body shared by the two wrappers. -/
def wrapper (sleep : PyNum → Py (Option V) Unit) (func : Py (Option V) (Option V)) :
    Py (Option V) (Option V) :=
  attempts args sleep func args.maxAttempts.toNat 0 none args.baseDelay

/-- `retry.async_wrapper`. -/
def asyncWrapper (func : Py (Option V) (Option V)) : Py (Option V) (Option V) :=
  wrapper args asyncioSleep func

/-- `retry.sync_wrapper`. -/
def syncWrapper (func : Py (Option V) (Option V)) : Py (Option V) (Option V) :=
  wrapper args timeSleep func

/-- A function is a coroutine function or not, which decides between the wrappers. -/
inductive Mode
  | async | sync
  deriving DecidableEq, Repr

def Mode.wrapper (mode : Mode) (func : Py (Option V) (Option V)) : Py (Option V) (Option V) :=
  match mode with
  | .async => asyncWrapper args func
  | .sync => syncWrapper args func

def Mode.sleep (mode : Mode) (delay : PyNum) : Py V Unit :=
  match mode with
  | .async => asyncioSleep delay
  | .sync => timeSleep delay

/-- What it computes before it waits. -/
def Mode.due (mode : Mode) (delay : PyNum) : Except PyExc Unit :=
  match mode with
  | .async => asyncioDue delay
  | .sync => timeDue delay

theorem Mode.sleep_eq (mode : Mode) (delay : PyNum) : mode.sleep (V := V) delay = sleepFor (mode.due delay) delay := by
  cases mode <;> rfl

/-! ### What the loop asks by itself -/

variable {args}

theorem aside_nextDelay (attempt : ℕ) (previousDelay : PyNum) :
    Aside (nextDelay args attempt previousDelay : Py V PyNum) := by
  unfold nextDelay
  split_ifs
  · exact asks_fromExcept _
  · exact (asks_fromExcept _).bind fun _ => aside_uniform _ _
  · exact (asks_fromExcept _).bind fun _ => (aside_uniform _ _).bind fun _ => .pure _

theorem aside_count (name key value : String) : Aside (count args name key value : Py V Unit) := by
  unfold count
  cases args.funcName with
  | none => exact .throw _
  | some func => exact aside_incr _ _

theorem aside_afterLoop (lastExc : Option PyExc) : Aside (afterLoop (V := V) args lastExc) := by
  refine (aside_count _ _ _).bind fun _ => ?_
  cases lastExc with
  | none => exact .pure _
  | some e =>
    show Aside (if args.raiseOnFailure then _ else _)
    split_ifs
    · exact .throw _
    · exact .pure _

theorem aside_countSuccess (attempt : ℕ) : Aside (countSuccess args attempt : Py V Unit) := by
  unfold countSuccess
  split_ifs
  · exact aside_count _ _ _
  · exact .pure _

theorem aside_notify (exc : PyExc) (attempt : ℕ) : Aside (notify args exc attempt : Py V Unit) := by
  unfold notify
  split_ifs
  · exact aside_onError _ _
  · exact .pure _

theorem aside_backOff {sleep : PyNum → Py (Option V) Unit} (hs : ∀ d, Aside (sleep d)) (attempt : ℕ)
    (previousDelay : PyNum) : Aside (backOff args sleep attempt previousDelay) :=
  (aside_nextDelay _ _).bind fun _ => (aside_count _ _ _).bind fun _ => (hs _).bind fun _ => .pure _

theorem Mode.aside_sleep (mode : Mode) (d : PyNum) : Aside (mode.sleep d : Py V Unit) := by
  rw [mode.sleep_eq]
  exact aside_sleepFor _ _

/-- The loop asks what the function asks, and asides. -/
theorem asks_attempts {P : Ask → Prop} (hP : ∀ q : Ask, q.isAside = true → P q)
    {sleep : PyNum → Py (Option V) Unit} {func : Py (Option V) (Option V)} (hs : ∀ d, Aside (sleep d))
    (hf : Asks P func) (n attempt : ℕ) (lastExc : Option PyExc) (previousDelay : PyNum) :
    Asks P (attempts args sleep func n attempt lastExc previousDelay) := by
  induction n generalizing attempt lastExc previousDelay with
  | zero => exact (aside_afterLoop lastExc).mono hP
  | succ n ih =>
    refine Asks.tryElse ?_ (fun e => ?_) fun v => .pure v
    · exact hf.bind fun v => ((aside_countSuccess attempt).mono hP).bind fun _ => .pure v
    · show Asks P (onFailure args sleep attempt previousDelay e _)
      unfold onFailure
      split_ifs
      · exact .throw e
      · exact ((aside_notify e attempt).mono hP).bind fun _ => (aside_afterLoop (some e)).mono hP
      · refine ((aside_notify e attempt).mono hP).bind fun _ => ?_
        exact ((aside_backOff hs attempt previousDelay).mono hP).bind fun d =>
          ih (attempt + 1) (some e) d
      · exact .throw e

/-! ### What the loop keeps -/

section Keeps

variable {env : Env (Answer (Option V))} {I : History (Option V) → Prop}
  {sleep : PyNum → Py (Option V) Unit} {func : Py (Option V) (Option V)}

/-- The handler of a failed attempt, when what the loop asks by itself keeps `I`. -/
theorem onFailure_keeps (Post : History (Option V) × Except PyExc (Option V) → Prop)
    (hside : ∀ {α : Type} (x : Py (Option V) α), Aside x → ∀ h, I h → I (exec env h x).1)
    (hs : ∀ d, Aside (sleep d)) (exc : PyExc) (attempt : ℕ) (previousDelay : PyNum)
    {again : PyNum → Py (Option V) (Option V)} (hend : ∀ h x, I h → Post (h, x))
    (hagain : ∀ h d, I h → Post (exec env h (again d))) {h : History (Option V)} (h0 : I h) :
    Post (exec env h (onFailure args sleep attempt previousDelay exc again)) := by
  unfold onFailure
  split_ifs with hsu hc hl
  · exact hend h _ h0
  · have h₁ : I (exec env h (notify args exc attempt)).1 := hside _ (aside_notify exc attempt) h h0
    rw [exec_bind]
    generalize exec env h (notify args exc attempt) = r at h₁ ⊢
    rcases r with ⟨h', e | _⟩
    · exact hend h' _ h₁
    · exact hend _ _ (hside _ (aside_afterLoop (some exc)) h' h₁)
  · have h₁ : I (exec env h (notify args exc attempt)).1 := hside _ (aside_notify exc attempt) h h0
    rw [exec_bind]
    generalize exec env h (notify args exc attempt) = r at h₁ ⊢
    rcases r with ⟨h', e | _⟩
    · exact hend h' _ h₁
    · have h₂ : I (exec env h' (backOff args sleep attempt previousDelay)).1 :=
        hside _ (aside_backOff hs attempt previousDelay) h' h₁
      show Post (exec env h' (backOff args sleep attempt previousDelay >>= again))
      rw [exec_bind]
      generalize exec env h' (backOff args sleep attempt previousDelay) = r at h₂ ⊢
      rcases r with ⟨h'', e | d⟩
      · exact hend h'' _ h₂
      · exact hagain h'' d h₂
  · exact hend h _ h0

/-- One call of the function and the count of its success. -/
theorem attemptOnce_keeps (args : RetryArgs)
    (hside : ∀ {α : Type} (x : Py (Option V) α), Aside x → ∀ h, I h → I (exec env h x).1)
    {Ends : History (Option V) × Except PyExc (Option V) → Prop} {h : History (Option V)}
    (hcall : I (exec env h func).1 ∨ Ends (exec env h func) ∧
      ∃ e, (exec env h func).2 = .error e ∧ isinstance e .serviceUnavailableError = true)
    (attempt : ℕ) :
    I (exec env h (attemptOnce args func attempt)).1 ∨
      Ends (exec env h (attemptOnce args func attempt)) ∧
      ∃ e, (exec env h (attemptOnce args func attempt)).2 = .error e ∧
        isinstance e .serviceUnavailableError = true := by
  rw [attemptOnce, exec_bind]
  generalize exec env h func = r at hcall ⊢
  rcases r with ⟨h', e | v⟩
  · exact hcall
  · have hI : I h' := hcall.resolve_right fun ⟨_, _, he, _⟩ => by cases he
    exact .inl (hside _ ((aside_countSuccess attempt).bind fun _ => .pure v) h' hI)

/-- **Loop rule**: what the loop asks by itself and every call of the function keep holds at the end,
unless a `ServiceUnavailableError` of the function ended the loop. -/
theorem attempts_keeps
    (hside : ∀ {α : Type} (x : Py (Option V) α), Aside x → ∀ h, I h → I (exec env h x).1)
    (hs : ∀ d, Aside (sleep d))
    {Ends : History (Option V) × Except PyExc (Option V) → Prop}
    (hfunc : ∀ h, I h → I (exec env h func).1 ∨ Ends (exec env h func) ∧
      ∃ e, (exec env h func).2 = .error e ∧ isinstance e .serviceUnavailableError = true)
    (n attempt : ℕ) (lastExc : Option PyExc) (previousDelay : PyNum) {h : History (Option V)} (h0 : I h) :
    I (exec env h (attempts args sleep func n attempt lastExc previousDelay)).1 ∨
      Ends (exec env h (attempts args sleep func n attempt lastExc previousDelay)) := by
  induction n generalizing attempt lastExc previousDelay h with
  | zero => exact .inl (hside _ (aside_afterLoop lastExc) h h0)
  | succ n ih =>
    have hbody := attemptOnce_keeps args hside (hfunc h h0) attempt
    rw [attempts, exec_tryElse]
    generalize exec env h (attemptOnce args func attempt) = r at hbody ⊢
    rcases r with ⟨h', e | v⟩
    · rcases hbody with hI | ⟨hends, e', he, hsu⟩
      · exact onFailure_keeps (fun r => I r.1 ∨ Ends r) hside hs e attempt previousDelay
          (fun h'' x hI' => .inl hI') (fun h'' d hI' => ih (attempt + 1) (some e) d hI') hI
      · obtain rfl : e = e' := Except.error.inj he
        refine .inr ?_
        simpa only [onFailure, hsu, if_true, exec_throw] using hends
    · exact .inl (hbody.resolve_right fun ⟨_, _, he, _⟩ => by cases he)

/-- An attempt begins with a call of the function. -/
theorem calls_lt_attempts (n attempt : ℕ) (lastExc : Option PyExc) (previousDelay : PyNum)
    (h : History (Option V)) :
    calls h < calls (exec env h (attempts args sleep invoke (n + 1) attempt lastExc previousDelay)).1 := by
  have hfirst : (exec env h (invoke : Py (Option V) (Option V))).1 <+:
      (exec env h (attempts args sleep invoke (n + 1) attempt lastExc previousDelay)).1 := by
    rw [attempts]
    exact (prefix_exec_bind _ _).trans (prefix_exec_tryElse _ _ _)
  have hle := asked_le Ask.isInvoke hfirst
  rw [exec_invoke, asked_append] at hle
  exact hle

/-- The function is called at most as often as there are attempts left. -/
theorem calls_attempts_le (args : RetryArgs) (env : Env (Answer (Option V)))
    (hs : ∀ d, Aside (sleep d)) (n attempt : ℕ) (lastExc : Option PyExc)
    (previousDelay : PyNum) (h : History (Option V)) :
    calls (exec env h (attempts args sleep invoke n attempt lastExc previousDelay)).1 ≤
      calls h + n := by
  have hside : ∀ (k : ℕ) {α : Type} (x : Py (Option V) α), Aside x → ∀ h,
      calls h ≤ k → calls (exec env h x).1 ≤ k := by
    intro k α x hx h hk
    rwa [aside_calls hx]
  induction n generalizing attempt lastExc previousDelay h with
  | zero => exact hside _ _ (aside_afterLoop lastExc) h le_rfl
  | succ n ih =>
    rw [attempts, exec_tryElse]
    have hbody : calls (exec env h (attemptOnce args invoke attempt)).1 ≤
        calls h + 1 := by
      have hcall : calls (exec env h (invoke : Py (Option V) (Option V))).1 ≤
          calls h + 1 := by simp
      rw [attemptOnce, exec_bind]
      generalize exec env h (invoke : Py (Option V) (Option V)) = r at hcall ⊢
      rcases r with ⟨h', e | v⟩
      · exact hcall
      · exact hside _ _ ((aside_countSuccess attempt).bind fun _ => .pure v) h' hcall
    generalize exec env h (attemptOnce args invoke attempt) = r at hbody ⊢
    rcases r with ⟨h', e | v⟩
    · refine onFailure_keeps (fun r => calls r.1 ≤ calls h + (n + 1))
        (hside (calls h + 1)) hs e attempt previousDelay (fun h'' x hI => ?_)
        (fun h'' d hI => ?_) hbody
      · simp only
        omega
      · have := ih (attempt + 1) (some e) d h''
        omega
    · exact hbody.trans (by omega)

end Keeps

/-- The retry policy of a service. -/
structure RetryPolicy where
  maxAttempts : ℤ
  waitMin : ℚ
  waitMax : ℚ
  exponentialBase : ℚ
  jitter : String
  retryOn : List PyClass

/-- What `retry_on_failure` hands to `retry`. -/
def RetryPolicy.retryArgs (cfg : RetryPolicy) (funcName : Option String) : RetryArgs where
  maxAttempts := cfg.maxAttempts
  baseDelay := .float cfg.waitMin
  maxDelay := .float cfg.waitMax
  exponentialBase := .float cfg.exponentialBase
  jitter := cfg.jitter
  exceptions := if cfg.retryOn = [] then [.exception] else cfg.retryOn
  funcName := funcName

/-- `retry_on_failure`. -/
def retryOnFailure (cfg : RetryPolicy) (funcName : Option String) (mode : Mode)
    (func : Py (Option V) (Option V)) : Py (Option V) (Option V) :=
  mode.wrapper (cfg.retryArgs funcName) func

end ResilienceKit.Retry

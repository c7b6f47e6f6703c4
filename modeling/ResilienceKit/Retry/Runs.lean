import Mathlib.Tactic.SplitIfs
import ResilienceKit.Retry.Decorator

/-!
# Retry.Runs — the retry loop against every surrounding

A `Scenario` fixes how every call of the function ends, what every callback and every metric raises, and
every random draw.  `reached` says what the loop has done when it gets to an attempt; the ways it ends
there follow by cases.
-/

namespace ResilienceKit.Retry

open Program Code Py

/-- How the `n`-th call of the function ends, what the `n`-th callback and the `n`-th emission of a metric
raise, and the `n`-th random number. -/
structure Scenario (V : Type) where
  outcome : ℕ → Outcome V
  callback : ℕ → Option PyExc := fun _ => none
  sink : ℕ → String → Option PyExc := fun _ _ => none
  draw : ℕ → ℚ := fun _ => 0

def Scenario.env {V : Type} (w : Scenario V) : Env (Answer V) := fun h q =>
  match q with
  | .invoke => w.outcome (calls h)
  | .onError _ _ => w.callback (callbacks h)
  | .incr name _ => w.sink (emissions h) name
  | .random => w.draw (draws h)
  | .sleep _ => none
  | .admission => true
  | .recordSuccess => ()
  | .recordFailure => ()

variable {V : Type} (args : RetryArgs) (mode : Mode) (w : Scenario (Option V))

/-- The call of a wrapped function, from the start. -/
def call : History (Option V) × Except PyExc (Option V) :=
  exec w.env [] (mode.wrapper args invoke)

/-! ### The pure parts -/

/-- The loop goes on after this exception. -/
def retryable (e : PyExc) : Bool :=
  !isinstance e .serviceUnavailableError && catches (filterRetryOn args.exceptions) e

/-- A return value, or an exception that leaves the loop. -/
def settles : Outcome (Option V) → Bool
  | .returned _ => true
  | .raised e => !retryable args e

/-- The delay after the attempt, from the previous one and a random number. -/
def delayFor (attempt : ℕ) (previousDelay : PyNum) (u : ℚ) : Except PyExc PyNum :=
  if args.jitter = "none" then
    exponentialBackoff attempt args.baseDelay args.exponentialBase args.maxDelay
  else if args.jitter = "full" then do
    let capped ← exponentialBackoff attempt args.baseDelay args.exponentialBase args.maxDelay
    between (.float 0) capped u
  else do
    let tripled ← previousDelay.mul (.float 3)
    let drawn ← between args.baseDelay (args.baseDelay.max tripled) u
    return args.maxDelay.min drawn

/-- The delays of a run that keeps failing. -/
def Scenario.delay : ℕ → Except PyExc PyNum
  | 0 => delayFor args 0 args.baseDelay (w.draw 0)
  | i + 1 => do
    let previousDelay ← Scenario.delay i
    delayFor args (i + 1) previousDelay (w.draw (i + 1))

/-- The delay after attempt `i` can be computed, and slept. -/
def CanWait (i : ℕ) : Prop :=
  ∃ d, w.delay args i = .ok d ∧ mode.due d = .ok ()

/-- Attempt `i` fails and the loop gets to the next one. -/
def Retried (i : ℕ) : Prop :=
  ∃ e, w.outcome i = .raised e ∧ retryable args e = true ∧
    (args.onError = true → suppressed (w.callback i) = .ok ()) ∧
    args.funcName ≠ none ∧ w.sink i "retry.attempt" = none ∧ CanWait args mode w i

/-- What a caller and the callback can see. -/
inductive Visible
  | invoked
  | notified (exc : PyExc) (attempt : ℕ)
  | slept
  deriving DecidableEq, Repr

def shown : Ask → Option Visible
  | .invoke => some .invoked
  | .onError exc attempt => some (.notified exc attempt)
  | .sleep _ => some .slept
  | _ => none

abbrev visible (h : History V) : List Visible := seen shown h

/-- The callback of attempt `i`. -/
def notes (i : ℕ) : List Visible :=
  match w.outcome i with
  | .returned _ => []
  | .raised e => if retryable args e ∧ args.onError then [.notified e (i + 1)] else []

/-- The first `i` attempts, each with its callback and the sleep after it. -/
def told (i : ℕ) : List Visible :=
  (List.range i).flatMap fun j => .invoked :: notes args w j ++ [.slept]

/-! ### One attempt -/

/-- The counts of a history that has reached attempt `i`. -/
structure At (i : ℕ) (h : History (Option V)) : Prop where
  calls : calls h = i
  callbacks : callbacks h = if args.onError then i else 0
  emissions : emissions h = i
  draws : draws h = if args.jitter = "none" then 0 else i

/-- The delay before attempt `i`. -/
def Before : ℕ → PyNum → Prop
  | 0, previousDelay => previousDelay = args.baseDelay
  | i + 1, previousDelay => w.delay args i = .ok previousDelay

variable {args mode w} {h : History (Option V)} {i : ℕ}

theorem Retried.named (hr : Retried args mode w i) : args.funcName ≠ none := by
  obtain ⟨e, -, -, -, hname, -⟩ := hr
  exact hname

theorem Before.delay {previousDelay : PyNum} (hb : Before args w i previousDelay) :
    w.delay args i = delayFor args i previousDelay (w.draw i) := by
  cases i with
  | zero =>
    have hb' : previousDelay = args.baseDelay := hb
    rw [hb']
    rfl
  | succ i =>
    have hb' : w.delay args i = .ok previousDelay := hb
    rw [Scenario.delay, hb']
    rfl

theorem told_succ (i : ℕ) :
    told args w (i + 1) = told args w i ++ (.invoked :: notes args w i ++ [.slept]) := by
  simp [told, List.range_succ]

/-- A random number is drawn for the delay or not; nothing else is asked. -/
theorem exec_nextDelay_env {W : Type} (args : RetryArgs) (env : Env (Answer W)) (h : History W) (i : ℕ)
    (previousDelay : PyNum) : ∃ h',
    exec env h (nextDelay args i previousDelay) = (h', delayFor args i previousDelay (env h .random)) ∧
    (h' = h ∨ h' = h ++ [⟨.random, env h .random⟩]) ∧
    ∀ d, delayFor args i previousDelay (env h .random) = .ok d →
      draws h' = draws h + if args.jitter = "none" then 0 else 1 := by
  have hdrawn : ∀ {h' : History W}, h' = h ++ [⟨.random, env h .random⟩] → draws h' = draws h + 1 := by
    rintro h' rfl
    simp
  unfold nextDelay delayFor
  by_cases hn : args.jitter = "none"
  · refine ⟨h, ?_, .inl rfl, fun _ _ => by simp [hn]⟩
    rw [if_pos hn, if_pos hn, exec_fromExcept]
  · rw [if_neg hn, if_neg hn]
    by_cases hf : args.jitter = "full"
    · rw [if_pos hf, if_pos hf]
      cases hx : exponentialBackoff i args.baseDelay args.exponentialBase args.maxDelay with
      | error e => exact ⟨h, rfl, .inl rfl, nofun⟩
      | ok capped =>
        obtain ⟨h', hexec, hcases, hok⟩ := exec_uniform env h (.float 0) capped
        exact ⟨h', hexec, hcases, fun d hd => by rw [if_neg hn, hdrawn (hok d hd)]⟩
    · rw [if_neg hf, if_neg hf]
      unfold decorrelatedJitter
      cases hx : previousDelay.mul (.float 3) with
      | error e => exact ⟨h, rfl, .inl rfl, nofun⟩
      | ok tripled =>
        obtain ⟨h', hexec, hcases, hok⟩ := exec_uniform env h args.baseDelay (args.baseDelay.max tripled)
        refine ⟨h', ?_, hcases, fun d hd => ?_⟩
        · show exec env h (uniform args.baseDelay (args.baseDelay.max tripled) >>= fun drawn =>
            pure (args.maxDelay.min drawn)) = _
          rw [exec_bind, hexec]
          show _ = (h', between args.baseDelay (args.baseDelay.max tripled) (env h .random) >>= fun drawn =>
            pure (args.maxDelay.min drawn))
          cases between args.baseDelay (args.baseDelay.max tripled) (env h .random) with
          | error e => rfl
          | ok drawn => rfl
        · cases hb : between args.baseDelay (args.baseDelay.max tripled) (env h .random) with
          | error e =>
            dsimp only [bind, Except.bind] at hd
            rw [hb] at hd
            cases hd
          | ok drawn => rw [if_neg hn, hdrawn (hok drawn hb)]

theorem exec_nextDelay (args : RetryArgs) (w : Scenario (Option V)) (h : History (Option V)) (i : ℕ)
    (previousDelay : PyNum) : ∃ h',
    exec w.env h (nextDelay args i previousDelay) =
      (h', delayFor args i previousDelay (w.draw (draws h))) ∧
    (h' = h ∨ h' = h ++ [⟨.random, w.draw (draws h)⟩]) ∧
    ∀ d, delayFor args i previousDelay (w.draw (draws h)) = .ok d →
      draws h' = draws h + if args.jitter = "none" then 0 else 1 :=
  exec_nextDelay_env args w.env h i previousDelay

theorem exec_notify_eq (e : PyExc) (hc : args.onError = true → callbacks h = i) :
    exec w.env h (notify args e i) =
      if args.onError then
        (h ++ [⟨.onError e (i + 1), w.callback i⟩], suppressed (w.callback i))
      else (h, .ok ()) := by
  unfold notify
  split_ifs with ho
  · rw [exec_onError]
    show (h ++ [⟨.onError e (i + 1), w.callback (callbacks h)⟩],
      suppressed (w.callback (callbacks h))) = _
    rw [hc ho]
  · exact exec_pure ()

/-- The callback of an attempt, when it raises nothing that gets past the loop's `except`. -/
theorem exec_notify {e : PyExc} (hat : At args i h) (hi : w.outcome i = .raised e)
    (hm : retryable args e = true)
    (hcb : args.onError = true → suppressed (w.callback i) = .ok ()) (h₁ : History (Option V))
    (hh₁ : h₁ = h ++ [⟨.invoke, w.outcome i⟩]) : ∃ h',
    exec w.env h₁ (notify args e i) = (h', .ok ()) ∧ calls h' = i + 1 ∧
    callbacks h' = (if args.onError then i + 1 else 0) ∧ emissions h' = i ∧
    draws h' = draws h ∧ visible h' = visible h ++ .invoked :: notes args w i := by
  subst hh₁
  rw [exec_notify_eq (i := i) e fun ho => by simp [hat.callbacks, ho]]
  by_cases ho : args.onError = true
  · rw [if_pos ho, hcb ho]
    refine ⟨_, rfl, ?_⟩
    simp [shown, hat.calls, hat.callbacks, hat.emissions, ho, notes, hi, hm]
  · rw [if_neg ho]
    refine ⟨_, rfl, ?_⟩
    simp [shown, hat.calls, hat.callbacks, hat.emissions, ho, notes, hi]

theorem exec_invoke_env (hc : calls h = i) : exec w.env h (invoke : Py (Option V) (Option V)) =
    (h ++ [⟨.invoke, w.outcome i⟩], (w.outcome i).result) := by
  rw [exec_invoke]
  show (h ++ [⟨.invoke, w.outcome (calls h)⟩], (w.outcome (calls h)).result) = _
  rw [hc]

/-- A metric that the sink takes without raising. -/
theorem exec_incr_silent (name : String) (tags : List (String × String)) (hem : emissions h = i)
    (hs : w.sink i name = none) : exec w.env h (incr name tags : Py (Option V) Unit) =
      (h ++ [⟨.incr name tags, none⟩], .ok ()) := by
  rw [exec_incr]
  show (h ++ [⟨.incr name tags, w.sink (emissions h) name⟩], raised (w.sink (emissions h) name)) = _
  rw [hem, hs]
  rfl

/-- A metric on which the sink raises. -/
theorem exec_incr_raises (name : String) (tags : List (String × String)) {e : PyExc}
    (hem : emissions h = i) (hs : w.sink i name = some e) :
    exec w.env h (incr name tags : Py (Option V) Unit) =
      (h ++ [⟨.incr name tags, some e⟩], .error e) := by
  rw [exec_incr]
  show (h ++ [⟨.incr name tags, w.sink (emissions h) name⟩], raised (w.sink (emissions h) name)) = _
  rw [hem, hs]
  rfl

theorem exec_count_silent (name key value : String) (hname : args.funcName ≠ none) (hem : emissions h = i)
    (hs : w.sink i name = none) : ∃ tags, exec w.env h (count args name key value : Py (Option V) Unit) =
      (h ++ [⟨.incr name tags, none⟩], .ok ()) := by
  obtain ⟨func, hfunc⟩ := Option.ne_none_iff_exists'.mp hname
  refine ⟨[("func", func), (key, value)], ?_⟩
  rw [count, hfunc]
  exact exec_incr_silent name _ hem hs

theorem exec_count_raises (name key value : String) {e : PyExc} (hname : args.funcName ≠ none)
    (hem : emissions h = i) (hs : w.sink i name = some e) :
    ∃ tags, exec w.env h (count args name key value : Py (Option V) Unit) =
      (h ++ [⟨.incr name tags, some e⟩], .error e) := by
  obtain ⟨func, hfunc⟩ := Option.ne_none_iff_exists'.mp hname
  refine ⟨[("func", func), (key, value)], ?_⟩
  rw [count, hfunc]
  exact exec_incr_raises name _ hem hs

/-- A function without a name cannot be counted. -/
theorem exec_count_nameless {W : Type} {env : Env (Answer W)} {h : History W} (name key value : String)
    (hname : args.funcName = none) : exec env h (count args name key value : Py W Unit) = (h, .error noName) := by
  rw [count, hname]
  rfl

theorem exec_attemptOnce_raised {e : PyExc} (hc : calls h = i) (hi : w.outcome i = .raised e) :
    exec w.env h (attemptOnce args invoke i) = (h ++ [⟨.invoke, w.outcome i⟩], .error e) := by
  refine exec_bind_error ?_
  rw [exec_invoke_env hc, hi]
  rfl

theorem exec_sleep {d : PyNum} (hd : mode.due d = .ok ()) :
    exec w.env h (mode.sleep d) = (h ++ [⟨.sleep d, none⟩], .ok ()) := by
  rw [mode.sleep_eq]
  exact exec_sleepFor hd d

/-- The wait between two attempts, when the delay can be slept and the metric is silent. -/
theorem exec_backOff (mode : Mode) {previousDelay d : PyNum} (hb : Before args w i previousDelay)
    (hem : emissions h = i) (hdr : draws h = if args.jitter = "none" then 0 else i)
    (hd : w.delay args i = .ok d) (hs : mode.due d = .ok ()) (hname : args.funcName ≠ none)
    (hsink : w.sink i "retry.attempt" = none) : ∃ h',
    exec w.env h (backOff args mode.sleep i previousDelay) = (h', .ok d) ∧
    calls h' = calls h ∧ callbacks h' = callbacks h ∧ emissions h' = i + 1 ∧
    (draws h' = if args.jitter = "none" then 0 else i + 1) ∧
    visible h' = visible h ++ [.slept] := by
  have hu : delayFor args i previousDelay (w.draw (draws h)) = .ok d := by
    rw [← hd, hb.delay]
    by_cases hn : args.jitter = "none"
    · simp [delayFor, hn]
    · rw [hdr, if_neg hn]
  obtain ⟨h₁, hexec, hh₁, hdraws⟩ := exec_nextDelay args w h i previousDelay
  rw [hu] at hexec
  have hem₁ : emissions h₁ = i := by
    rcases hh₁ with rfl | rfl <;> simp [hem]
  obtain ⟨tags, hcount⟩ := exec_count_silent "retry.attempt" "attempt" (toString (i + 1)) hname hem₁ hsink
  refine ⟨h₁ ++ [⟨.incr "retry.attempt" tags, none⟩] ++ [⟨.sleep d, none⟩], ?_, ?_⟩
  · rw [backOff, exec_bind_ok hexec, exec_bind_ok hcount, exec_bind_ok (exec_sleep hs)]
    rfl
  · have hdr₁ := hdraws d hu
    have hsplit : (if args.jitter = "none" then 0 else i + 1) =
        (if args.jitter = "none" then 0 else i) + if args.jitter = "none" then 0 else 1 := by
      split_ifs <;> rfl
    rw [hsplit, ← hdr, ← hdr₁]
    rcases hh₁ with rfl | rfl <;> simp [shown, hem]

/-- **Step lemma**: an attempt that is retried brings the loop to the next one. -/
theorem exec_retried (n : ℕ) (last : Option PyExc) {previousDelay : PyNum} (hat : At args i h)
    (hb : Before args w i previousDelay) (hr : Retried args mode w i)
    (hlast : (i : ℤ) ≠ args.maxAttempts - 1) : ∃ h' e d,
    exec w.env h (attempts args mode.sleep invoke (n + 1) i last previousDelay) =
      exec w.env h' (attempts args mode.sleep invoke n (i + 1) (some e) d) ∧
    At args (i + 1) h' ∧ Before args w (i + 1) d ∧
    visible h' = visible h ++ (.invoked :: notes args w i ++ [.slept]) := by
  obtain ⟨e, hi, hm, hcb, hname, hsink, d, hd, hs⟩ := hr
  obtain ⟨h₁, hnotify, hc₁, hcb₁, hem₁, hdr₁, hv₁⟩ := exec_notify hat hi hm hcb _ rfl
  rw [hat.draws] at hdr₁
  obtain ⟨h₂, hback, hc₂, hcb₂, hem₂, hdr₂, hv₂⟩ :=
    exec_backOff mode hb hem₁ hdr₁ hd hs hname hsink
  refine ⟨h₂, e, d, ?_, ⟨by rw [hc₂, hc₁], by rw [hcb₂, hcb₁], hem₂, hdr₂⟩, hd,
    by rw [hv₂, hv₁, List.append_assoc]⟩
  obtain ⟨hsu, hcatch⟩ := Bool.and_eq_true_iff.mp hm
  rw [attempts, exec_tryElse, exec_attemptOnce_raised hat.calls hi]
  simp only
  rw [onFailure, if_neg (by simpa using hsu), if_pos hcatch, exec_bind_ok hnotify, if_neg hlast,
    exec_bind_ok hback]

/-- **Run lemma**: where the loop is when every attempt before `i` was retried. -/
theorem reached (hi : (i : ℤ) < args.maxAttempts) (hr : ∀ j < i, Retried args mode w j) :
    ∃ h last previousDelay,
      call args mode w = exec w.env h
        (attempts args mode.sleep invoke (args.maxAttempts.toNat - i) i last previousDelay) ∧
      At args i h ∧ Before args w i previousDelay ∧ visible h = told args w i := by
  induction i with
  | zero =>
    refine ⟨[], none, args.baseDelay, ?_, ⟨rfl, by simp, rfl, by simp⟩, rfl, rfl⟩
    cases mode <;> rfl
  | succ i ih =>
    have hi' : (i : ℤ) + 1 < args.maxAttempts := by exact_mod_cast hi
    obtain ⟨h, last, previousDelay, hcall, hat, hb, hv⟩ :=
      ih (by omega) fun j hj => hr j (by omega)
    have hn : args.maxAttempts.toNat - i = (args.maxAttempts.toNat - (i + 1)) + 1 := by omega
    rw [hn] at hcall
    obtain ⟨h', e, d, hexec, hat', hb', hv'⟩ :=
      exec_retried (args.maxAttempts.toNat - (i + 1)) last hat hb (hr i (by omega)) (by omega)
    refine ⟨h', some e, d, hcall.trans hexec, hat', hb', ?_⟩
    rw [hv', hv, told_succ]

end ResilienceKit.Retry

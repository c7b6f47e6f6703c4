import Mathlib.Tactic.Linarith
import Mathlib.Tactic.NormNum
import ResilienceKit.Lib.Program
import ResilienceKit.Numbers

/-!
# Runtime — what decorated code asks of its surroundings

The retry loop and `call` of a breaker talk to the caller's function, to the metrics sink, to the random
source, to the clock that sleeps and to the breaker.  An `Ask` is one such exchange; whatever can raise
answers with the exception it raises.
-/

namespace ResilienceKit

/-- `admission` is the admission step of a breaker, `recordSuccess` and `recordFailure` its two recorders. -/
inductive Ask
  | invoke
  | onError (exc : PyExc) (attempt : ℕ)
  | incr (name : String) (tags : List (String × String))
  | random
  | sleep (delay : PyNum)
  | admission
  | recordSuccess
  | recordFailure
  deriving DecidableEq

namespace Ask

@[simp] def isInvoke : Ask → Bool
  | .invoke => true
  | _ => false

@[simp] def isOnError : Ask → Bool
  | .onError _ _ => true
  | _ => false

@[simp] def isIncr : Ask → Bool
  | .incr _ _ => true
  | _ => false

@[simp] def isRandom : Ask → Bool
  | .random => true
  | _ => false

/-- What code asks besides the function and the breaker. -/
@[simp] def isAside : Ask → Bool
  | .onError _ _ => true
  | .incr _ _ => true
  | .random => true
  | .sleep _ => true
  | _ => false

end Ask

/-- `none` stands for a call that returns. -/
@[reducible] def Answer (V : Type) : Ask → Type
  | .invoke => Outcome V
  | .onError _ _ => Option PyExc
  | .incr _ _ => Option PyExc
  | .random => ℚ
  | .sleep _ => Option PyExc
  | .admission => Bool
  | .recordSuccess => Unit
  | .recordFailure => Unit

/-- How an invocation ended. -/
def Ask.outcome? {V : Type} : (q : Ask) → Answer V q → Option (Outcome V)
  | .invoke, o => some o
  | _, _ => none

/-- The answers of surroundings in which nothing but the function can fail. -/
def Outcome.alone {V : Type} (o : Outcome V) : (q : Ask) → Answer V q
  | .invoke => o
  | .onError _ _ => none
  | .incr _ _ => none
  | .random => 0
  | .sleep _ => none
  | .admission => true
  | .recordSuccess => ()
  | .recordFailure => ()

/-- Python code around a function that returns a `V`. -/
abbrev Py (V α : Type) := Code Ask (Answer V) PyExc α

/-- The questions and answers of a run. -/
abbrev History (V : Type) := List (Program.Exchange (Answer V))

section Counts

open Program

variable {V : Type}

abbrev calls (h : History V) : ℕ := asked Ask.isInvoke h

abbrev callbacks (h : History V) : ℕ := asked Ask.isOnError h

abbrev emissions (h : History V) : ℕ := asked Ask.isIncr h

abbrev draws (h : History V) : ℕ := asked Ask.isRandom h

end Counts

namespace Py

open Program Code

variable {V α : Type}

def fromExcept : Except PyExc α → Py V α
  | .ok a => pure a
  | .error e => throw e

/-- What a call raises. -/
def raised : Option PyExc → Except PyExc Unit
  | none => .ok ()
  | some e => .error e

/-- What is left of it behind an `except Exception: log`. -/
def suppressed : Option PyExc → Except PyExc Unit
  | none => .ok ()
  | some e => if isinstance e .exception then .ok () else .error e

/-- The same, of code. -/
def swallowed : Except PyExc Unit → Except PyExc Unit
  | .ok () => .ok ()
  | .error e => if isinstance e .exception then .ok () else .error e

/-- `try: x except Exception: log`. -/
def logged {Q : Type} {A : Q → Type} (x : Code Q A PyExc Unit) : Code Q A PyExc Unit :=
  tryElse x (fun exc => if isinstance exc .exception then pure () else throw exc) pure

/-- `await func(*args, **kwargs)`. -/
def invoke : Py V V := do
  let o ← perform Ask.invoke
  fromExcept (Outcome.result o)

/-- `get_metrics().incr(name, tags=tags)`. -/
def incr (name : String) (tags : List (String × String)) : Py V Unit := do
  let r ← perform (Ask.incr name tags)
  fromExcept (raised r)

/-- `try: on_error(exc, attempt) except Exception: log`. -/
def onError (exc : PyExc) (attempt : ℕ) : Py V Unit := do
  let r ← perform (Ask.onError exc attempt)
  fromExcept (suppressed r)

/-- `a + (b - a) * u` -/
def between (a b : PyNum) (u : ℚ) : Except PyExc PyNum := do
  let span ← b.sub a
  let x ← span.mul (.float u)
  a.add x

/-- `random.uniform(a, b)`. -/
def uniform (a b : PyNum) : Py V PyNum := do
  let _ ← fromExcept (b.sub a)
  let u : ℚ ← perform Ask.random
  fromExcept (between a b u)

/-- What `asyncio.sleep` computes before it waits: the time of the loop, and a positive delay more. -/
def asyncioDue (delay : PyNum) : Except PyExc Unit :=
  if 0 < delay.val then delay.toFloat.map fun _ => () else .ok ()

/-- What `time.sleep` computes before it waits: the nanoseconds, which have 64 bits and a sign that must not be
used. -/
def timeDue (delay : PyNum) : Except PyExc Unit :=
  if delay.val * 1000000000 < -2 ^ 63 ∨ 2 ^ 63 ≤ delay.val * 1000000000 then .error ⟨.overflowError, 0⟩
  else if delay.val < 0 then .error ⟨.valueError, 0⟩
  else .ok ()

/-- A sleep, when `due` has been computed; a cancelled task raises in it. -/
def sleepFor (due : Except PyExc Unit) (delay : PyNum) : Py V Unit := do
  fromExcept due
  let r ← perform (Ask.sleep delay)
  fromExcept (raised r)

/-- `asyncio.sleep`: a negative delay only yields. -/
def asyncioSleep (delay : PyNum) : Py V Unit := sleepFor (asyncioDue delay) delay

/-- `time.sleep` -/
def timeSleep (delay : PyNum) : Py V Unit := sleepFor (timeDue delay) delay

/-! ### How the calls run -/

variable {env : Env (Answer V)} {h : History V}

@[simp] theorem exec_fromExcept (x : Except PyExc α) : exec env h (fromExcept x : Py V α) = (h, x) := by
  cases x <;> rfl

theorem exec_logged {Q : Type} {A : Q → Type} (env : Env A) (h : List (Exchange A))
    (x : Code Q A PyExc Unit) :
    exec env h (logged x) = ((exec env h x).1, swallowed (exec env h x).2) := by
  rw [logged, exec_tryElse]
  rcases exec env h x with ⟨h', e | u⟩
  · simp only [swallowed]
    split_ifs <;> rfl
  · rfl

@[simp] theorem exec_invoke : exec env h (invoke : Py V V) =
    (h ++ [⟨.invoke, env h .invoke⟩], (env h .invoke).result) := by
  rw [invoke, exec_bind, exec_perform]
  exact exec_fromExcept _

@[simp] theorem exec_incr (name : String) (tags : List (String × String)) :
    exec env h (incr name tags : Py V Unit) =
      (h ++ [⟨.incr name tags, env h (.incr name tags)⟩], raised (env h (.incr name tags))) := by
  rw [incr, exec_bind, exec_perform]
  exact exec_fromExcept _

@[simp] theorem exec_onError (exc : PyExc) (attempt : ℕ) :
    exec env h (onError exc attempt : Py V Unit) =
      (h ++ [⟨.onError exc attempt, env h (.onError exc attempt)⟩],
        suppressed (env h (.onError exc attempt))) := by
  rw [onError, exec_bind, exec_perform]
  exact exec_fromExcept _

/-- A random number is drawn, unless the interval is too wide for a `float`. -/
theorem exec_uniform (env : Env (Answer V)) (h : History V) (a b : PyNum) : ∃ h',
    exec env h (uniform a b : Py V PyNum) = (h', between a b (env h .random)) ∧
      (h' = h ∨ h' = h ++ [⟨.random, env h .random⟩]) ∧
      ∀ d, between a b (env h .random) = .ok d → h' = h ++ [⟨.random, env h .random⟩] := by
  unfold uniform
  cases hx : b.sub a with
  | error e =>
    have hbetween : between a b (env h .random) = .error e := by
      rw [between, hx]
      rfl
    refine ⟨h, by rw [hbetween]; rfl, .inl rfl, fun d hd => ?_⟩
    rw [hbetween] at hd
    cases hd
  | ok span =>
    refine ⟨h ++ [⟨.random, env h .random⟩], ?_, .inr rfl, fun _ _ => rfl⟩
    show exec env h (perform Ask.random >>= fun u => fromExcept (between a b u)) = _
    rw [exec_bind, exec_perform]
    exact exec_fromExcept _

theorem exec_sleepFor {due : Except PyExc Unit} (hdue : due = .ok ()) (delay : PyNum) :
    exec env h (sleepFor due delay : Py V Unit) =
      (h ++ [⟨.sleep delay, env h (.sleep delay)⟩], raised (env h (.sleep delay))) := by
  subst hdue
  show exec env h (perform (Ask.sleep delay) >>= fun r => fromExcept (raised r)) = _
  rw [exec_bind, exec_perform]
  exact exec_fromExcept _

theorem exec_sleepFor_error {due : Except PyExc Unit} {e : PyExc} (hdue : due = .error e) (delay : PyNum) :
    exec env h (sleepFor due delay : Py V Unit) = (h, .error e) := by
  subst hdue
  rfl

theorem between_ok {a b d : PyNum} {u : ℚ} (h : between a b u = .ok d) :
    d.val = a.val + (b.val - a.val) * u := by
  unfold between at h
  cases hspan : b.sub a with
  | error e =>
    rw [hspan] at h
    cases h
  | ok span =>
    cases hx : span.mul (.float u) with
    | error e =>
      rw [hspan] at h
      dsimp only [bind, Except.bind] at h
      rw [hx] at h
      cases h
    | ok x =>
      rw [hspan] at h
      dsimp only [bind, Except.bind] at h
      rw [hx] at h
      rw [PyNum.add_ok h, PyNum.mul_ok hx, PyNum.sub_ok hspan, PyNum.val_float]

theorem timeDue_ok_iff {delay : PyNum} :
    timeDue delay = .ok () ↔ 0 ≤ delay.val ∧ delay.val * 1000000000 < 2 ^ 63 := by
  unfold timeDue
  split_ifs with hrange hneg
  · refine iff_of_false nofun fun ⟨hpos, hlt⟩ => ?_
    rcases hrange with hlow | hhigh
    · linarith
    · exact not_le.mpr hlt hhigh
  · exact iff_of_false nofun fun ⟨hpos, _⟩ => not_le.mpr hneg hpos
  · exact iff_of_true rfl ⟨not_lt.mp hneg, not_le.mp (not_or.mp hrange).2⟩

/-- What can be slept without a loop can be slept on it. -/
theorem asyncioDue_of_timeDue {delay : PyNum} (h : timeDue delay = .ok ()) : asyncioDue delay = .ok () := by
  obtain ⟨hpos, hlt⟩ := timeDue_ok_iff.mp h
  cases delay with
  | float q =>
    unfold asyncioDue
    split_ifs
    · rfl
    · rfl
  | int n =>
    have hsmall : ¬ floatLimit ≤ |(n : ℚ)| := by
      rw [PyNum.val_int] at hpos hlt
      have hlimit := two_pow_lt_floatLimit
      rw [abs_of_nonneg hpos, not_le]
      linarith
    unfold asyncioDue
    rw [PyNum.toFloat, if_neg hsmall]
    split_ifs
    · rfl
    · rfl

/-! ### What the calls ask -/

theorem asks_fromExcept {P : Ask → Prop} (x : Except PyExc α) : Asks P (fromExcept x : Py V α) := by
  cases x <;> trivial

/-- Code that asks neither the function nor the breaker. -/
abbrev Aside (x : Py V α) : Prop := Asks (fun q => q.isAside = true) x

theorem aside_calls {x : Py V α} (hx : Aside x) (env : Env (Answer V)) (h : History V) :
    calls (exec env h x).1 = calls h :=
  Asks.asked_eq (hx.mono fun q hq => by cases q <;> simp_all) env h

theorem aside_incr (name : String) (tags : List (String × String)) :
    Aside (incr name tags : Py V Unit) :=
  Asks.bind (Asks.perform rfl) fun _ => asks_fromExcept _

theorem aside_onError (exc : PyExc) (attempt : ℕ) : Aside (onError exc attempt : Py V Unit) :=
  Asks.bind (Asks.perform rfl) fun _ => asks_fromExcept _

theorem aside_uniform (a b : PyNum) : Aside (uniform a b : Py V PyNum) :=
  (asks_fromExcept _).bind fun _ => Asks.bind (Asks.perform rfl) fun _ => asks_fromExcept _

theorem aside_sleepFor (due : Except PyExc Unit) (delay : PyNum) : Aside (sleepFor due delay : Py V Unit) :=
  (asks_fromExcept _).bind fun _ => Asks.bind (Asks.perform rfl) fun _ => asks_fromExcept _

end Py

end ResilienceKit

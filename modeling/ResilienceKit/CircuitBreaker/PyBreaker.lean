import Mathlib.Data.Rat.Defs
import Mathlib.Tactic.SplitIfs
import ResilienceKit.CircuitBreaker.Base
import ResilienceKit.Lib.Handling

/-!
# CircuitBreaker.PyBreaker — the adapter over `pybreaker`

`pybreaker` is a parameter: the steps of a `CircuitBreaker`, and `calling`, which raises
`CircuitBreakerError` instead of running the body, or out of the handler of the body's exception.  The
adapter tells the two apart by `__context__`, which is also set where the caller of `call` is handling an
exception: `identifies_errors_iff` says when it tells right.
-/

namespace ResilienceKit

/-- An exception object with its `service_name`. -/
structure ExcObj extends PyExc where
  serviceName : Option String := none
  deriving DecidableEq, Repr

/-- `pybreaker.CircuitBreaker`, its steps between two points where other code can run. -/
structure Pybreaker (S : Type) where
  create (failMax : ℤ) (resetTimeout : ℚ) (exclude : List PyClass) (name : String) : S
  /-- `false` is the `CircuitBreakerError` of an OPEN breaker that is not timed out. -/
  beforeCall (now : ℚ) : S → S × Bool
  handleSuccess (now : ℚ) : S → S
  /-- `true` is the `CircuitBreakerError` of a breaker that trips. -/
  handleError (now : ℚ) (exc : PyExc) : S → S × Bool
  currentState : S → String
  close : S → S

namespace PyBreakerAsyncBreaker

/-- The breakers by their names, the clock, the next identity of a new object, and the counters emitted. -/
structure World (S : Type) where
  breakers : String → S
  now : ℚ := 0
  nextIdent : ℕ := 0
  emitted : List (String × List (String × String)) := []

/-- Python code around breakers. -/
abbrev Py (S α : Type) := Handling ExcObj (World S) α

open Handling

variable {S V α : Type} (P : Pybreaker S)

def World.setBreaker (w : World S) (name : String) (s : S) : World S :=
  { w with breakers := Function.update w.breakers name s }

/-- A step of one breaker. -/
def onBreaker (name : String) (f : ℚ → S → S × α) : Py S α :=
  step fun w => (w.setBreaker name (f w.now (w.breakers name)).1, (f w.now (w.breakers name)).2)

/-- The identity of a new object: none of those before, nor that of the exception being handled. -/
def freshIdent (handled : Option ExcObj) (w : World S) : ℕ :=
  max w.nextIdent (handled.elim 0 fun e => e.ident + 1)

/-- `raise cls(...)`: a new object has no context yet. -/
def raiseNew (cls : PyClass) (serviceName : Option String) : Py S α := fun handled s =>
  let e : ExcObj := ⟨⟨cls, freshIdent handled s.world⟩, serviceName⟩
  raise e handled
    ⟨Function.update s.context e none, { s.world with nextIdent := freshIdent handled s.world + 1 }⟩

/-- `get_metrics().incr(name, tags=tags)`, of a sink that does not raise. -/
def incr (name : String) (tags : List (String × String)) : Py S Unit :=
  step fun w => ({ w with emitted := w.emitted ++ [(name, tags)] }, ())

/-- The handler of the body's exception in `calling`. -/
def handleError (name : String) (e : ExcObj) : Py S V := do
  let tripped ← onBreaker name fun now => P.handleError now e.toPyExc
  if tripped then raiseNew .circuitBreakerError none else reraise e

/-- `with breaker.calling(): body` -/
def calling (name : String) (body : Py S V) : Py S V := do
  let entered ← onBreaker name P.beforeCall
  if entered then
    let outcome ← tryExcept body (handleError P name)
    onBreaker name fun now s => (P.handleSuccess now s, ())
    return outcome
  else raiseNew .circuitBreakerError none

/-- `__init__` -/
def create (name : String) (config : BreakerConfig) : S :=
  P.create config.failMax config.resetTimeout (config.excludedExceptions ++ [.cancelledError]) name

def call (name : String) (func : Py S V) : Py S V :=
  tryExcept (calling P name func) fun exc =>
    if isinstance exc.toPyExc .circuitBreakerError then do
      match ← contextOf exc with
      | some e => raise e
      | none =>
        incr "breaker.short_circuit" [("service", name)]
        raiseNew .serviceUnavailableError (some name)
    else reraise exc

/-- `_PYBREAKER_STATE_MAP` -/
def PYBREAKER_STATE_MAP : List (String × BreakerState) :=
  [("closed", .CLOSED), ("open", .OPEN), ("half-open", .HALF_OPEN)]

def state (name : String) : Py S BreakerState :=
  step fun w => (w, (PYBREAKER_STATE_MAP.lookup (P.currentState (w.breakers name))).getD .CLOSED)

def reset (name : String) : Py S Unit := do
  onBreaker name fun _ s => (P.close s, ())
  incr "breaker.reset" [("service", name)]

/-! ### What `call` raises -/

variable {P} {name : String} {func : Py S V} {handled : Option ExcObj} {s s' : Heap ExcObj (World S)}

/-- The call is short-circuited. -/
def Refused (P : Pybreaker S) (name : String) (w : World S) : Prop :=
  (P.beforeCall w.now (w.breakers name)).2 = false

/-- The exception that the function raised trips the breaker. -/
def Trips (P : Pybreaker S) (name : String) (w : World S) (e : ExcObj) : Prop :=
  (P.handleError w.now e.toPyExc (w.breakers name)).2 = true

/-- What the function starts from. -/
def entered (P : Pybreaker S) (name : String) (s : Heap ExcObj (World S)) : Heap ExcObj (World S) :=
  { s with world := s.world.setBreaker name (P.beforeCall s.world.now (s.world.breakers name)).1 }

theorem onBreaker_bind {β : Type} {f : ℚ → S → S × α} {g : α → Py S β} :
    (onBreaker name f >>= g) handled s = g (f s.world.now (s.world.breakers name)).2 handled
      { s with world := s.world.setBreaker name (f s.world.now (s.world.breakers name)).1 } := rfl

/-- A new object is raised with what is handled as its context. -/
theorem raiseNew_eq (cls : PyClass) (serviceName : Option String) (handled : Option ExcObj)
    (s : Heap ExcObj (World S)) : ∃ (e : ExcObj) (s' : Heap ExcObj (World S)),
    (raiseNew cls serviceName : Py S α) handled s = (s', .error e) ∧ e.cls = cls ∧
      e.serviceName = serviceName ∧ s'.context e = handled := by
  let e : ExcObj := ⟨⟨cls, freshIdent handled s.world⟩, serviceName⟩
  refine ⟨e, _, rfl, rfl, rfl, ?_⟩
  show chain (Function.update s.context e none) e handled e = handled
  cases handled with
  | none => rw [chain_none, Function.update_self]
  | some a =>
    refine chain_self fun hae => ?_
    have hident : a.ident = freshIdent (some a) s.world := congrArg (fun x : ExcObj => x.ident) hae
    have hle : a.ident + 1 ≤ freshIdent (some a) s.world := le_max_right _ _
    omega

/-- `calling` of a breaker that refuses. -/
theorem calling_refused (func : Py S V) (handled : Option ExcObj) (h : Refused P name s.world) :
    calling P name func handled s = raiseNew .circuitBreakerError none handled (entered P name s) := by
  rw [calling, onBreaker_bind, if_neg (by rw [h]; decide)]
  rfl

/-- `calling` of a breaker that lets the body run. -/
theorem calling_entered (func : Py S V) (handled : Option ExcObj) (h : ¬ Refused P name s.world) :
    calling P name func handled s = (do
      let outcome ← tryExcept func (handleError P name)
      onBreaker name fun now s => (P.handleSuccess now s, ())
      return outcome : Py S V) handled (entered P name s) := by
  rw [calling, onBreaker_bind, if_pos (by simpa [Refused] using h)]
  rfl

/-- What `call` raises for a `CircuitBreakerError`: its context, or else the service's own error. -/
theorem call_of_breakerError {e : ExcObj} (h : calling P name func handled s = (s', .error e))
    (he : isinstance e.toPyExc .circuitBreakerError = true) :
    ∃ x, (call P name func handled s).2 = .error x ∧
      match s'.context e with
      | none => x.cls = .serviceUnavailableError ∧ x.serviceName = some name
      | some c => x = c := by
  rw [call, tryExcept_error h, if_pos he, contextOf_bind]
  cases s'.context e with
  | some c => exact ⟨c, rfl, rfl⟩
  | none =>
    obtain ⟨x, s₂, hx, hcls, hname, -⟩ := raiseNew_eq (α := V) .serviceUnavailableError (some name) (some e) _
    exact ⟨x, congrArg Prod.snd hx, hcls, hname⟩

/-- Any other exception passes through. -/
theorem call_of_other {e : ExcObj} (h : calling P name func handled s = (s', .error e))
    (he : isinstance e.toPyExc .circuitBreakerError = false) :
    (call P name func handled s).2 = .error e := by
  rw [call, tryExcept_error h, he]
  rfl

theorem isinstance_of_cls {e : PyExc} {c : PyClass} (h : e.cls = c) : isinstance e c = true := by
  rw [isinstance, h]
  exact decide_eq_true List.mem_cons_self

/-- A call that is short-circuited raises what its caller is handling, if anything. -/
theorem call_refused (func : Py S V) (handled : Option ExcObj) (h : Refused P name s.world) :
    ∃ x, (call P name func handled s).2 = .error x ∧
      match handled with
      | none => x.cls = .serviceUnavailableError ∧ x.serviceName = some name
      | some a => x = a := by
  obtain ⟨e, s', hraise, hcls, -, hcontext⟩ :=
    raiseNew_eq (α := V) .circuitBreakerError none handled (entered P name s)
  have hcall := call_of_breakerError ((calling_refused func handled h).trans hraise) (isinstance_of_cls hcls)
  rwa [hcontext] at hcall

section Entered

variable (h : ¬ Refused P name s.world)

include h

/-- `calling` of a body that raises ends with what the handler raises. -/
theorem calling_raised {e x : ExcObj} {s₂ : Heap ExcObj (World S)}
    (hf : func handled (entered P name s) = (s', .error e))
    (hx : (handleError P name e : Py S V) (some e) s' = (s₂, .error x)) :
    calling P name func handled s = (s₂, .error x) := by
  rw [calling_entered _ _ h, bind_error ((tryExcept_error hf).trans hx)]

/-- The tripping call raises the exception of its function. -/
theorem call_tripped {e : ExcObj} (hf : func handled (entered P name s) = (s', .error e))
    (ht : Trips P name s'.world e) : (call P name func handled s).2 = .error e := by
  obtain ⟨x, s₂, hraise, hcls, -, hcontext⟩ := raiseNew_eq (α := V) .circuitBreakerError none (some e)
    ⟨s'.context, s'.world.setBreaker name (P.handleError s'.world.now e.toPyExc (s'.world.breakers name)).1⟩
  have hx : (handleError P name e : Py S V) (some e) s' = (s₂, .error x) := by
    rw [handleError, onBreaker_bind, if_pos (by exact ht)]
    exact hraise
  obtain ⟨y, hy, hxy⟩ := call_of_breakerError (calling_raised h hf hx) (isinstance_of_cls hcls)
  rw [hcontext] at hxy
  rw [hy, hxy]

theorem calling_passes {e : ExcObj} (hf : func handled (entered P name s) = (s', .error e))
    (ht : ¬ Trips P name s'.world e) :
    ∃ w, calling P name func handled s = (⟨s'.context, w⟩, .error e) := by
  refine ⟨s'.world.setBreaker name (P.handleError s'.world.now e.toPyExc (s'.world.breakers name)).1,
    calling_raised h hf ?_⟩
  rw [handleError, onBreaker_bind, if_neg (by exact ht)]
  rfl

/-- Where the breaker does not trip, the exception passes, unless the function raised a
`CircuitBreakerError` of its own. -/
theorem call_passes {e : ExcObj} (hf : func handled (entered P name s) = (s', .error e))
    (ht : ¬ Trips P name s'.world e) (he : isinstance e.toPyExc .circuitBreakerError = false) :
    (call P name func handled s).2 = .error e := by
  obtain ⟨w, hcalling⟩ := calling_passes h hf ht
  exact call_of_other hcalling he

theorem call_mistaken {e : ExcObj} (hf : func handled (entered P name s) = (s', .error e))
    (ht : ¬ Trips P name s'.world e) (he : isinstance e.toPyExc .circuitBreakerError = true) :
    ∃ x, (call P name func handled s).2 = .error x ∧
      match s'.context e with
      | none => x.cls = .serviceUnavailableError ∧ x.serviceName = some name
      | some c => x = c := by
  obtain ⟨w, hcalling⟩ := calling_passes h hf ht
  have hcall := call_of_breakerError hcalling he
  exact hcall

end Entered

/-! ### Error identity -/

/-- A short-circuited call raises the error of this service, and what the function raised is raised. -/
def IdentifiesErrors (P : Pybreaker S) (name : String) (func : Py S V) (handled : Option ExcObj)
    (s : Heap ExcObj (World S)) : Prop :=
  (Refused P name s.world → ∃ x, (call P name func handled s).2 = .error x ∧
    isinstance x.toPyExc .serviceUnavailableError = true ∧ x.serviceName = some name) ∧
  (¬ Refused P name s.world → ∀ s' e, func handled (entered P name s) = (s', .error e) →
    (call P name func handled s).2 = .error e)

/-- A call tells its errors apart exactly when, short-circuited, it is made outside of every handler (or in
the handler of that very error of the service), and when its function raises no `CircuitBreakerError` short
of tripping the breaker. -/
theorem identifies_errors_iff (P : Pybreaker S) (name : String) (func : Py S V) (handled : Option ExcObj)
    (s : Heap ExcObj (World S)) : IdentifiesErrors P name func handled s ↔
      (Refused P name s.world → ∀ a, handled = some a →
        isinstance a.toPyExc .serviceUnavailableError = true ∧ a.serviceName = some name) ∧
      (¬ Refused P name s.world → ∀ s' e, func handled (entered P name s) = (s', .error e) →
        isinstance e.toPyExc .circuitBreakerError = true →
          Trips P name s'.world e ∨ s'.context e = some e) := by
  refine and_congr (imp_congr_right fun h => ?_) (imp_congr_right fun h => forall₂_congr fun s' e =>
    imp_congr_right fun hf => ?_)
  · obtain ⟨x, hx, hcase⟩ := call_refused func handled h
    rw [hx]
    cases handled with
    | none =>
      refine iff_of_true ⟨x, rfl, isinstance_of_cls hcase.1, hcase.2⟩ fun a ha => ?_
      cases ha
    | some a =>
      obtain rfl : x = a := hcase
      constructor
      · rintro ⟨y, hy, hcls, hname⟩ a ha
        obtain rfl := Except.error.inj hy
        obtain rfl := Option.some.inj ha
        exact ⟨hcls, hname⟩
      · intro hown
        exact ⟨x, rfl, hown x rfl⟩
  · by_cases ht : Trips P name s'.world e
    · exact iff_of_true (call_tripped h hf ht) fun _ => .inl ht
    by_cases he : isinstance e.toPyExc .circuitBreakerError = true
    · obtain ⟨x, hx, hcase⟩ := call_mistaken h hf ht he
      rw [hx]
      cases hc : s'.context e with
      | none =>
        rw [hc] at hcase
        refine iff_of_false (fun hxe => ?_) fun hown => ?_
        · obtain rfl := Except.error.inj hxe
          rw [isinstance, hcase.1] at he
          exact absurd he (by decide)
        · rcases hown he with ht' | hself
          · exact ht ht'
          · cases hself
      | some c =>
        rw [hc] at hcase
        obtain rfl : x = c := hcase
        constructor
        · intro hxe _
          exact .inr (congrArg some (Except.error.inj hxe))
        · intro hown
          rcases hown he with ht' | hself
          · exact absurd ht' ht
          · rw [Option.some.inj hself]
    · exact iff_of_true (call_passes h hf ht (Bool.eq_false_iff.mpr he)) fun he' => absurd he' he

/-- A fallback that is short-circuited hides itself behind the failure it is called for. -/
theorem fallback_raises_primary (primary secondary : String) (func fallback : Py S V) {x : ExcObj}
    (hx : call P primary func handled s = (s', .error x)) (h : Refused P secondary s'.world) :
    (tryExcept (call P primary func) (fun _ => call P secondary fallback) handled s).2 = .error x := by
  rw [tryExcept_error hx]
  obtain ⟨y, hy, rfl⟩ := call_refused fallback (some x) h
  exact hy

end PyBreakerAsyncBreaker

/-! ### A `pybreaker` to run -/

/-- `CircuitBreaker` with `CircuitMemoryStorage`. -/
structure CircuitMemoryBreaker where
  failMax : ℤ
  resetTimeout : ℚ
  exclude : List PyClass
  state : BreakerState := .CLOSED
  failCounter : ℕ := 0
  openedAt : ℚ := 0

namespace CircuitMemoryBreaker

def handleSuccess (s : CircuitMemoryBreaker) : CircuitMemoryBreaker :=
  { s with state := if s.state = .HALF_OPEN then .CLOSED else s.state, failCounter := 0 }

def trip (now : ℚ) (s : CircuitMemoryBreaker) : CircuitMemoryBreaker :=
  { s with state := .OPEN, failCounter := s.failCounter + 1, openedAt := now }

def pybreaker : Pybreaker CircuitMemoryBreaker where
  create failMax resetTimeout exclude _ := { failMax, resetTimeout, exclude }
  beforeCall now s :=
    if s.state = .OPEN then
      if now < s.openedAt + s.resetTimeout then (s, false) else ({ s with state := .HALF_OPEN }, true)
    else (s, true)
  handleSuccess _ s := s.handleSuccess
  handleError now exc s :=
    if catches s.exclude exc then (s.handleSuccess, false)
    else if s.state = .HALF_OPEN then (s.trip now, true)
    else if s.failMax ≤ s.failCounter + 1 then (s.trip now, true)
    else ({ s with failCounter := s.failCounter + 1 }, false)
  currentState s :=
    match s.state with
    | .CLOSED => "closed"
    | .OPEN => "open"
    | .HALF_OPEN => "half-open"
  close s := { s with state := .CLOSED, failCounter := 0 }

end CircuitMemoryBreaker

namespace PyBreakerAsyncBreaker

/-- Every breaker is OPEN. -/
def allOpen : Heap ExcObj (World CircuitMemoryBreaker) :=
  ⟨fun _ => none,
    { breakers := fun _ => { failMax := 5, resetTimeout := 30, exclude := [], state := .OPEN } }⟩

/-- The timeout of a primary service hides that the fallback was short-circuited. -/
theorem errors_confused_in_handler :
    ¬ IdentifiesErrors CircuitMemoryBreaker.pybreaker "secondary" (pure 7 : Py CircuitMemoryBreaker ℕ)
      (some ⟨⟨.externalTimeoutError, 1⟩, none⟩) allOpen := by
  have hrefused : Refused CircuitMemoryBreaker.pybreaker "secondary" allOpen.world := by
    show (CircuitMemoryBreaker.pybreaker.beforeCall _ _).2 = false
    decide +kernel
  rintro ⟨h, -⟩
  obtain ⟨x, hx, -, hname⟩ := h hrefused
  obtain ⟨y, hy, rfl⟩ := call_refused (pure 7 : Py CircuitMemoryBreaker ℕ)
    (some ⟨⟨.externalTimeoutError, 1⟩, none⟩) hrefused
  obtain rfl := Except.error.inj (hx.symm.trans hy)
  cases hname

end PyBreakerAsyncBreaker

end ResilienceKit

import Mathlib.Tactic.Linarith
import ResilienceKit.CircuitBreaker.Memory
import ResilienceKit.CircuitBreaker.PyBreaker

/-!
# CircuitBreaker.PyBreakerRuns — the adapter against the in-memory breaker

`Documented` is what the kit can rely on of `pybreaker`.  The two breakers get the same calls, one after the
other.  They stay alike exactly along the runs whose calls are `Faithful`: an excluded exception finds no
failure to forget, and a success that HALF_OPEN lets in closes the in-memory breaker as well.
-/

namespace ResilienceKit

open Mealy (Agree)

/-- What `pybreaker` documents, as seen in the fields of `view`: excluded exceptions are handled as
successes, and one success closes a HALF_OPEN breaker. -/
structure Pybreaker.Documented {S : Type} (P : Pybreaker S) where
  view : S → CircuitMemoryBreaker
  created : ∀ failMax resetTimeout exclude name,
    view (P.create failMax resetTimeout exclude name) = { failMax, resetTimeout, exclude }
  entered : ∀ now s, (view s).state ≠ .OPEN →
    view (P.beforeCall now s).1 = view s ∧ (P.beforeCall now s).2 = true
  refused : ∀ now s, (view s).state = .OPEN → now < (view s).openedAt + (view s).resetTimeout →
    view (P.beforeCall now s).1 = view s ∧ (P.beforeCall now s).2 = false
  timedOut : ∀ now s, (view s).state = .OPEN → (view s).openedAt + (view s).resetTimeout ≤ now →
    view (P.beforeCall now s).1 = { view s with state := .HALF_OPEN } ∧ (P.beforeCall now s).2 = true
  success : ∀ now s, (view s).state ≠ .OPEN →
    view (P.handleSuccess now s) = { view s with state := .CLOSED, failCounter := 0 }
  excluded : ∀ now e s, catches (view s).exclude e = true →
    P.handleError now e s = (P.handleSuccess now s, false)
  counted : ∀ now e s, catches (view s).exclude e = false → (view s).state = .CLOSED →
    (view s).failCounter + 1 < (view s).failMax →
    view (P.handleError now e s).1 = { view s with failCounter := (view s).failCounter + 1 }
  trips : ∀ now e s, catches (view s).exclude e = false →
    ((view s).state = .CLOSED ∧ (view s).failMax ≤ (view s).failCounter + 1) ∨ (view s).state = .HALF_OPEN →
    ∃ n, view (P.handleError now e s).1 = { view s with state := .OPEN, failCounter := n, openedAt := now }

/-- A call, with the clock at its start and at its end. -/
structure Call (V : Type) where
  start : ℚ
  outcome : Outcome V
  finish : ℚ

/-- The calls of a backend, one after the other; says which are admitted. -/
def AsyncBreaker.calls {S V : Type} (B : AsyncBreaker S) (cfg : BreakerConfig) (init : S) :
    Mealy S (Call V) Bool where
  init := init
  step s c :=
    let (s, a) := B.admission c.start s
    if a.admitted then (B.complete cfg c.finish c.outcome s, true) else (s, false)

theorem BreakerState.closed_of_ne {s : BreakerState} (ho : s ≠ .OPEN) (hh : s ≠ .HALF_OPEN) :
    s = .CLOSED := by
  cases s with
  | CLOSED => rfl
  | OPEN => exact absurd rfl ho
  | HALF_OPEN => exact absurd rfl hh

namespace PyBreakerAsyncBreaker

open Handling

variable {S V : Type} (P : Pybreaker S)

/-- The end of the `with` block. -/
def complete (now : ℚ) (o : Outcome V) (s : S) : S :=
  match o with
  | .returned _ => P.handleSuccess now s
  | .raised e => (P.handleError now e s).1

/-- The calls of the adapter, one after the other. -/
def calls (name : String) (cfg : BreakerConfig) : Mealy S (Call V) Bool where
  init := create P name cfg
  step s c :=
    let (s, entered) := P.beforeCall c.start s
    if entered then (complete P c.finish c.outcome s, true) else (s, false)

/-- A function that takes until `c.finish` and ends as `c.outcome`. -/
def played (c : Call V) : Py S V := fun _ h =>
  ({ h with world := { h.world with now := c.finish } },
    match c.outcome with
    | .returned v => .ok v
    | .raised e => .error ⟨e, none⟩)

/-! ### The steps of `call` -/

variable {P} {name : String}

@[simp] theorem setBreaker_self (w : World S) (name : String) (s : S) :
    (w.setBreaker name s).breakers name = s :=
  Function.update_self _ _ _

/-- Where a call of a breaker in state `s` starts. -/
def scene (s : S) (c : Call V) : Heap ExcObj (World S) :=
  ⟨fun _ => none, { breakers := fun _ => s, now := c.start }⟩

/-- What `call` does with an exception of `calling` leaves the breakers alone. -/
theorem call_breakers (func : Py S V) (handled : Option ExcObj) (s : Heap ExcObj (World S)) :
    (call P name func handled s).1.world.breakers = (calling P name func handled s).1.world.breakers := by
  rcases h : calling P name func handled s with ⟨s', e | v⟩
  · rw [call, tryExcept_error h]
    split_ifs
    · rw [contextOf_bind]
      cases s'.context e <;> rfl
    · rfl
  · rw [call, tryExcept_ok h]

/-- The handler of `calling` tells the breaker, and raises. -/
theorem handleError_breaker (P : Pybreaker S) (name : String) (e : ExcObj) (handled : Option ExcObj)
    (s : Heap ExcObj (World S)) :
    ∃ s' x, (handleError P name e : Py S V) handled s = (s', .error x) ∧
      s'.world.breakers name = (P.handleError s.world.now e.toPyExc (s.world.breakers name)).1 := by
  rw [handleError, onBreaker_bind]
  split_ifs
  · exact ⟨_, _, rfl, setBreaker_self _ _ _⟩
  · exact ⟨_, _, rfl, setBreaker_self _ _ _⟩

/-- `calls` is what `call` does to the breaker. -/
theorem call_steps (cfg : BreakerConfig) (s : S) (c : Call V) :
    (call P name (played c) none (scene s c)).1.world.breakers name = (calls P name cfg).next s c := by
  rw [call_breakers]
  by_cases h : (P.beforeCall c.start s).2 = true
  · have hin : ¬ Refused P name (scene s c).world := by simpa [Refused, scene] using h
    let w : World S := { (entered P name (scene s c)).world with now := c.finish }
    have hw : w.breakers name = (P.beforeCall c.start s).1 := setBreaker_self _ _ _
    have hnext : (calls P name cfg).next s c = complete P c.finish c.outcome (P.beforeCall c.start s).1 := by
      simp [Mealy.next, calls, h]
    rw [calling_entered _ _ hin, hnext]
    cases hc : c.outcome with
    | returned v =>
      have hf : (played c : Py S V) none (entered P name (scene s c)) = (⟨fun _ => none, w⟩, .ok v) := by
        rw [played, hc]
        rfl
      rw [bind_ok (tryExcept_ok hf), onBreaker_bind]
      show (w.setBreaker name (P.handleSuccess w.now (w.breakers name))).breakers name = _
      rw [setBreaker_self, hw]
      rfl
    | raised e =>
      have hf : (played c : Py S V) none (entered P name (scene s c)) =
          (⟨fun _ => none, w⟩, .error ⟨e, none⟩) := by
        rw [played, hc]
        rfl
      obtain ⟨s', x, hx, hs'⟩ :=
        handleError_breaker (V := V) P name ⟨e, none⟩ (some ⟨e, none⟩) ⟨fun _ => none, w⟩
      rw [bind_error ((tryExcept_error hf).trans hx), hs', hw]
      rfl
  · have hout : Refused P name (scene s c).world := by simpa [Refused, scene] using h
    have hnext : (calls (V := V) P name cfg).next s c = (P.beforeCall c.start s).1 := by
      simp [Mealy.next, calls, h]
    rw [calling_refused _ _ hout, hnext]
    exact setBreaker_self _ _ _

/-! ### Alike breakers -/

/-- The in-memory breaker and what is seen of the adapter's are OPEN since the same time, or neither is. -/
structure OpenAlike (cfg : BreakerConfig) (m : InMemoryAsyncBreaker) (v : CircuitMemoryBreaker) : Prop where
  failMax : v.failMax = cfg.failMax
  resetTimeout : v.resetTimeout = cfg.resetTimeout
  exclude : v.exclude = cfg.excludedExceptions ++ [.cancelledError]
  isOpen : v.state = .OPEN ↔ m.state = .OPEN
  openedAt : m.state = .OPEN → m.openedAt = some v.openedAt

/-- They are in the same state, and in CLOSED have counted the same failures. -/
structure Same (cfg : BreakerConfig) (m : InMemoryAsyncBreaker) (v : CircuitMemoryBreaker) : Prop
    extends OpenAlike cfg m v where
  state : v.state = m.state
  streak : m.state = .CLOSED → v.failCounter = m.failureCount
  successCount : m.state = .HALF_OPEN → m.successCount = 0

/-- Alike in their states, and in CLOSED in the failures in a row. -/
def Observed (m : InMemoryAsyncBreaker) (v : CircuitMemoryBreaker) : Prop :=
  m.state = v.state ∧ (m.state = .CLOSED → m.failureCount = v.failCounter)

/-- Alike in the admission of a call, and after it. -/
def Alike (L : P.Documented) (r : Mealy.Step InMemoryAsyncBreaker (Call V) Bool)
    (r' : Mealy.Step S (Call V) Bool) : Prop :=
  r.out = r'.out ∧ Observed r.post (L.view r'.post)

/-- The end of a call that was admitted in the state `m`. -/
def FaithfulEnd (cfg : BreakerConfig) (m : InMemoryAsyncBreaker) (o : Outcome V) : Prop :=
  match cfg.verdict o with
  | .success => m.state = .HALF_OPEN → cfg.successThreshold ≤ 1
  | .failure => True
  | .uncounted => m.state = .CLOSED ∧ m.failureCount = 0

/-- A call whose end both breakers count alike. -/
def Faithful (cfg : BreakerConfig) (m : InMemoryAsyncBreaker) (c : Call V) : Prop :=
  (InMemoryAsyncBreaker.maybeHalfOpen cfg c.start m).state ≠ .OPEN →
    FaithfulEnd cfg (InMemoryAsyncBreaker.maybeHalfOpen cfg c.start m) c.outcome

section Step

open InMemoryAsyncBreaker

variable {L : P.Documented} {cfg : BreakerConfig} {m : InMemoryAsyncBreaker} {s : S} {now : ℚ}

/-- `exclude` lists what the in-memory breaker does not count. -/
theorem catches_exclude_iff (e : PyExc) : catches (cfg.excludedExceptions ++ [.cancelledError]) e = true ↔
    cfg.verdict (.raised e : Outcome V) = .uncounted := by
  have hsplit : catches (cfg.excludedExceptions ++ [.cancelledError]) e =
      (catches cfg.excludedExceptions e || isinstance e .cancelledError) := by
    rw [catches, List.any_append, List.any_cons, List.any_nil, Bool.or_false]
    rfl
  rw [hsplit, BreakerConfig.verdict]
  split_ifs with h1 h2
  · simp [h1]
  · simp [h2]
  · simp [h1, h2]

/-- What the admission steps of both do. -/
theorem OpenAlike.cases (h : OpenAlike cfg m (L.view s)) (now : ℚ) :
    (m.state = .OPEN ∧ maybeHalfOpen cfg now m = { m with state := .HALF_OPEN, successCount := 0 } ∧
      L.view (P.beforeCall now s).1 = { L.view s with state := .HALF_OPEN } ∧ (P.beforeCall now s).2 = true) ∨
    (maybeHalfOpen cfg now m = m ∧ L.view (P.beforeCall now s).1 = L.view s ∧
      (P.beforeCall now s).2 = decide (m.state ≠ .OPEN)) := by
  by_cases ho : m.state = .OPEN
  · have hv : (L.view s).state = .OPEN := h.isOpen.mpr ho
    by_cases ht : (L.view s).openedAt + (L.view s).resetTimeout ≤ now
    · obtain ⟨hview, hin⟩ := L.timedOut now s hv ht
      have hle : now - (L.view s).openedAt ≥ cfg.resetTimeout := by
        rw [h.resetTimeout] at ht
        linarith
      exact .inl ⟨ho, by simp [maybeHalfOpen, ho, h.openedAt ho, hle], hview, hin⟩
    · obtain ⟨hview, hin⟩ := L.refused now s hv (not_le.mp ht)
      have hle : ¬ now - (L.view s).openedAt ≥ cfg.resetTimeout := by
        rw [h.resetTimeout] at ht
        intro hle
        exact ht (by linarith)
      exact .inr ⟨by simp [maybeHalfOpen, ho, h.openedAt ho, hle], hview, by simp [hin, ho]⟩
  · obtain ⟨hview, hin⟩ := L.entered now s fun hv => ho (h.isOpen.mp hv)
    exact .inr ⟨by simp [maybeHalfOpen, ho], hview, by simp [hin, ho]⟩

/-- The admission steps agree. -/
theorem OpenAlike.admission (h : OpenAlike cfg m (L.view s)) (now : ℚ) :
    OpenAlike cfg (maybeHalfOpen cfg now m) (L.view (P.beforeCall now s).1) ∧
      (P.beforeCall now s).2 = decide ((maybeHalfOpen cfg now m).state ≠ .OPEN) := by
  rcases h.cases now with ⟨-, hm, hview, hin⟩ | ⟨hm, hview, hin⟩
  · rw [hm, hview, hin]
    exact ⟨⟨h.failMax, h.resetTimeout, h.exclude, iff_of_false nofun nofun, nofun⟩, rfl⟩
  · rw [hm, hview]
    exact ⟨h, hin⟩

theorem Same.admission (h : Same cfg m (L.view s)) (now : ℚ) :
    Same cfg (maybeHalfOpen cfg now m) (L.view (P.beforeCall now s).1) := by
  have hopen := (h.toOpenAlike.admission now).1
  rcases h.toOpenAlike.cases now with ⟨-, hm, hview, -⟩ | ⟨hm, hview, -⟩
  · rw [hm, hview] at hopen ⊢
    exact ⟨hopen, rfl, nofun, fun _ => rfl⟩
  · rw [hm, hview]
    exact h

/-- What is not a failure makes the adapter's breaker forget the failures before. -/
theorem complete_forgets (h : OpenAlike cfg m (L.view s)) (ho : m.state ≠ .OPEN) (now : ℚ) {o : Outcome V}
    (hv : cfg.verdict o ≠ .failure) :
    L.view (complete P now o s) = { L.view s with state := .CLOSED, failCounter := 0 } := by
  have hs : (L.view s).state ≠ .OPEN := fun hs => ho (h.isOpen.mp hs)
  cases o with
  | returned v => exact L.success now s hs
  | raised e =>
    have hunc : cfg.verdict (.raised e : Outcome V) = .uncounted := by
      simp only [BreakerConfig.verdict] at hv ⊢
      split_ifs at hv ⊢
      · rfl
      · rfl
      · exact absurd rfl hv
    have hc : catches (L.view s).exclude e = true := by
      rw [h.exclude]
      exact (catches_exclude_iff e).mpr hunc
    rw [complete, L.excluded now e s hc]
    exact L.success now s hs

theorem Same.forgotten (h : Same cfg m (L.view s)) {o : Outcome V}
    (hview : L.view (complete P now o s) = { L.view s with state := .CLOSED, failCounter := 0 })
    (m' : InMemoryAsyncBreaker) (hc : m'.state = .CLOSED) (hf : m'.failureCount = 0) :
    Observed m' (L.view (complete P now o s)) ∧ Same cfg m' (L.view (complete P now o s)) := by
  rw [hview]
  refine ⟨⟨hc, fun _ => hf⟩, ⟨h.failMax, h.resetTimeout, h.exclude, iff_of_false nofun ?_, ?_⟩, hc.symm,
    fun _ => hf.symm, ?_⟩
  · rw [hc]
    exact nofun
  · rw [hc]
    exact nofun
  · rw [hc]
    exact nofun

/-- What a counted exception does to the adapter's breaker. -/
theorem handleError_cases (hs : (L.view s).state ≠ .OPEN) {e : PyExc}
    (hc : catches (L.view s).exclude e = false) (now : ℚ) :
    ((L.view s).state = .CLOSED ∧ ((L.view s).failCounter + 1 : ℤ) < (L.view s).failMax ∧
      L.view (P.handleError now e s).1 = { L.view s with failCounter := (L.view s).failCounter + 1 }) ∨
    (((L.view s).state = .CLOSED → (L.view s).failMax ≤ (L.view s).failCounter + 1) ∧ ∃ n,
      L.view (P.handleError now e s).1 =
        { L.view s with state := .OPEN, failCounter := n, openedAt := now }) := by
  by_cases hh : (L.view s).state = .HALF_OPEN
  · exact .inr ⟨fun hclosed => absurd (hh.symm.trans hclosed) (by decide), L.trips now e s hc (.inr hh)⟩
  · have hclosed := BreakerState.closed_of_ne hs hh
    by_cases hlt : ((L.view s).failCounter + 1 : ℤ) < (L.view s).failMax
    · exact .inl ⟨hclosed, hlt, L.counted now e s hc hclosed hlt⟩
    · exact .inr ⟨fun _ => not_lt.mp hlt, L.trips now e s hc (.inl ⟨hclosed, not_lt.mp hlt⟩)⟩

theorem OpenAlike.not_caught (h : OpenAlike cfg m (L.view s)) {e : PyExc}
    (hv : cfg.verdict (.raised e : Outcome V) = .failure) : catches (L.view s).exclude e = false := by
  rw [h.exclude, Bool.eq_false_iff]
  intro hc
  rw [catches_exclude_iff (V := V), hv] at hc
  cases hc

/-- A failure is counted alike. -/
theorem Same.failure (h : Same cfg m (L.view s)) (ho : m.state ≠ .OPEN) (now : ℚ) {e : PyExc}
    (hv : cfg.verdict (.raised e : Outcome V) = .failure) :
    Observed (recordFailure cfg now m) (L.view (P.handleError now e s).1) ∧
      Same cfg (recordFailure cfg now m) (L.view (P.handleError now e s).1) := by
  have hs : (L.view s).state ≠ .OPEN := h.state ▸ ho
  rcases handleError_cases hs (h.not_caught hv) now with ⟨hclosed, hlt, hview⟩ | ⟨hmax, n, hview⟩
  · have hm : m.state = .CLOSED := h.state.symm.trans hclosed
    rw [h.streak hm, h.failMax] at hlt
    rw [hview, h.streak hm, recordFailure_counts (by rw [hm]; decide) hlt]
    exact ⟨⟨h.state.symm, fun _ => rfl⟩, ⟨h.failMax, h.resetTimeout, h.exclude, h.isOpen, h.openedAt⟩,
      h.state, fun _ => rfl, h.successCount⟩
  · have hopens : recordFailure cfg now m = m.openLocked now := by
      by_cases hh : m.state = .HALF_OPEN
      · exact recordFailure_halfOpen hh
      · have hm := BreakerState.closed_of_ne ho hh
        refine recordFailure_opens hh ?_
        rw [← h.failMax, ← h.streak hm]
        exact hmax (h.state.trans hm)
    rw [hopens, hview]
    exact ⟨⟨rfl, nofun⟩, ⟨h.failMax, h.resetTimeout, h.exclude, iff_of_true rfl rfl, fun _ => rfl⟩, rfl,
      nofun, nofun⟩

/-- The ends of a call that was admitted agree exactly when they are faithful. -/
theorem Same.complete (h : Same cfg m (L.view s)) (ho : m.state ≠ .OPEN) (now : ℚ) (o : Outcome V) :
    (Observed ((breaker cfg).complete cfg now o m) (L.view (complete P now o s)) ↔ FaithfulEnd cfg m o) ∧
      (FaithfulEnd cfg m o →
        Same cfg ((breaker cfg).complete cfg now o m)
          (L.view (PyBreakerAsyncBreaker.complete P now o s))) := by
  unfold FaithfulEnd AsyncBreaker.complete
  cases hv : cfg.verdict o with
  | success =>
    have hview := complete_forgets h.toOpenAlike ho now (by rw [hv]; decide)
    show (Observed (recordSuccess cfg m) _ ↔ _) ∧ (_ → Same cfg (recordSuccess cfg m) _)
    by_cases hh : m.state = .HALF_OPEN
    · by_cases ht : cfg.successThreshold ≤ 1
      · rw [recordSuccess_closes hh (by rw [h.successCount hh]; simpa using ht)]
        obtain ⟨hobs, hsame⟩ := h.forgotten hview {} rfl rfl
        exact ⟨iff_of_true hobs fun _ => ht, fun _ => hsame⟩
      · rw [recordSuccess_counts hh (by rw [h.successCount hh]; simpa using ht)]
        refine ⟨iff_of_false (fun hobs => ?_) fun hf => ht (hf hh), fun hf => absurd (hf hh) ht⟩
        rw [hview] at hobs
        have hstate : m.state = .CLOSED := hobs.1
        rw [hh] at hstate
        cases hstate
    · rw [recordSuccess_other hh]
      obtain ⟨hobs, hsame⟩ := h.forgotten hview { m with failureCount := 0 }
        (BreakerState.closed_of_ne ho hh) rfl
      exact ⟨iff_of_true hobs fun hh' => absurd hh' hh, fun _ => hsame⟩
  | failure =>
    cases o with
    | returned v => cases hv
    | raised e =>
      obtain ⟨hobs, hsame⟩ := h.failure ho now hv
      exact ⟨iff_of_true hobs trivial, fun _ => hsame⟩
  | uncounted =>
    have hview := complete_forgets h.toOpenAlike ho now (by rw [hv]; decide)
    show (Observed m _ ↔ _) ∧ (_ → Same cfg m _)
    refine ⟨⟨fun hobs => ?_, fun hf => (h.forgotten hview m hf.1 hf.2).1⟩,
      fun hf => (h.forgotten hview m hf.1 hf.2).2⟩
    rw [hview] at hobs
    exact ⟨hobs.1, hobs.2 hobs.1⟩

theorem memory_step_open {c : Call V} (ho : (maybeHalfOpen cfg c.start m).state = .OPEN) :
    ((breaker cfg).calls cfg {}).step m c = (maybeHalfOpen cfg c.start m, false) := by
  simp [AsyncBreaker.calls, breaker, InMemoryAsyncBreaker.admission, ho]

theorem memory_step (cfg : BreakerConfig) {c : Call V} (ho : (maybeHalfOpen cfg c.start m).state ≠ .OPEN) :
    ((breaker cfg).calls cfg {}).step m c =
      ((breaker cfg).complete cfg c.finish c.outcome (maybeHalfOpen cfg c.start m), true) := by
  simp [AsyncBreaker.calls, breaker, InMemoryAsyncBreaker.admission, ho]

theorem adapter_step_refused (name : String) (cfg : BreakerConfig) {c : Call V}
    (h : (P.beforeCall c.start s).2 = false) :
    (calls P name cfg).step s c = ((P.beforeCall c.start s).1, false) := by
  simp [calls, h]

theorem adapter_step_entered (name : String) (cfg : BreakerConfig) {c : Call V}
    (h : (P.beforeCall c.start s).2 = true) : (calls P name cfg).step s c =
      (PyBreakerAsyncBreaker.complete P c.finish c.outcome (P.beforeCall c.start s).1, true) := by
  simp [calls, h]

/-- **One call** is alike for the observer exactly when it is faithful. -/
theorem Same.call (h : Same cfg m (L.view s)) (name : String) (c : Call V) :
    (Alike L (((breaker cfg).calls cfg {}).record m c) ((calls P name cfg).record s c) ↔ Faithful cfg m c) ∧
      (Faithful cfg m c →
        Same cfg (((breaker cfg).calls cfg {}).next m c) (L.view ((calls P name cfg).next s c))) := by
  have hsame := h.admission c.start
  have hin := (h.toOpenAlike.admission c.start).2
  unfold Faithful
  by_cases ho : (maybeHalfOpen cfg c.start m).state = .OPEN
  · have hs := adapter_step_refused (P := P) name cfg (s := s) (c := c) (by rw [hin]; simpa using ho)
    simp only [Alike, Mealy.record, Mealy.out, Mealy.next, memory_step_open ho, hs, true_and]
    exact ⟨iff_of_true ⟨hsame.state.symm, fun hc => (hsame.streak hc).symm⟩ fun hne => absurd ho hne,
      fun _ => hsame⟩
  · have hs := adapter_step_entered (P := P) name cfg (s := s) (c := c) (by rw [hin]; simpa using ho)
    obtain ⟨hiff, hkeep⟩ := hsame.complete ho c.finish c.outcome
    simp only [Alike, Mealy.record, Mealy.out, Mealy.next, memory_step cfg ho, hs, true_and]
    exact ⟨hiff.trans ⟨fun hf _ => hf, fun hf => hf ho⟩, fun hf => hkeep (hf ho)⟩

end Step

/-- A run of the adapter is alike the in-memory breaker's exactly along faithful calls. -/
theorem alike_iff (L : P.Documented) (name : String) (cfg : BreakerConfig) (cs : List (Call V)) :
    Agree ((InMemoryAsyncBreaker.breaker cfg).calls cfg {}) (calls P name cfg) (Alike L) {}
        (create P name cfg) cs ↔
      ((InMemoryAsyncBreaker.breaker cfg).calls cfg {}).Along (fun _ m c => Faithful cfg m c) {} cs := by
  refine Mealy.agree_iff_along (R := fun m s => Same cfg m (L.view s)) ?_
    (fun _ m s c h => (h.call name c).1) (fun m s c h ha => (h.call name c).2 ((h.call name c).1.mp ha)) cs
  rw [create, L.created]
  exact ⟨⟨rfl, rfl, rfl, iff_of_false nofun nofun, nofun⟩, rfl, fun _ => rfl, nofun⟩


/-! ### Which configurations admit alike -/

/-- No call starts before the one before it has ended. -/
def Clocked (cs : List (Call V)) : Prop := cs.Pairwise fun c d => c.finish ≤ d.start

/-- A machine that admits what is due, and is due again when an admitted call has ended, admits every call. -/
theorem outs_of_due {σ : Type} {M : Mealy σ (Call V) Bool} (Due : σ → ℚ → Prop)
    (hstep : ∀ s c, Due s c.start → M.out s c = true ∧ ∀ t, c.finish ≤ t → Due (M.next s c) t)
    {s : σ} {cs : List (Call V)} (hcs : Clocked cs) (h : ∀ t, Due s t) :
    M.outs s cs = List.replicate cs.length true := by
  have hgen : ∀ cs : List (Call V), Clocked cs → ∀ s, (∀ c ∈ cs, Due s c.start) →
      M.outs s cs = List.replicate cs.length true := by
    intro cs
    induction cs with
    | nil => exact fun _ _ _ => rfl
    | cons c cs ih =>
      intro hcs s hdue
      obtain ⟨hlater, hrest⟩ := List.pairwise_cons.mp hcs
      obtain ⟨hout, hnext⟩ := hstep s c (hdue c List.mem_cons_self)
      rw [Mealy.outs_cons, hout, ih hrest _ fun d hd => hnext _ (hlater d hd), List.length_cons,
        List.replicate_succ]
  exact hgen cs hcs s fun c _ => h c.start

section Admissions

open InMemoryAsyncBreaker

variable {L : P.Documented} {cfg : BreakerConfig} {m : InMemoryAsyncBreaker} {s : S}

theorem recordSuccess_not_open (ho : m.state ≠ .OPEN) : (recordSuccess cfg m).state ≠ .OPEN := by
  by_cases hh : m.state = .HALF_OPEN
  · by_cases hs : cfg.successThreshold ≤ m.successCount + 1
    · rw [recordSuccess_closes hh hs]
      exact nofun
    · rw [recordSuccess_counts hh (not_le.mp hs)]
      exact ho
  · rw [recordSuccess_other hh]
    exact ho

/-- A breaker that opens when a call ends is OPEN since then. -/
theorem memory_opened_at_end (ho : m.state ≠ .OPEN) {now : ℚ} {o : Outcome V}
    (hc : ((breaker cfg).complete cfg now o m).state = .OPEN) :
    ((breaker cfg).complete cfg now o m).openedAt = some now := by
  unfold AsyncBreaker.complete at hc ⊢
  cases hv : cfg.verdict o with
  | success =>
    rw [hv] at hc
    exact absurd hc (recordSuccess_not_open ho)
  | uncounted =>
    rw [hv] at hc
    exact absurd hc ho
  | failure =>
    rw [hv] at hc
    show (recordFailure cfg now m).openedAt = some now
    have hc' : (recordFailure cfg now m).state = .OPEN := hc
    by_cases hh : m.state = .HALF_OPEN
    · rw [recordFailure_halfOpen hh]
      rfl
    · by_cases hf : cfg.failMax ≤ m.failureCount + 1
      · rw [recordFailure_opens hh hf]
        rfl
      · rw [recordFailure_counts hh (not_le.mp hf)] at hc'
        exact absurd hc' ho

/-- What the end of a call can leave of the adapter's breaker. -/
theorem view_complete_cases (hs : (L.view s).state ≠ .OPEN) (now : ℚ) (o : Outcome V) : ∃ n,
    L.view (complete P now o s) = { L.view s with state := .CLOSED, failCounter := n } ∨
      L.view (complete P now o s) = { L.view s with state := .OPEN, failCounter := n, openedAt := now } := by
  cases o with
  | returned v => exact ⟨0, .inl (L.success now s hs)⟩
  | raised e =>
    show ∃ n, L.view (P.handleError now e s).1 = _ ∨ L.view (P.handleError now e s).1 = _
    by_cases hc : catches (L.view s).exclude e = true
    · rw [L.excluded now e s hc]
      exact ⟨0, .inl (L.success now s hs)⟩
    · rcases handleError_cases hs (Bool.eq_false_iff.mpr hc) now with ⟨hclosed, -, hview⟩ | ⟨-, n, hview⟩
      · refine ⟨(L.view s).failCounter + 1, .inl ?_⟩
        rw [hview, ← hclosed]
      · exact ⟨n, .inr hview⟩

/-- Where an OPEN breaker is timed out at once, the in-memory breaker admits every call. -/
theorem memory_admits_all (hr : cfg.resetTimeout ≤ 0) {cs : List (Call V)} (hcs : Clocked cs) :
    ((breaker cfg).calls cfg {}).outs {} cs = List.replicate cs.length true := by
  refine outs_of_due (fun m t => m.state = .OPEN → ∃ o, m.openedAt = some o ∧ o ≤ t) (fun m c hdue => ?_)
    hcs fun t => nofun
  have hadm : (maybeHalfOpen cfg c.start m).state ≠ .OPEN := by
    by_cases ho : m.state = .OPEN
    · obtain ⟨o, hat, hle⟩ := hdue ho
      have hge : c.start - o ≥ cfg.resetTimeout := by linarith
      simp [maybeHalfOpen, ho, hat, hge]
    · simp [maybeHalfOpen, ho]
  simp only [Mealy.out, Mealy.next, memory_step cfg hadm, true_and]
  exact fun t ht ho => ⟨c.finish, memory_opened_at_end hadm ho, ht⟩

/-- And so does the adapter. -/
theorem adapter_admits_all (L : P.Documented) (name : String) (hr : cfg.resetTimeout ≤ 0)
    {cs : List (Call V)} (hcs : Clocked cs) :
    (calls P name cfg).outs (create P name cfg) cs = List.replicate cs.length true := by
  refine outs_of_due (fun s t => (L.view s).resetTimeout = cfg.resetTimeout ∧
    ((L.view s).state = .OPEN → (L.view s).openedAt ≤ t)) (fun s c hdue => ?_) hcs fun t => ?_
  · obtain ⟨hreset, hdue⟩ := hdue
    have hadm : (P.beforeCall c.start s).2 = true ∧ (L.view (P.beforeCall c.start s).1).state ≠ .OPEN ∧
        (L.view (P.beforeCall c.start s).1).resetTimeout = cfg.resetTimeout := by
      by_cases ho : (L.view s).state = .OPEN
      · have hle := hdue ho
        obtain ⟨hview, hin⟩ := L.timedOut c.start s ho (by rw [hreset]; linarith)
        rw [hview]
        exact ⟨hin, show BreakerState.HALF_OPEN ≠ .OPEN by decide, hreset⟩
      · obtain ⟨hview, hin⟩ := L.entered c.start s ho
        rw [hview]
        exact ⟨hin, ho, hreset⟩
    obtain ⟨hin, ho, hreset'⟩ := hadm
    simp only [Mealy.out, Mealy.next, adapter_step_entered name cfg hin, true_and]
    intro t ht
    obtain ⟨n, hview | hview⟩ := view_complete_cases ho c.finish c.outcome
    · rw [hview]
      exact ⟨hreset', fun hc => absurd hc (show BreakerState.CLOSED ≠ .OPEN by decide)⟩
    · rw [hview]
      exact ⟨hreset', fun _ => ht⟩
  · rw [create, L.created]
    exact ⟨rfl, fun hc => absurd hc (show BreakerState.CLOSED ≠ .OPEN by decide)⟩

/-- Where one failure opens the breaker, OPEN agrees whatever else is counted. -/
theorem OpenAlike.complete (h : OpenAlike cfg m (L.view s)) (ho : m.state ≠ .OPEN) (now : ℚ) {o : Outcome V}
    (hf : cfg.verdict o = .failure → cfg.failMax ≤ 1) : OpenAlike cfg ((breaker cfg).complete cfg now o m)
      (L.view (PyBreakerAsyncBreaker.complete P now o s)) := by
  have hs : (L.view s).state ≠ .OPEN := fun hs => ho (h.isOpen.mp hs)
  unfold AsyncBreaker.complete
  cases hv : cfg.verdict o with
  | success =>
    rw [complete_forgets h ho now (by rw [hv]; decide)]
    exact ⟨h.failMax, h.resetTimeout, h.exclude, iff_of_false nofun (recordSuccess_not_open ho),
      fun hc => absurd hc (recordSuccess_not_open ho)⟩
  | uncounted =>
    rw [complete_forgets h ho now (by rw [hv]; decide)]
    exact ⟨h.failMax, h.resetTimeout, h.exclude, iff_of_false nofun ho, fun hc => absurd hc ho⟩
  | failure =>
    cases o with
    | returned v => cases hv
    | raised e =>
      have hmax := hf hv
      have hopens : recordFailure cfg now m = m.openLocked now := by
        by_cases hh : m.state = .HALF_OPEN
        · exact recordFailure_halfOpen hh
        · exact recordFailure_opens hh (by omega)
      show OpenAlike cfg (recordFailure cfg now m) (L.view (P.handleError now e s).1)
      rcases handleError_cases hs (h.not_caught hv) now with ⟨-, hlt, -⟩ | ⟨-, n, hview⟩
      · rw [h.failMax] at hlt
        omega
      · rw [hopens, hview]
        exact ⟨h.failMax, h.resetTimeout, h.exclude, iff_of_true rfl rfl, fun _ => rfl⟩

/-- Where no failure is counted up, the admissions agree. -/
theorem outs_eq_of_failMax (L : P.Documented) (name : String)
    (hf : ∀ e, cfg.verdict (.raised e : Outcome V) = .failure → cfg.failMax ≤ 1) (cs : List (Call V)) :
    ((breaker cfg).calls cfg {}).outs {} cs = (calls P name cfg).outs (create P name cfg) cs := by
  refine (Mealy.outs_eq_of_sim (G := fun _ _ _ => True) (R := fun m s => OpenAlike cfg m (L.view s)) ?_
    (fun _ m s c h _ => ?_) fun _ _ _ _ => trivial).1
  · rw [create, L.created]
    exact ⟨rfl, rfl, rfl, iff_of_false nofun nofun, nofun⟩
  · obtain ⟨hadm, hin⟩ := h.admission c.start
    have hf' : cfg.verdict c.outcome = .failure → cfg.failMax ≤ 1 := by
      cases c.outcome with
      | returned v => exact nofun
      | raised e => exact hf e
    by_cases ho : (maybeHalfOpen cfg c.start m).state = .OPEN
    · have hs := adapter_step_refused (P := P) name cfg (s := s) (c := c) (by rw [hin]; simpa using ho)
      simp only [Mealy.out, Mealy.next, memory_step_open ho, hs, true_and]
      exact hadm
    · have hs := adapter_step_entered (P := P) name cfg (s := s) (c := c) (by rw [hin]; simpa using ho)
      simp only [Mealy.out, Mealy.next, memory_step cfg ho, hs, true_and]
      exact hadm.complete ho c.finish hf'

/-- A call at time zero that raises `e`. -/
def raising (e : PyExc) : Call V := ⟨0, .raised e, 0⟩

section Streak

variable {e : PyExc} (hv : cfg.verdict (.raised e : Outcome V) = .failure)

include hv

/-- The failures that the in-memory breaker counts in CLOSED. -/
theorem memory_streak (n : ℕ) (hm : m.state = .CLOSED) (hlt : (m.failureCount + n : ℤ) < cfg.failMax) :
    ((breaker cfg).calls cfg {}).exec m (List.replicate n (raising (V := V) e)) =
      { m with failureCount := m.failureCount + n } := by
  induction n generalizing m with
  | zero => rfl
  | succ n ih =>
    push_cast at hlt
    have hcount : recordFailure cfg 0 m = { m with failureCount := m.failureCount + 1 } :=
      recordFailure_counts (by rw [hm]; decide) (by omega)
    have hnext : ((breaker cfg).calls cfg {}).next m (raising (V := V) e) =
        { m with failureCount := m.failureCount + 1 } := by
      rw [← hcount]
      simp [Mealy.next, AsyncBreaker.calls, breaker, InMemoryAsyncBreaker.admission, maybeHalfOpen, hm,
        raising, AsyncBreaker.complete, hv]
    rw [List.replicate_succ, Mealy.exec_cons, hnext,
      ih (m := { m with failureCount := m.failureCount + 1 }) hm (by push_cast; omega)]
    simp only [add_assoc, add_comm 1]

/-- The failures that the adapter's breaker counts in CLOSED. -/
theorem adapter_streak (L : P.Documented) (name : String) (n : ℕ) (hs : (L.view s).state = .CLOSED)
    (hx : (L.view s).exclude = cfg.excludedExceptions ++ [.cancelledError])
    (hlt : ((L.view s).failCounter + n : ℤ) < (L.view s).failMax) :
    L.view ((calls P name cfg).exec s (List.replicate n (raising (V := V) e))) =
      { L.view s with failCounter := (L.view s).failCounter + n } := by
  induction n generalizing s with
  | zero => rfl
  | succ n ih =>
    push_cast at hlt
    obtain ⟨hview, hin⟩ := L.entered 0 s (by rw [hs]; decide)
    have hc : catches (L.view s).exclude e = false := by
      rw [hx, Bool.eq_false_iff]
      intro hc
      rw [catches_exclude_iff (V := V), hv] at hc
      cases hc
    have hcount := L.counted 0 e (P.beforeCall 0 s).1 (by rwa [hview]) (by rwa [hview])
      (by rw [hview]; omega)
    have hnext : (calls P name cfg).next s (raising (V := V) e) =
        (P.handleError 0 e (P.beforeCall 0 s).1).1 := by
      have hstep := adapter_step_entered name cfg (c := raising (V := V) e) hin
      rw [Mealy.next, hstep]
      rfl
    rw [List.replicate_succ, Mealy.exec_cons, hnext,
      ih (by rw [hcount, hview]; exact hs) (by rw [hcount, hview]; exact hx)
        (by rw [hcount, hview]; push_cast; omega), hcount, hview]
    simp only [add_assoc, add_comm 1]

end Streak

/-- A cancellation is nothing to the in-memory breaker. -/
theorem memory_cancelled (hm : m.state = .CLOSED) :
    ((breaker cfg).calls cfg {}).next m (raising (V := V) ⟨.cancelledError, 0⟩) = m := by
  have hunc : cfg.verdict (.raised ⟨.cancelledError, 0⟩ : Outcome V) = .uncounted := rfl
  have hadm : maybeHalfOpen cfg 0 m = m := by simp [maybeHalfOpen, hm]
  have hstep := memory_step cfg (c := raising (V := V) ⟨.cancelledError, 0⟩) (m := m)
    (by show (maybeHalfOpen cfg 0 m).state ≠ .OPEN; rw [hadm, hm]; decide)
  rw [Mealy.next, hstep]
  show (breaker cfg).complete cfg 0 (.raised ⟨.cancelledError, 0⟩ : Outcome V) (maybeHalfOpen cfg 0 m) = m
  rw [hadm, AsyncBreaker.complete, hunc]

/-- The adapter's breaker forgets its failures for it. -/
theorem adapter_cancelled (L : P.Documented) (name : String) (cfg : BreakerConfig) (hs : (L.view s).state = .CLOSED)
    (hx : (L.view s).exclude = cfg.excludedExceptions ++ [.cancelledError]) :
    L.view ((calls P name cfg).next s (raising (V := V) ⟨.cancelledError, 0⟩)) =
      { L.view s with state := .CLOSED, failCounter := 0 } := by
  obtain ⟨hview, hin⟩ := L.entered 0 s (by rw [hs]; decide)
  have hc : catches (L.view (P.beforeCall 0 s).1).exclude ⟨.cancelledError, 0⟩ = true := by
    rw [hview, hx, catches_exclude_iff (V := V)]
    rfl
  have hstep := adapter_step_entered name cfg (c := raising (V := V) ⟨.cancelledError, 0⟩) hin
  rw [Mealy.next, hstep]
  show L.view (P.handleError 0 ⟨.cancelledError, 0⟩ (P.beforeCall 0 s).1).1 = _
  rw [L.excluded _ _ _ hc, L.success _ _ (by rw [hview, hs]; decide), hview]

/-- A failure, a cancellation, and one failure less than `failMax`. -/
def interrupted (e : PyExc) (j : ℕ) : List (Call V) :=
  List.replicate 1 (raising e) ++ raising ⟨.cancelledError, 0⟩ :: List.replicate (j + 1) (raising e)

section Interrupted

variable {e : PyExc} {j : ℕ} (hv : cfg.verdict (.raised e : Outcome V) = .failure)
  (hj : (j : ℤ) = cfg.failMax - 2)

include hv hj

/-- The in-memory breaker has counted `failMax` failures in a row. -/
theorem memory_interrupted : ((breaker cfg).calls cfg {}).exec {} (interrupted (V := V) e j) =
    ({ failureCount := 0 + 1 + j } : InMemoryAsyncBreaker).openLocked 0 := by
  rw [interrupted, Mealy.exec_append, memory_streak hv 1 rfl (by simp only []; omega), Mealy.exec_cons,
    memory_cancelled rfl, List.replicate_succ', Mealy.exec_append,
    memory_streak hv j rfl (by push_cast; omega), Mealy.exec_cons, Mealy.exec_nil]
  have hopens : recordFailure cfg 0 { failureCount := 0 + 1 + j } = openLocked 0 { failureCount := 0 + 1 + j } :=
    recordFailure_opens nofun (by push_cast; omega)
  rw [← hopens]
  simp [Mealy.next, AsyncBreaker.calls, breaker, InMemoryAsyncBreaker.admission, maybeHalfOpen, raising,
    AsyncBreaker.complete, hv]

/-- The adapter's breaker has forgotten the first. -/
theorem adapter_interrupted (L : P.Documented) (name : String) :
    (L.view ((calls P name cfg).exec (create P name cfg) (interrupted (V := V) e j))).state = .CLOSED := by
  have hinit : L.view (create P name cfg) =
      { failMax := cfg.failMax, resetTimeout := cfg.resetTimeout,
        exclude := cfg.excludedExceptions ++ [.cancelledError] } := L.created _ _ _ _
  have hone := adapter_streak hv L name 1 (s := create P name cfg) (by rw [hinit]) (by rw [hinit])
    (by rw [hinit]; simp only []; omega)
  have hcancel := adapter_cancelled (V := V) L name cfg
    (s := (calls P name cfg).exec (create P name cfg) (List.replicate 1 (raising e))) (by rw [hone, hinit])
    (by rw [hone, hinit])
  rw [hone, hinit] at hcancel
  rw [interrupted, Mealy.exec_append, Mealy.exec_cons, adapter_streak hv L name (j + 1) (by rw [hcancel])
    (by rw [hcancel]) (by rw [hcancel]; push_cast; omega), hcancel]

end Interrupted

/-- The next call is short-circuited by the one and admitted by the other. -/
theorem admissions_differ (L : P.Documented) (name : String) {e : PyExc}
    (hv : cfg.verdict (.raised e : Outcome V) = .failure) (hf : 1 < cfg.failMax) (hr : 0 < cfg.resetTimeout) :
    ∃ cs : List (Call V), Clocked cs ∧
      ((breaker cfg).calls cfg {}).outs {} cs ≠ (calls P name cfg).outs (create P name cfg) cs := by
  obtain ⟨j, hj⟩ : ∃ j : ℕ, (j : ℤ) = cfg.failMax - 2 := ⟨(cfg.failMax - 2).toNat, by omega⟩
  refine ⟨interrupted e j ++ [raising e], ?_, fun heq => ?_⟩
  · refine List.pairwise_of_forall_mem_list fun a ha b hb => ?_
    have hzero : ∀ c ∈ (interrupted e j ++ [raising e] : List (Call V)), c.start = 0 ∧ c.finish = 0 := by
      intro c hc
      have hraising : ∃ x, c = raising x := by
        simp only [interrupted, List.mem_append, List.mem_cons, List.mem_replicate, List.not_mem_nil,
          or_false] at hc
        rcases hc with (⟨-, hc⟩ | hc | ⟨-, hc⟩) | hc <;> exact ⟨_, hc⟩
      obtain ⟨x, rfl⟩ := hraising
      exact ⟨rfl, rfl⟩
    rw [(hzero a ha).2, (hzero b hb).1]
  · rw [Mealy.outs_append, Mealy.outs_append] at heq
    have hlast := (List.append_singleton_inj.mp heq).2
    have hrefuses : ((breaker cfg).calls cfg {}).out
        (({ failureCount := 0 + 1 + j } : InMemoryAsyncBreaker).openLocked 0) (raising (V := V) e) =
          false := by
      have hopen : (maybeHalfOpen cfg 0
          (({ failureCount := 0 + 1 + j } : InMemoryAsyncBreaker).openLocked 0)).state = .OPEN := by
        simp [maybeHalfOpen, openLocked, not_le.mpr hr]
      exact congrArg Prod.snd (memory_step_open (c := raising (V := V) e) hopen)
    obtain ⟨-, hin⟩ := L.entered 0 ((calls P name cfg).exec (create P name cfg) (interrupted (V := V) e j))
      (by rw [adapter_interrupted hv hj]; decide)
    have hadmits := congrArg Prod.snd (adapter_step_entered name cfg (c := raising (V := V) e) hin)
    rw [memory_interrupted hv hj] at hlast
    exact Bool.false_ne_true (hrefuses.symm.trans (hlast.trans hadmits))

end Admissions

/-- The adapter against the in-memory breaker: a run is alike exactly along faithful calls, and the
admissions of all runs are alike exactly where no count of failures and no time out of reach can matter. -/
theorem adapter_refines_iff (L : P.Documented) (name : String) (cfg : BreakerConfig) :
    (∀ cs : List (Call V), Agree ((InMemoryAsyncBreaker.breaker cfg).calls cfg {}) (calls P name cfg)
        (Alike L) {} (create P name cfg) cs ↔
      ((InMemoryAsyncBreaker.breaker cfg).calls cfg {}).Along (fun _ m c => Faithful cfg m c) {} cs) ∧
    ((∀ cs : List (Call V), Clocked cs → ((InMemoryAsyncBreaker.breaker cfg).calls cfg {}).outs {} cs =
        (calls P name cfg).outs (create P name cfg) cs) ↔
      cfg.failMax ≤ 1 ∨ cfg.resetTimeout ≤ 0 ∨
        ∀ e, cfg.verdict (.raised e : Outcome V) ≠ .failure) := by
  refine ⟨alike_iff L name cfg, fun h => ?_, ?_⟩
  · by_contra hcon
    simp only [not_or, not_le, not_forall, not_not] at hcon
    obtain ⟨hf, hr, e, hv⟩ := hcon
    obtain ⟨cs, hcs, hne⟩ := admissions_differ L name hv hf hr
    exact hne (h cs hcs)
  · rintro (hf | hr | hv) cs hcs
    · exact outs_eq_of_failMax L name (fun _ _ => hf) cs
    · rw [memory_admits_all hr hcs, adapter_admits_all L name hr hcs]
    · exact outs_eq_of_failMax L name (fun e he => absurd he (hv e)) cs


/-- The sample does as documented. -/
def documented : CircuitMemoryBreaker.pybreaker.Documented where
  view s := s
  created _ _ _ _ := rfl
  entered now s h := by simp [CircuitMemoryBreaker.pybreaker, h]
  refused now s h ht := by simp [CircuitMemoryBreaker.pybreaker, h, ht]
  timedOut now s h ht := by simp [CircuitMemoryBreaker.pybreaker, h, not_lt.mpr ht]
  success now s h := by
    show s.handleSuccess = _
    unfold CircuitMemoryBreaker.handleSuccess
    split_ifs with hh
    · rfl
    · rw [BreakerState.closed_of_ne h hh]
  excluded now e s h := by simp [CircuitMemoryBreaker.pybreaker, h]
  counted now e s h hs hlt := by simp [CircuitMemoryBreaker.pybreaker, h, hs, not_le.mpr hlt]
  trips now e s h ht := by
    refine ⟨s.failCounter + 1, ?_⟩
    rcases ht with ⟨hs, hmax⟩ | hs
    · simp [CircuitMemoryBreaker.pybreaker, CircuitMemoryBreaker.trip, h, hs, hmax]
    · simp [CircuitMemoryBreaker.pybreaker, CircuitMemoryBreaker.trip, h, hs]

theorem adapter_refines_iff_default :
    (∀ cs : List (Call ℕ), Agree ((InMemoryAsyncBreaker.breaker {}).calls {} {})
        (calls CircuitMemoryBreaker.pybreaker "svc" {}) (Alike documented) {}
        (create CircuitMemoryBreaker.pybreaker "svc" {}) cs ↔
      ((InMemoryAsyncBreaker.breaker {}).calls {} {}).Along (fun _ m c => Faithful {} m c) {} cs) ∧
    ((∀ cs : List (Call ℕ), Clocked cs → ((InMemoryAsyncBreaker.breaker {}).calls {} {}).outs {} cs =
        (calls CircuitMemoryBreaker.pybreaker "svc" {}).outs
          (create CircuitMemoryBreaker.pybreaker "svc" {}) cs) ↔
      ({} : BreakerConfig).failMax ≤ 1 ∨ ({} : BreakerConfig).resetTimeout ≤ 0 ∨
        ∀ e, ({} : BreakerConfig).verdict (.raised e : Outcome ℕ) ≠ .failure) :=
  adapter_refines_iff documented "svc" {}

/-- With the default configuration a cancellation in a streak of failures keeps the adapter from opening. -/
theorem cancellation_resets_streak : ∃ cs : List (Call ℕ), Clocked cs ∧
    ((InMemoryAsyncBreaker.breaker {}).calls {} {}).outs {} cs ≠
      (calls CircuitMemoryBreaker.pybreaker "svc" {}).outs
        (create CircuitMemoryBreaker.pybreaker "svc" {}) cs :=
  admissions_differ documented "svc" (e := ⟨.transientError, 0⟩) rfl (by decide) (by decide +kernel)

end PyBreakerAsyncBreaker

end ResilienceKit

import ResilienceKit.Audit.Recording

/-!
# Audit.Decorators — `@log_inbound` and `@log_outbound`

Both record how the decorated call ends, if it returns or raises an `Exception`.  On anything else
(`CancelledError`, `KeyboardInterrupt`) no branch of the wrapper records: `makeDecorator_truthful_iff`.
-/

namespace ResilienceKit.Audit

open Program Code

variable {A V : Type} (info : ExcInfo)

/-- `_extract_payload`; the flag says whether there is a factory. -/
def extractPayload (factory : Bool) : AuditCode A V (Mapping A) :=
  if factory then
    tryElse (do let o ← perform AuditAsk.payloadFactory; Code.ofExcept (Outcome.result o))
      (fun exc => if isinstance exc .exception then pure [] else throw exc)
      pure
  else pure []

/-- `_emit` -/
def emit (direction : Direction) (service method path : String) (outcome : AuditEvent.Outcome)
    (latencyMs : ℚ) (payload : Mapping A) (errorClass errorCode : Option String) :
    AuditCode A V Unit := do
  let requestId ← perform AuditAsk.requestId
  let correlationId ← perform AuditAsk.correlationId
  let timestamp ← perform AuditAsk.time
  Py.logged (submit {
    direction, service, method, path, outcome, latencyMs, errorClass, errorCode, requestId, correlationId,
    payload, details := [], timestamp })

/-- The latency, the payload and the record of a call that started at `started`. -/
def record (direction : Direction) (service method path : String) (factory : Bool) (started : ℚ)
    (outcome : AuditEvent.Outcome) (errorClass errorCode : Option String) : AuditCode A V Unit := do
  let now : ℚ ← perform AuditAsk.monotonic
  let payload ← extractPayload factory
  emit direction service method path outcome ((now - started) * 1000) payload errorClass errorCode

/-- `inner`, of `_wrap_async` and of `_wrap_sync`. -/
def inner (direction : Direction) (service method path : String) (factory : Bool) : AuditCode A V V := do
  let started ← perform AuditAsk.monotonic
  tryElse (do let o ← perform AuditAsk.invoke; Code.ofExcept (Outcome.result o))
    (fun exc =>
      if isinstance exc .exception then do
        record direction service method path factory started .failure (some (info.typeName exc))
          (info.errorCode exc)
        throw exc
      else throw exc)
    (fun result => do
      record direction service method path factory started .success none none
      return result)

def wrapAsync (direction : Direction) (service method path : String) (factory : Bool) :
    AuditCode A V V := inner info direction service method path factory

def wrapSync (direction : Direction) (service method path : String) (factory : Bool) :
    AuditCode A V V := inner info direction service method path factory

/-- `_make_decorator`; the flag says whether the decorated function is a coroutine function. -/
def makeDecorator (direction : Direction) (service method path : String) (factory coroutine : Bool) :
    AuditCode A V V :=
  if coroutine then wrapAsync info direction service method path factory
  else wrapSync info direction service method path factory

def logInbound (service method path : String) (factory coroutine : Bool) : AuditCode A V V :=
  makeDecorator info .inbound service method path factory coroutine

def logOutbound (service method path : String) (factory coroutine : Bool) : AuditCode A V V :=
  makeDecorator info .outbound service method path factory coroutine

/-! ### How the wrapper runs -/

section Runs

variable (env : Env (AuditAnswer A V))

/-- A payload factory that raises an `Exception` is replaced, any other is not. -/
theorem exec_extractPayload (h : AuditHistory A V) (factory : Bool) : ∃ g r,
    exec env h (extractPayload factory : AuditCode A V (Mapping A)) = (h ++ g, r) ∧
      seen AuditAsk.record? g = [] ∧ ((∀ x ∈ g, Harmless x) ↔ ∃ payload, r = .ok payload) := by
  cases factory with
  | false => exact ⟨[], .ok [], by rw [List.append_nil]; rfl, rfl, by simp⟩
  | true =>
    rw [extractPayload, if_pos rfl, exec_tryElse, exec_bind, exec_perform]
    simp only [exec_ofExcept]
    cases ho : env h .payloadFactory with
    | returned payload =>
      refine ⟨_, _, rfl, rfl, iff_of_true (fun x hx => ?_) ⟨payload, rfl⟩⟩
      obtain rfl := List.mem_singleton.mp hx
      exact ordinary_ok payload
    | raised exc =>
      simp only [Outcome.result]
      by_cases hexc : isinstance exc .exception = true
      · rw [if_pos hexc]
        refine ⟨_, _, rfl, rfl, iff_of_true (fun x hx => ?_) ⟨[], rfl⟩⟩
        obtain rfl := List.mem_singleton.mp hx
        exact ordinary_error hexc
      · rw [if_neg hexc]
        refine ⟨_, _, rfl, rfl, iff_of_false (fun hall => ?_) (by simp)⟩
        exact hexc (hall _ (List.mem_singleton.mpr rfl) exc rfl)

theorem exec_emit (h : AuditHistory A V) (direction : Direction) (service method path : String)
    (outcome : AuditEvent.Outcome) (latencyMs : ℚ) (payload : Mapping A)
    (errorClass errorCode : Option String) : ∃ g r,
    exec env h (emit direction service method path outcome latencyMs payload errorClass errorCode :
      AuditCode A V Unit) = (h ++ g, r) ∧
      Hands (fun rec => ∃ e, rec = .event e ∧ e.outcome = outcome ∧ e.errorClass = errorClass) g r := by
  rw [emit, exec_bind, exec_perform]
  simp only [exec_bind, exec_perform, Py.exec_logged]
  obtain ⟨g, r, hrun, hg⟩ := exec_submit env (h ++ [⟨.requestId, env h .requestId⟩] ++
    [⟨.correlationId, env _ .correlationId⟩] ++ [⟨.time, env _ .time⟩]) _
  refine ⟨_, _, by rw [hrun, List.append_assoc, List.append_assoc, List.append_assoc], ?_⟩
  refine (hg.prepend [⟨.requestId, _⟩, ⟨.correlationId, _⟩, ⟨.time, _⟩] ?_ rfl).mono
        fun rec hrec => ⟨_, hrec, rfl, rfl⟩
  simp [Harmless]

theorem exec_record (h : AuditHistory A V) (direction : Direction) (service method path : String)
    (factory : Bool) (started : ℚ) (outcome : AuditEvent.Outcome)
    (errorClass errorCode : Option String) : ∃ g r,
    exec env h (record direction service method path factory started outcome errorClass errorCode :
      AuditCode A V Unit) = (h ++ g, r) ∧
      Hands (fun rec => ∃ e, rec = .event e ∧ e.outcome = outcome ∧ e.errorClass = errorClass) g r := by
  obtain ⟨g, r, hrun, hnone, hr⟩ := exec_extractPayload env
    (h ++ [⟨.monotonic, env h .monotonic⟩]) factory
  rw [record, exec_bind, exec_perform]
  simp only [exec_bind, hrun]
  cases r with
  | error exc =>
    have hharm : ¬ ∀ x ∈ g, Harmless x := fun hall => by
      obtain ⟨payload, hp⟩ := hr.mp hall
      cases hp
    push Not at hharm
    obtain ⟨x, hx, hn⟩ := hharm
    refine ⟨⟨.monotonic, env h .monotonic⟩ :: g, .error exc, ?_, .lost ⟨x, List.mem_cons_of_mem _ hx, hn⟩ ?_⟩
    · rw [List.append_assoc]
      rfl
    · rw [seen_cons, hnone]
      rfl
  | ok payload =>
    obtain ⟨g', r', hrun', hg'⟩ := exec_emit env (h ++ [⟨.monotonic, env h .monotonic⟩] ++ g)
      direction service method path outcome ((env h .monotonic - started) * 1000) payload errorClass
      errorCode
    refine ⟨_, _, ?_, (hg'.prepend g (hr.mpr ⟨payload, rfl⟩) hnone).prepend
      [⟨.monotonic, env h .monotonic⟩] ?_ rfl⟩
    · dsimp only
      rw [hrun', List.append_assoc, List.append_assoc]
    · simp [Harmless]

/-- How the decorated call ended. -/
def invoked : Except PyExc V := (env [⟨.monotonic, env [] .monotonic⟩] .invoke).result

/-- How the wrapper goes on after the call. -/
theorem exec_inner (direction : Direction) (service method path : String) (factory : Bool) :
    ∃ g r, exec env [] (inner info direction service method path factory : AuditCode A V V) =
      ([⟨.monotonic, env [] .monotonic⟩, ⟨.invoke, env [⟨.monotonic, env [] .monotonic⟩] .invoke⟩] ++ g, r) ∧
      ((¬ Ordinary (invoked env) ∧ g = []) ∨ (Ordinary (invoked env) ∧ ∃ u,
        r = Hands.thenEnd (invoked env) u ∧ Hands (fun rec => rec.Says (invoked env)) g u)) := by
  rw [invoked, inner, exec_bind, exec_perform]
  simp only [exec_tryElse, exec_bind, exec_perform, exec_ofExcept, List.nil_append]
  cases ho : env [⟨.monotonic, env [] .monotonic⟩] .invoke with
  | returned v =>
    obtain ⟨g, u, hrun, hg⟩ := exec_record env
      ([⟨.monotonic, env [] .monotonic⟩] ++ [⟨.invoke, .returned v⟩]) direction service method path factory
      (env [] .monotonic) .success none none
    refine ⟨g, Hands.thenEnd (.ok v) u, ?_, .inr ⟨ordinary_ok v, u, rfl, hg.mono ?_⟩⟩
    · simp only [Outcome.result, hrun]
      cases u <;> rfl
    · rintro rec ⟨e, rfl, hout, hclass⟩
      simp [Record.Says, Outcome.result, hout, hclass]
  | raised exc =>
    simp only [Outcome.result]
    by_cases hexc : isinstance exc .exception = true
    · obtain ⟨g, u, hrun, hg⟩ := exec_record env
        ([⟨.monotonic, env [] .monotonic⟩] ++ [⟨.invoke, .raised exc⟩]) direction service method path
        factory (env [] .monotonic) .failure (some (info.typeName exc)) (info.errorCode exc)
      refine ⟨g, Hands.thenEnd (.error exc) u, ?_, .inr ⟨ordinary_error hexc, u, rfl, hg.mono ?_⟩⟩
      · rw [if_pos hexc, exec_bind, hrun]
        cases u <;> rfl
      · rintro rec ⟨e, rfl, hout, hclass⟩
        simp [Record.Says, hout, hclass]
    · refine ⟨[], .error exc, ?_, .inl ⟨fun h => hexc (h exc rfl), rfl⟩⟩
      rw [if_neg hexc]
      rfl

/-- **A decorated call** is recorded as it should be exactly if it returns or raises an `Exception`, and the
audit side does no harm. -/
theorem makeDecorator_truthful_iff (direction : Direction) (service method path : String)
    (factory coroutine : Bool) :
    Truthful (invoked env)
        (exec env [] (makeDecorator info direction service method path factory coroutine)).1
        (exec env [] (makeDecorator info direction service method path factory coroutine)).2 ↔
      Ordinary (invoked env) ∧
        ∀ x ∈ (exec env [] (makeDecorator info direction service method path factory coroutine)).1,
          Harmless x := by
  have hinner : (makeDecorator info direction service method path factory coroutine : AuditCode A V V) =
      inner info direction service method path factory := ite_self _
  obtain ⟨g, r, hrun, hg⟩ := exec_inner info env direction service method path factory
  rw [hinner, hrun]
  have hpre : ∀ x ∈ [⟨.monotonic, env [] .monotonic⟩,
      ⟨.invoke, env [⟨.monotonic, env [] .monotonic⟩] .invoke⟩], Harmless x := by
    simp [Harmless]
  rcases hg with ⟨hcall, rfl⟩ | ⟨hcall, u, rfl, hu⟩
  · refine iff_of_false (fun ht => ?_) fun h => hcall h.1
    obtain ⟨rec, hrec, -⟩ := ht.one
    cases hrec
  · rw [and_iff_right hcall]
    exact (hu.prepend _ hpre rfl).truthful_iff hcall fun rec hrec => hrec

end Runs

end ResilienceKit.Audit

import ResilienceKit.Audit.Decorators

/-!
# HttpClient.RawSend — one attempt of the HTTP client and its record

`AsyncAPIClient._raw_send` records in a `finally`, and learns of the failure in an `except Exception`.  A
cancelled request is therefore recorded as a success.
-/

namespace ResilienceKit.HttpClient

open Program Code Audit

variable {A : Type} (info : ExcInfo) (text : String → A)

structure Response where
  statusCode : ℕ
  ident : ℕ
  deriving DecidableEq

/-- `injected` says whether a client was given, `onOutbound` whether a hook was. -/
structure AsyncAPIClient where
  service : String
  injected : Bool
  onOutbound : Bool

/-- `map_httpx_errors` -/
def mapHttpxErrors : Except PyExc Response → Except PyExc Response
  | .ok response => .ok response
  | .error exc =>
    if isinstance exc .timeoutException then .error ⟨.externalTimeoutError, 0⟩
    else if isinstance exc .httpStatusError then .error ⟨.externalServiceError, 0⟩
    else if isinstance exc .requestError then .error ⟨.transientError, 0⟩
    else .error exc

/-- `raise_for_server_error` -/
def raiseForServerError (status : ℕ) : Except PyExc Unit :=
  if 500 ≤ status then .error ⟨.externalTimeoutError, 0⟩ else .ok ()

namespace AsyncAPIClient

variable (c : AsyncAPIClient)

/-- `__aenter__`: an injected client stays as it is. -/
def enter : AuditCode A Response Unit :=
  if c.injected then pure ()
  else do let r ← perform AuditAsk.openClient; Code.ofExcept (Py.raised r)

/-- `__aexit__` -/
def exit : AuditCode A Response Unit :=
  if c.injected then pure ()
  else do let r ← perform AuditAsk.closeClient; Code.ofExcept (Py.raised r)

def request : AuditCode A Response Response := do
  let o ← perform AuditAsk.invoke
  Code.ofExcept (mapHttpxErrors (Outcome.result o))

/-- The `try` block: what `response` holds after it, and how the block ended. -/
def send : AuditCode A Response (Option ℕ × Except PyExc Response) := do
  match ← attempt c.enter with
  | .error exc => return (none, .error exc)
  | .ok () => do
    let requested ← attempt request
    let closed ← attempt c.exit
    return (requested.toOption.map Response.statusCode, do
      closed
      let response ← requested
      raiseForServerError response.statusCode
      return response)

/-- What `except Exception as exc` gets. -/
def caught : Except PyExc Response → Option PyExc
  | .ok _ => none
  | .error exc => if isinstance exc .exception then some exc else none

/-- `_submit_to_dispatcher` -/
def submitToDispatcher (call : OutboundCall A) : AuditCode A Response Unit := do
  let requestId ← perform AuditAsk.requestId
  let correlationId ← perform AuditAsk.correlationId
  let timestamp ← perform AuditAsk.time
  -- an empty class name is as good as none
  let outcome := if call.errorClass.getD "" = "" then .success else .failure
  submit {
    direction := .outbound, service := call.service, method := call.method, path := call.url, outcome,
    latencyMs := call.latencyMs, status := call.status, errorClass := call.errorClass,
    errorCode := call.errorCode, requestId, correlationId, payload := [], details := call.details,
    timestamp }

/-- `_emit_audit` -/
def emitAudit (call : OutboundCall A) : AuditCode A Response Unit :=
  if c.onOutbound then
    Py.logged do
      let r ← perform (AuditAsk.onOutbound call)
      Code.ofExcept (Py.raised r)
  else Py.logged (submitToDispatcher call)

/-- `_raw_send` -/
def rawSend (method url host : String) : AuditCode A Response Response := do
  let started : ℚ ← perform AuditAsk.monotonic
  let (status, ended) ← c.send
  let now : ℚ ← perform AuditAsk.monotonic
  c.emitAudit {
    service := c.service, method, url, status, latencyMs := (now - started) * 1000,
    errorClass := (caught ended).map info.typeName, errorCode := (caught ended).bind info.errorCode,
    details := [("host", text host)] }
  Code.ofExcept ended

/-! ### How an attempt runs -/

section Runs

variable (env : Env (AuditAnswer A Response))

/-- What an attempt asks before it records. -/
def Sending (q : AuditAsk A) : Prop := q = .openClient ∨ q = .invoke ∨ q = .closeClient

theorem asks_send : Asks Sending (c.send : AuditCode A Response _) := by
  have henter : Asks Sending (c.enter : AuditCode A Response _) := by
    unfold enter
    split_ifs
    · exact .pure ()
    · exact .bind (.perform (.inl rfl)) fun _ => .ofExcept _
  have hexit : Asks Sending (c.exit : AuditCode A Response _) := by
    unfold exit
    split_ifs
    · exact .pure ()
    · exact .bind (.perform (.inr (.inr rfl))) fun _ => .ofExcept _
  have hrequest : Asks Sending (request : AuditCode A Response _) :=
    .bind (.perform (.inr (.inl rfl))) fun _ => .ofExcept _
  refine .bind (.attempt henter) fun entered => ?_
  cases entered with
  | error exc => exact .pure _
  | ok u => exact .bind (.attempt hrequest) fun _ => .bind (.attempt hexit) fun _ => .pure _

/-- The block ends in a value, and neither harms nor records. -/
theorem exec_send (h : AuditHistory A Response) : ∃ g status ended,
    exec env h c.send = (h ++ g, .ok (status, ended)) ∧ (∀ x ∈ g, Harmless x) ∧
      seen AuditAsk.record? g = [] := by
  obtain ⟨g, hg, hasks⟩ := c.asks_send.exists_added env h
  have hvalue : ∃ status ended, (exec env h c.send).2 = .ok (status, ended) := by
    rw [send, exec_bind, exec_attempt]
    cases (exec env h c.enter).2 with
    | error exc => exact ⟨_, _, rfl⟩
    | ok u =>
      simp only [exec_bind, exec_attempt, exec_pure]
      exact ⟨_, _, rfl⟩
  obtain ⟨status, ended, hended⟩ := hvalue
  refine ⟨g, status, ended, Prod.ext hg hended, fun x hx => ?_, List.filterMap_eq_nil_iff.mpr ?_⟩
  · obtain ⟨q, a⟩ := x
    rcases hasks _ hx with hq | hq | hq <;> obtain rfl : q = _ := hq <;> trivial
  · rintro ⟨q, a⟩ hx
    rcases hasks _ hx with hq | hq | hq <;> obtain rfl : q = _ := hq <;> rfl

variable {env} in
/-- A response is that of the call. -/
theorem request_ok {h h' : AuditHistory A Response} {response : Response}
    (hexec : exec env h (request : AuditCode A Response Response) = (h', .ok response)) :
    lastSeen AuditAsk.outcome? h' = some (.returned response) := by
  rw [request, exec_bind, exec_perform] at hexec
  dsimp only at hexec
  rw [exec_ofExcept] at hexec
  cases ho : env h .invoke with
  | raised exc =>
    rw [ho] at hexec
    have hraised := congrArg Prod.snd hexec
    simp only [Outcome.result, mapHttpxErrors] at hraised
    split_ifs at hraised
  | returned response' =>
    rw [ho] at hexec
    cases hexec
    rw [lastSeen_concat]
    rfl

variable {env} {c} in
theorem send_ok {h h' : AuditHistory A Response} {status : Option ℕ} {response : Response}
    (hexec : exec env h c.send = (h', .ok (status, .ok response))) :
    response.statusCode < 500 ∧ lastSeen AuditAsk.outcome? h' = some (.returned response) := by
  rw [send, exec_bind, exec_attempt] at hexec
  rcases henter : exec env h (c.enter : AuditCode A Response Unit) with ⟨h₁, exc | _⟩
  · rw [henter] at hexec
    cases congrArg Prod.snd hexec
  · rw [henter] at hexec
    simp only [exec_bind, exec_attempt, exec_pure] at hexec
    rcases hrequest : exec env h₁ (request : AuditCode A Response Response) with ⟨h₂, exc | response'⟩
    · rw [hrequest] at hexec
      rcases hclosed : exec env h₂ (c.exit : AuditCode A Response Unit) with ⟨h₃, exc' | _⟩
      · rw [hclosed] at hexec
        cases congrArg Prod.snd hexec
      · rw [hclosed] at hexec
        cases congrArg Prod.snd hexec
    · rw [hrequest] at hexec
      have hexit : lastSeen AuditAsk.outcome? (exec env h₂ (c.exit : AuditCode A Response Unit)).1 =
          lastSeen AuditAsk.outcome? h₂ := by
        refine Asks.lastSeen_eq ?_ env h₂
        unfold exit
        split_ifs
        · exact .pure ()
        · exact .bind (.perform fun _ => rfl) fun _ => .ofExcept _
      rcases hclosed : exec env h₂ (c.exit : AuditCode A Response Unit) with ⟨h₃, exc' | _⟩
      · rw [hclosed] at hexec
        cases congrArg Prod.snd hexec
      · rw [hclosed] at hexec hexit
        cases hserver : raiseForServerError response'.statusCode with
        | error exc => simp [hserver, bind, Except.bind] at hexec
        | ok _ =>
          simp only [hserver, bind, Except.bind, pure, Except.pure, Prod.mk.injEq, Except.ok.injEq] at hexec
          obtain ⟨rfl, -, rfl⟩ := hexec
          refine ⟨?_, hexit.trans (request_ok hrequest)⟩
          unfold raiseForServerError at hserver
          split_ifs at hserver with hstatus
          exact Nat.lt_of_not_le hstatus

/-- The record of a call. -/
def Records (call : OutboundCall A) : Record A → Prop
  | .call c' => c.onOutbound = true ∧ c' = call
  | .event e => c.onOutbound = false ∧ e.errorClass = call.errorClass ∧
      (e.outcome = .success ↔ call.errorClass.getD "" = "")

theorem exec_emitAudit (h : AuditHistory A Response) (call : OutboundCall A) : ∃ g r,
    exec env h (c.emitAudit call) = (h ++ g, r) ∧ Hands (c.Records call) g r := by
  unfold emitAudit
  split_ifs with hhook
  · rw [Py.exec_logged, exec_bind, exec_perform]
    simp only [exec_ofExcept]
    have hx := Hands.of_handing (x := ⟨.onOutbound call, env h (.onOutbound call)⟩) (g := []) (by simp) rfl
      rfl Iff.rfl
    exact ⟨_, _, rfl, hx.mono fun rec hrec => hrec ▸ ⟨hhook, rfl⟩⟩
  · rw [Py.exec_logged, submitToDispatcher, exec_bind, exec_perform]
    simp only [exec_bind, exec_perform]
    obtain ⟨g, r, hrun, hg⟩ := exec_submit env (h ++ [⟨.requestId, env h .requestId⟩] ++
      [⟨.correlationId, env _ .correlationId⟩] ++ [⟨.time, env _ .time⟩]) _
    refine ⟨_, _, by rw [hrun, List.append_assoc, List.append_assoc, List.append_assoc], ?_⟩
    refine (hg.prepend [⟨.requestId, _⟩, ⟨.correlationId, _⟩, ⟨.time, _⟩] ?_ rfl).mono fun rec hrec => ?_
    · simp [Harmless]
    · subst hrec
      refine ⟨by simpa using hhook, rfl, ?_⟩
      dsimp only
      split_ifs with hname <;> simp [hname]

/-- How the call of an attempt that started at the beginning ended. -/
def ended : Except PyExc Response := do
  let x ← (exec env [⟨.monotonic, env [] .monotonic⟩] c.send).2
  x.2

/-- The class of what the call raised has a name. -/
def Named (r : Except PyExc Response) : Prop := ∀ exc, r = .error exc → info.typeName exc ≠ ""

variable {info c} in
/-- The record of a call tells the truth about it exactly if the call is ordinary and its class has a name. -/
theorem Records.says_iff {call : OutboundCall A} {r : Except PyExc Response} {rec : Record A}
    (hrec : c.Records call rec) (hclass : call.errorClass = (caught r).map info.typeName) :
    rec.Says r ↔ Ordinary r ∧ (c.onOutbound = true ∨ Named info r) := by
  cases r with
  | ok v =>
    have hnone : call.errorClass = none := hclass
    refine iff_of_true ?_ ⟨ordinary_ok v, .inr (by rintro exc ⟨⟩)⟩
    cases rec with
    | call c' => simp [Record.Says, hrec.2, hnone]
    | event e => simp [Record.Says, hrec.2.1, hrec.2.2, hnone]
  | error exc =>
    cases hexc : isinstance exc .exception with
    | false =>
      have hnone : call.errorClass = none := by simp [hclass, caught, hexc]
      refine iff_of_false (fun hsays => ?_) fun h => not_ordinary_error hexc h.1
      cases rec with
      | call c' => simp [Record.Says, hrec.2, hnone] at hsays
      | event e => simp [Record.Says, hrec.2.1, hnone] at hsays
    | true =>
      have hsome : call.errorClass = some (info.typeName exc) := by simp [hclass, caught, hexc]
      rw [and_iff_right (ordinary_error hexc)]
      cases rec with
      | call c' => simp [Record.Says, hrec.1, hrec.2, hsome]
      | event e => simp [Record.Says, Named, hrec.1, hrec.2.1, hrec.2.2, hsome]

/-- **Run lemma** for an attempt. -/
theorem exec_rawSend (method url host : String) : ∃ g u call,
    exec env [] (c.rawSend info text method url host) = (g, Hands.thenEnd (c.ended env) u) ∧
      Hands (c.Records call) g u ∧ call.errorClass = (caught (c.ended env)).map info.typeName := by
  obtain ⟨g, status, r, hrun, hharm, hnone⟩ := c.exec_send env [⟨.monotonic, env [] .monotonic⟩]
  have hended : c.ended env = r := by
    rw [ended, hrun]
    rfl
  -- the clock is read before the call and after it
  obtain ⟨g', u, hrun', hg'⟩ := c.exec_emitAudit env ([⟨.monotonic, env [] .monotonic⟩] ++ g ++
      [⟨.monotonic, env ([⟨.monotonic, env [] .monotonic⟩] ++ g) .monotonic⟩])
    { service := c.service, method, url, status,
      latencyMs := (env ([⟨.monotonic, env [] .monotonic⟩] ++ g) .monotonic - env [] .monotonic) * 1000,
      errorClass := (caught r).map info.typeName, errorCode := (caught r).bind info.errorCode,
      details := [("host", text host)] }
  refine ⟨_, u, _, ?_, hg'.prepend ([⟨.monotonic, env [] .monotonic⟩] ++ g ++
    [⟨.monotonic, env ([⟨.monotonic, env [] .monotonic⟩] ++ g) .monotonic⟩]) (fun x hx => ?_) ?_, ?_⟩
  · rw [rawSend, exec_bind, exec_perform]
    simp only [List.nil_append, exec_bind, hrun, exec_perform, hrun', hended]
    cases u <;> simp [Hands.thenEnd]
  · rcases List.mem_append.mp hx with hx | hx
    · rcases List.mem_cons.mp hx with rfl | hx
      · exact trivial
      · exact hharm x hx
    · obtain rfl := List.mem_singleton.mp hx
      exact trivial
  · rw [seen_append, seen_append, hnone]
    rfl
  · rw [hended]

/-- **An attempt** is recorded as it should be exactly if the call returns or raises an `Exception`, whose class
has a name if the dispatcher is to learn of it, and the audit side does no harm. -/
theorem rawSend_truthful_iff (method url host : String) :
    Truthful (c.ended env) (exec env [] (c.rawSend info text method url host)).1
        (exec env [] (c.rawSend info text method url host)).2 ↔
      (Ordinary (c.ended env) ∧ (c.onOutbound = true ∨ Named info (c.ended env))) ∧
        ∀ x ∈ (exec env [] (c.rawSend info text method url host)).1, Harmless x := by
  obtain ⟨g, u, call, hrun, hg, hclass⟩ := c.exec_rawSend info text env method url host
  rw [hrun]
  by_cases hcall : Ordinary (c.ended env) ∧ (c.onOutbound = true ∨ Named info (c.ended env))
  · rw [and_iff_right hcall]
    exact hg.truthful_iff hcall.1 fun rec hrec => (hrec.says_iff hclass).mpr hcall
  · refine iff_of_false (hg.not_truthful fun rec hrec hsays => ?_) fun h => hcall h.1
    exact hcall ((hrec.says_iff hclass).mp hsays)

end Runs

end AsyncAPIClient

/-- **One truthful record** of a decorated call, and of an attempt of the client. -/
theorem one_record_iff {V : Type} :
    (∀ (direction : Direction) (service method path : String) (factory coroutine : Bool)
      (env : Env (AuditAnswer A V)),
      Truthful (invoked env)
          (exec env [] (makeDecorator info direction service method path factory coroutine)).1
          (exec env [] (makeDecorator info direction service method path factory coroutine)).2 ↔
        Ordinary (invoked env) ∧
          ∀ x ∈ (exec env [] (makeDecorator info direction service method path factory coroutine)).1,
            Harmless x) ∧
    ∀ (c : AsyncAPIClient) (method url host : String) (env : Env (AuditAnswer A Response)),
      Truthful (c.ended env) (exec env [] (c.rawSend info text method url host)).1
          (exec env [] (c.rawSend info text method url host)).2 ↔
        (Ordinary (c.ended env) ∧ (c.onOutbound = true ∨ AsyncAPIClient.Named info (c.ended env))) ∧
          ∀ x ∈ (exec env [] (c.rawSend info text method url host)).1, Harmless x :=
  ⟨fun direction service method path factory coroutine env =>
    makeDecorator_truthful_iff info env direction service method path factory coroutine,
    fun c method url host env => c.rawSend_truthful_iff info text env method url host⟩

/-! ### A cancelled call -/

/-- Surroundings in which the call is cancelled and nothing else fails. -/
def cancelling {V : Type} : (q : AuditAsk String) → AuditAnswer String V q
  | .monotonic => 0
  | .invoke => .raised ⟨.cancelledError, 0⟩
  | .openClient => none
  | .closeClient => none
  | .payloadFactory => .returned []
  | .requestId => none
  | .correlationId => none
  | .time => 0
  | .getDispatcher => none
  | .submit _ => none
  | .onOutbound _ => none

/-- Names of the classes that the example needs. -/
def plain : ExcInfo := ⟨fun exc => toString (repr exc.cls.name), fun _ => none⟩

/-- The decorator records nothing, the client records a success. -/
theorem cancelled_not_truthful :
    (¬ Truthful (invoked (fun _ => cancelling (V := Unit)))
      (exec (fun _ => cancelling (V := Unit)) [] (logInbound plain "billing" "POST" "/charge" false true)).1
      (exec (fun _ => cancelling (V := Unit)) [] (logInbound plain "billing" "POST" "/charge" false true)).2) ∧
    ¬ Truthful (AsyncAPIClient.ended ⟨"billing", false, false⟩ (fun _ => cancelling))
      (exec (fun _ => cancelling) []
        (AsyncAPIClient.rawSend plain id ⟨"billing", false, false⟩ "POST" "https://pay.example" "pay.example")).1
      (exec (fun _ => cancelling) []
        (AsyncAPIClient.rawSend plain id ⟨"billing", false, false⟩ "POST" "https://pay.example"
          "pay.example")).2 := by
  constructor
  · rintro ⟨⟨rec, hrec, -⟩, -⟩
    cases hrec
  · rintro ⟨⟨rec, hrec, hsays⟩, -⟩
    cases hrec
    obtain ⟨v, hv⟩ := hsays.1.mp rfl
    cases hv

end ResilienceKit.HttpClient

import ResilienceKit.Decorators.Base
import ResilienceKit.Lib.OrderedDict
import ResilienceKit.Lib.Relay

/-!
# HttpClient.Idempotency — the headers of all attempts of one request

`request` settles the headers once, before the retry loop.  The trace propagator of OpenTelemetry, if it is
installed, is given them last; what it may touch are its own `fields`.  `str.lower` and `str.upper` are
parameters.
-/

namespace ResilienceKit.HttpClient.Idempotency

open Program Code

abbrev Headers := OrderedDict String String

/-- The value of a header; no headers have none. -/
def valueOf (headers : Option Headers) (name : String) : Option String := headers.bind fun h => h.get name

/-- `propagate.inject`: it sets headers of its own and leaves the others alone. -/
structure Propagator where
  inject : Headers → Headers
  fields : List String
  inject_other : ∀ h name, name ∉ fields → (inject h).get name = h.get name

def IDEMPOTENCY_METHODS : List String := ["POST", "PUT", "PATCH"]
def IDEMPOTENCY_HEADER : String := "Idempotency-Key"

variable (lower upper : String → String)

/-- A case variant of the header's name. -/
def isIdempotencyHeader (name : String) : Bool := lower name = lower IDEMPOTENCY_HEADER

def hasHeader (headers : Option Headers) : Bool :=
  match headers with
  | none => false
  | some h => h.keys.any (isIdempotencyHeader lower)

/-- `_resolve_idempotency_header`; `uuid4` is the `uuid4().hex` that it draws. -/
def resolveIdempotencyHeader (uuid4 method : String) (headers : Option Headers) (idempotencyKey : Option String)
    (autoIdempotencyKey : Bool) : Option Headers :=
  if idempotencyKey = none ∧ (hasHeader lower headers ∨ ¬ autoIdempotencyKey) then headers
  else if idempotencyKey = none ∧ upper method ∉ IDEMPOTENCY_METHODS then headers
  else
    let resolved := (headers.getD {}).drop (isIdempotencyHeader lower)
    some (resolved.set IDEMPOTENCY_HEADER
      -- an empty key is as good as none
      (match idempotencyKey with
        | some key => if key = "" then uuid4 else key
        | none => uuid4))

/-- `_maybe_inject_trace_context`; `none` stands for a missing extra. -/
def maybeInjectTraceContext (tracing : Option Propagator) (headers : Option Headers) : Option Headers :=
  match tracing with
  | none => headers
  | some p => some (p.inject (headers.getD {}))

/-- What `_raw_send` gives to `httpx`: `dict(headers) if headers else None`. -/
def handed (headers : Option Headers) : Option Headers := headers.filter fun h => !h.items.isEmpty

/-! ### The request -/

/-- `send` is an attempt with its headers; the rest is what the wrappers around it ask. -/
inductive SendAsk
  | send (headers : Option Headers)
  | other (q : Ask)

@[reducible] def SendAnswer (V : Type) : SendAsk → Type
  | .send _ => Outcome V
  | .other q => Answer V q

/-- `_raw_send(**call_kwargs)` where the wrapped function is called. -/
def sendWith {V : Type} (headers : Option Headers) : (q : Ask) → Code SendAsk (SendAnswer V) PyExc (Answer V q)
  | .invoke => perform (SendAsk.send (handed headers))
  | .onError exc attempt => perform (SendAsk.other (Ask.onError exc attempt))
  | .incr name tags => perform (SendAsk.other (Ask.incr name tags))
  | .random => perform (SendAsk.other Ask.random)
  | .sleep delay => perform (SendAsk.other (Ask.sleep delay))
  | .admission => perform (SendAsk.other Ask.admission)
  | .recordSuccess => perform (SendAsk.other Ask.recordSuccess)
  | .recordFailure => perform (SendAsk.other Ask.recordFailure)

structure RequestArgs where
  method : String
  headers : Option Headers := none
  idempotencyKey : Option String := none
  autoIdempotencyKey : Bool := false

/-- What the wrappers read, what the check of the URL says, and what the call draws and finds installed. -/
structure RequestSetting where
  breakerCfg : BreakerConfig := {}
  policy : Retry.RetryPolicy
  checked : Except PyExc Unit := .ok ()
  uuid4 : String
  tracing : Option Propagator := none

variable {V : Type} (s : RequestSetting) (args : RequestArgs)

/-- The headers that go into the retry loop. -/
def settled : Option Headers :=
  maybeInjectTraceContext s.tracing
    (resolveIdempotencyHeader lower upper s.uuid4 args.method args.headers args.idempotencyKey
      args.autoIdempotencyKey)

/-- `request` -/
def request : Code SendAsk (SendAnswer (Option V)) PyExc (Option V) := do
  Code.ofExcept s.checked
  translate (sendWith (settled lower upper s args))
    (resilient s.breakerCfg s.policy "_raw_send" .async Py.invoke)

/-- The headers of the attempts in a history. -/
def sent (h : List (Exchange (SendAnswer V))) : List (Option Headers) :=
  h.filterMap fun x =>
    match x.1 with
    | .send headers => some headers
    | .other _ => none

/-- A key is generated: none was given, and no header is there. -/
def Generates : Prop :=
  args.idempotencyKey = none ∧ args.autoIdempotencyKey = true ∧ upper args.method ∈ IDEMPOTENCY_METHODS ∧
    hasHeader lower args.headers = false

/-- The call settles this key. -/
def SettlesKey (key : String) : Prop :=
  args.idempotencyKey = some key ∨ Generates lower upper args ∧ key = s.uuid4

/-- The names of the header that are there. -/
def keyNames (headers : Option Headers) : List String :=
  (headers.elim [] OrderedDict.keys).filter (isIdempotencyHeader lower)

variable {lower upper s args} {headers : Option Headers} {name key : String}

/-! ### Resolution -/

theorem resolve_of_settlesKey (hkey : args.idempotencyKey ≠ some "") (h : SettlesKey lower upper s args key) :
    resolveIdempotencyHeader lower upper s.uuid4 args.method args.headers args.idempotencyKey
        args.autoIdempotencyKey =
      some (((args.headers.getD {}).drop (isIdempotencyHeader lower)).set IDEMPOTENCY_HEADER key) := by
  unfold resolveIdempotencyHeader
  obtain h | ⟨⟨hnone, hauto, hmethod, hno⟩, rfl⟩ := h
  · have hne : key ≠ "" := fun hk => hkey (hk ▸ h)
    simp [h, hne]
  · simp [hnone, hauto, hmethod, hno]

theorem resolve_of_not_settlesKey (h : ∀ key, ¬ SettlesKey lower upper s args key) :
    resolveIdempotencyHeader lower upper s.uuid4 args.method args.headers args.idempotencyKey
        args.autoIdempotencyKey = args.headers := by
  unfold resolveIdempotencyHeader
  have hnone : args.idempotencyKey = none := by
    cases hk : args.idempotencyKey with
    | none => rfl
    | some key => exact absurd (.inl hk) (h key)
  split_ifs with hcaller hsafe
  · rfl
  · rfl
  · refine absurd (.inr ⟨⟨hnone, ?_⟩, rfl⟩) (h s.uuid4)
    simpa [hnone, and_assoc, and_comm, and_left_comm] using And.intro hcaller hsafe

theorem valueOf_getD (headers : Option Headers) (name : String) :
    (headers.getD {}).get name = valueOf headers name := by
  cases headers <;> rfl

theorem valueOf_resolve_other (hname : isIdempotencyHeader lower name = false) :
    valueOf (resolveIdempotencyHeader lower upper s.uuid4 args.method args.headers args.idempotencyKey
      args.autoIdempotencyKey) name = valueOf args.headers name := by
  have hne : name ≠ IDEMPOTENCY_HEADER := by
    rintro rfl
    simp [isIdempotencyHeader] at hname
  unfold resolveIdempotencyHeader
  split_ifs
  · rfl
  · rfl
  · simp [valueOf, hne, hname, valueOf_getD]

/-- The propagator is the last to touch the headers, and touches its own. -/
theorem valueOf_settled (hname : ∀ p, s.tracing = some p → name ∉ p.fields) :
    valueOf (settled lower upper s args) name =
      valueOf (resolveIdempotencyHeader lower upper s.uuid4 args.method args.headers args.idempotencyKey
        args.autoIdempotencyKey) name := by
  unfold settled maybeInjectTraceContext
  cases ht : s.tracing with
  | none => rfl
  | some p => exact (p.inject_other _ name (hname p ht)).trans (valueOf_getD _ name)

@[simp] theorem valueOf_handed (headers : Option Headers) (name : String) :
    valueOf (handed headers) name = valueOf headers name := by
  cases headers with
  | none => rfl
  | some h =>
    cases hitems : h.items with
    | nil => simp [handed, valueOf, OrderedDict.get, hitems]
    | cons x items =>
      have hkeep : handed (some h) = some h := by
        rw [handed, Option.filter_some]
        simp [hitems]
      rw [hkeep]

theorem mem_keyNames : name ∈ keyNames lower headers ↔
    isIdempotencyHeader lower name = true ∧ valueOf headers name ≠ none := by
  cases headers with
  | none => simp [keyNames, valueOf]
  | some h => simp [keyNames, valueOf, OrderedDict.get_eq_none_iff, and_comm]

theorem nodup_keyNames (headers : Option Headers) : (keyNames lower headers).Nodup := by
  cases headers with
  | none => exact List.nodup_nil
  | some h => exact h.nodup.filter _

/-! ### The attempts -/

theorem asks_request : Asks (fun q => ∀ hs, q = .send hs → hs = handed (settled lower upper s args))
    (request lower upper s args : Code SendAsk (SendAnswer (Option V)) PyExc (Option V)) := by
  refine Asks.bind (Asks.ofExcept _) fun _ =>
    Asks.translate (asks_of_forall (P := fun _ => True) (fun _ => trivial) _) fun q _ => ?_
  cases q with
  | invoke => exact Asks.perform fun hs h => (SendAsk.send.inj h).symm
  | _ => exact Asks.perform fun hs h => nomatch h

theorem sent_request (env : Env (SendAnswer (Option V))) :
    ∀ hs ∈ sent (exec env [] (request lower upper s args)).1, hs = handed (settled lower upper s args) := by
  refine asks_request.invariant (I := fun h => ∀ hs ∈ sent h, hs = handed (settled lower upper s args)) env
    (fun h q hq hI => ?_) (by simp [sent])
  intro hs hhs
  cases q with
  | send headers =>
    simp only [sent, List.filterMap_append, List.mem_append] at hhs
    obtain hhs | hhs := hhs
    · exact hI hs hhs
    · obtain rfl : hs = headers := by simpa using hhs
      exact hq hs rfl
  | other q => exact hI hs (by simpa [sent] using hhs)

variable (lower upper s args) in
/-- **One idempotency key per request.**  All attempts of a request, whatever they end in, send the same
headers.  A key that is settled is the value of the only header of its name.  Without one the headers of that
name are the caller's, and all others are, up to those that the propagator sets. -/
theorem one_key (hkey : args.idempotencyKey ≠ some "")
    (hfields : ∀ p, s.tracing = some p → ∀ field ∈ p.fields, isIdempotencyHeader lower field = false) :
    ∃ wire : Option Headers,
      (∀ env : Env (SendAnswer (Option V)),
        ∀ hs ∈ sent (exec env [] (request lower upper s args)).1, hs = wire) ∧
      (∀ key, SettlesKey lower upper s args key →
        keyNames lower wire = [IDEMPOTENCY_HEADER] ∧ valueOf wire IDEMPOTENCY_HEADER = some key) ∧
      ((∀ key, ¬ SettlesKey lower upper s args key) →
        ∀ name, isIdempotencyHeader lower name = true → valueOf wire name = valueOf args.headers name) ∧
      ∀ name, isIdempotencyHeader lower name = false → (∀ p, s.tracing = some p → name ∉ p.fields) →
        valueOf wire name = valueOf args.headers name := by
  have hidem : ∀ name, isIdempotencyHeader lower name = true → ∀ p, s.tracing = some p → name ∉ p.fields := by
    intro name hname p hp hmem
    rw [hfields p hp name hmem] at hname
    exact absurd hname Bool.false_ne_true
  refine ⟨handed (settled lower upper s args), sent_request, ?_, ?_, ?_⟩
  · intro key hsettles
    have hvalue : ∀ name, isIdempotencyHeader lower name = true →
        valueOf (handed (settled lower upper s args)) name =
          if name = IDEMPOTENCY_HEADER then some key else none := by
      intro name hname
      rw [valueOf_handed, valueOf_settled (hidem name hname), resolve_of_settlesKey hkey hsettles]
      simp [valueOf, hname]
    have hown : isIdempotencyHeader lower IDEMPOTENCY_HEADER = true := decide_eq_true rfl
    refine ⟨List.perm_singleton.mp ((List.perm_ext_iff_of_nodup (nodup_keyNames _)
      (List.nodup_singleton _)).mpr fun name => ?_), ?_⟩
    · rw [mem_keyNames, List.mem_singleton]
      constructor
      · rintro ⟨hname, hthere⟩
        rw [hvalue name hname] at hthere
        by_contra hne
        exact hthere (if_neg hne)
      · rintro rfl
        refine ⟨hown, ?_⟩
        rw [hvalue _ hown, if_pos rfl]
        exact Option.some_ne_none key
    · rw [hvalue _ hown, if_pos rfl]
  · intro hnot name hname
    rw [valueOf_handed, valueOf_settled (hidem name hname), resolve_of_not_settlesKey hnot]
  · intro name hname hother
    rw [valueOf_handed, valueOf_settled hother, valueOf_resolve_other hname]

/-- A tracer with an active span. -/
def traceparent : Propagator where
  inject := fun h => h.set "traceparent" "00-0af7651916cd43dd8448eb211c80319c-b7ad6b7169203331-01"
  fields := ["traceparent"]
  inject_other := fun h name hname => by
    rw [OrderedDict.get_set, if_neg (by simpa using hname)]

/-- ASCII letters. -/
def asciiLower (text : String) : String := String.ofList (text.toList.map Char.toLower)

def asciiUpper (text : String) : String := String.ofList (text.toList.map Char.toUpper)

/-- A client with tracing; timeouts are tried again. -/
def traced : RequestSetting where
  policy :=
    { maxAttempts := 3, waitMin := 1, waitMax := 4, exponentialBase := 2, jitter := "none",
      retryOn := [.externalTimeoutError] }
  uuid4 := "5f0c7e7a1b8c4d22a4d5b2a2f2f0c9d1"
  tracing := some traceparent

/-- A payment that asks for a key and has a trace of its own. -/
def payment : RequestArgs where
  method := "post"
  headers := some { items := [("X-Tenant", "acme"), ("traceparent", "00-1")], nodup := by decide }
  autoIdempotencyKey := true

theorem one_key_payment : ∃ wire : Option Headers,
    (∀ env : Env (SendAnswer (Option ℕ)),
      ∀ hs ∈ sent (exec env [] (request asciiLower asciiUpper traced payment)).1, hs = wire) ∧
    keyNames asciiLower wire = [IDEMPOTENCY_HEADER] ∧
    valueOf wire IDEMPOTENCY_HEADER = some "5f0c7e7a1b8c4d22a4d5b2a2f2f0c9d1" ∧
    valueOf wire "X-Tenant" = some "acme" := by
  obtain ⟨wire, hsame, hkey, -, hother⟩ := one_key (V := ℕ) asciiLower asciiUpper traced payment (by decide) (by
      rintro p ⟨⟩ field hfield
      obtain rfl := List.mem_singleton.mp hfield
      decide +kernel)
  have hsettles : SettlesKey asciiLower asciiUpper traced payment "5f0c7e7a1b8c4d22a4d5b2a2f2f0c9d1" :=
    .inr ⟨⟨rfl, rfl, by decide +kernel, by decide +kernel⟩, rfl⟩
  refine ⟨wire, hsame, (hkey _ hsettles).1, (hkey _ hsettles).2, ?_⟩
  refine (hother "X-Tenant" (by decide +kernel) ?_).trans rfl
  rintro p ⟨⟩
  decide

/-- Every attempt of the payment times out, and none sends the trace that the caller gave. -/
theorem trace_replaced :
    let timeouts : Env (SendAnswer (Option ℕ)) := fun _ => fun
      | .send _ => .raised ⟨.externalTimeoutError, 0⟩
      | .other q => (Outcome.raised ⟨.externalTimeoutError, 0⟩ : Outcome (Option ℕ)).alone q
    let run := exec timeouts [] (request asciiLower asciiUpper traced payment)
    (sent run.1).length = 3 ∧
      ∀ hs ∈ sent run.1, valueOf hs "traceparent" ≠ valueOf payment.headers "traceparent" := by
  decide +kernel

end ResilienceKit.HttpClient.Idempotency

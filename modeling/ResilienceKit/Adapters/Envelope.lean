import ResilienceKit.Middleware.Layers

/-!
# Adapters.Envelope — five builders of one error answer

Two ASGI middlewares, `from_exception` of the adapters and two functions of the Django middlewares each make a
status, a JSON object and headers of an exception.  `one_contract_iff` says for which exceptions they agree.
-/

namespace ResilienceKit.Adapters

open Middleware

variable {J : Type} (errors : Errors J)

/-- An answer before its body is serialised. -/
structure JsonAnswer (J : Type) where
  status : ℕ
  headers : Headers
  body : Envelope J

def JsonAnswer.serialise (answer : JsonAnswer J) : Except PyExc Reply := do
  let body ← errors.dumps answer.body
  return ⟨answer.status, answer.headers, body⟩

/-- `_respond_kit_error`, up to `json.dumps`. -/
def kitError (exc : PyExc) : Except PyExc (JsonAnswer J) := do
  let message ← errors.str exc
  return ⟨httpStatusFor exc, [("content-type", "application/json")],
    ⟨errors.errorCode exc, some message, errors.details exc⟩⟩

/-- `_respond_429`, up to `json.dumps`. -/
def rateLimit429 (exc : PyExc) : JsonAnswer J :=
  ⟨429, ("content-type", "application/json") ::
    (errors.rateLimit exc).responseHeaders.map fun x => (lowerBytes x.1, x.2),
    ⟨errors.errorCode exc, none, errors.details exc⟩⟩

theorem respondKitError_eq (exc : PyExc) :
    respondKitError errors exc = kitError errors exc >>= JsonAnswer.serialise errors := by
  unfold respondKitError kitError
  cases errors.str exc <;> rfl

theorem respond429_eq (exc : PyExc) : respond429 errors exc = (rateLimit429 errors exc).serialise errors := rfl

/-- `from_exception` without an `envelope_cls`. -/
def fromException (extraHeaders : Headers) (exc : PyExc) : Except PyExc (JsonAnswer J) := do
  let message ← errors.str exc
  let headers :=
    if isinstance exc .rateLimitError then update extraHeaders (errors.rateLimit exc).responseHeaders
    else extraHeaders
  return ⟨httpStatusFor exc, headers, ⟨errors.errorCode exc, some message, errors.details exc⟩⟩

/-- `_rate_limit_response` -/
def rateLimitResponse (exc : PyExc) : Except PyExc (JsonAnswer J) := do
  let message ← errors.str exc
  return ⟨429, ("Content-Type", "application/json") :: (errors.rateLimit exc).responseHeaders,
    ⟨errors.errorCode exc, some message, errors.details exc⟩⟩

/-- `_kit_error_response` -/
def kitErrorResponse (exc : PyExc) : Except PyExc (JsonAnswer J) := do
  let message ← errors.str exc
  let headers :=
    if isinstance exc .rateLimitError then
      ("Content-Type", "application/json") :: (errors.rateLimit exc).responseHeaders
    else [("Content-Type", "application/json")]
  return ⟨httpStatusFor exc, headers, ⟨errors.errorCode exc, some message, errors.details exc⟩⟩

/-! ### The contract -/

inductive Builder
  | respondKitError
  | respond429
  | fromException
  | rateLimitResponse
  | kitErrorResponse
  deriving DecidableEq, Repr

/-- The exceptions that the callers of a builder hand to it. -/
def Builder.accepts : Builder → PyExc → Bool
  | .respondKitError, exc => isinstance exc .resilienceKitError
  | .respond429, exc => isinstance exc .rateLimitError
  | .fromException, exc => isinstance exc .resilienceKitError
  | .rateLimitResponse, exc => isinstance exc .rateLimitError
  | .kitErrorResponse, exc => isinstance exc .resilienceKitError

def Builder.build (extraHeaders : Headers) : Builder → PyExc → Except PyExc (JsonAnswer J)
  | .respondKitError, exc => kitError errors exc
  | .respond429, exc => .ok (rateLimit429 errors exc)
  | .fromException, exc => Adapters.fromException errors extraHeaders exc
  | .rateLimitResponse, exc => Adapters.rateLimitResponse errors exc
  | .kitErrorResponse, exc => Adapters.kitErrorResponse errors exc

def RATE_LIMIT_HEADERS : List String :=
  ["Retry-After", "X-RateLimit-Limit", "X-RateLimit-Remaining", "X-RateLimit-Reset"]

/-- The values of a header, whatever the case of its name. -/
def JsonAnswer.values (answer : JsonAnswer J) (name : String) : List String :=
  (answer.headers.filter fun x => lowerBytes x.1 = lowerBytes name).map Prod.snd

/-- What the answers to an exception have in common. -/
def contract (exc : PyExc) (answer : JsonAnswer J) : ℕ × Envelope J × List (List String) :=
  (answer.status, answer.body, if isinstance exc .rateLimitError then RATE_LIMIT_HEADERS.map answer.values else [])

/-- All builders that accept the exception keep one contract. -/
def OneContract (extraHeaders : Headers) (exc : PyExc) : Prop :=
  ∀ b c : Builder, b.accepts exc = true → c.accepts exc = true →
    (b.build errors extraHeaders exc).map (contract exc) = (c.build errors extraHeaders exc).map (contract exc)

variable {errors} {extraHeaders : Headers} {exc : PyExc}

/-- Away from rate limits a builder does what `_respond_kit_error` does. -/
theorem build_eq_kitError (hrate : isinstance exc .rateLimitError = false) {b : Builder} (hb : b.accepts exc = true) :
    (b.build errors extraHeaders exc).map (contract exc) = (kitError errors exc).map (contract exc) := by
  cases b with
  | respondKitError => rfl
  | respond429 => exact absurd (hrate ▸ hb) Bool.false_ne_true
  | fromException =>
    simp only [Builder.build, fromException, kitError, hrate]
    cases errors.str exc <;> simp [contract, hrate, Except.map, bind, Except.bind, pure, Except.pure]
  | rateLimitResponse => exact absurd (hrate ▸ hb) Bool.false_ne_true
  | kitErrorResponse =>
    simp only [Builder.build, kitErrorResponse, kitError, hrate]
    cases errors.str exc <;> simp [contract, hrate, Except.map, bind, Except.bind, pure, Except.pure]

/-- **One error contract** is kept exactly for what is no rate limit: the 429 of the ASGI middleware has no
message. -/
theorem one_contract_iff (errors : Errors J) (extraHeaders : Headers) (exc : PyExc) :
    OneContract errors extraHeaders exc ↔ isinstance exc .rateLimitError = false := by
  constructor
  · intro h
    by_contra hrate
    rw [Bool.not_eq_false] at hrate
    have heq := h .respond429 .rateLimitResponse hrate hrate
    simp only [Builder.build, rateLimitResponse] at heq
    cases hstr : errors.str exc with
    | error exc' =>
      rw [hstr] at heq
      cases heq
    | ok message =>
      rw [hstr] at heq
      have hbody := congrArg Envelope.message (Prod.mk.inj (Prod.mk.inj (Except.ok.inj heq)).2).1
      cases hbody
  · intro hrate b c hb hc
    exact (build_eq_kitError hrate hb).trans (build_eq_kitError hrate hc).symm

/-! ### Rate limits -/

theorem httpStatusFor_rateLimit (hrate : isinstance exc .rateLimitError = true) :
    httpStatusFor exc = 429 ↔ isinstance exc .validationError = false := by
  cases hv : isinstance exc .validationError with
  | true => simp [httpStatusFor, HTTP_STATUS_MAP, hv]
  | false => simp [httpStatusFor, HTTP_STATUS_MAP, hv, hrate]

theorem update_responseHeaders (f : RateLimitFields) : update [] f.responseHeaders = f.responseHeaders := by
  simp [update, RateLimitFields.responseHeaders, Audit.setItem]

/-- Beside other headers, those of a rate limit stand once each. -/
theorem contract_rateLimit (hrate : isinstance exc .rateLimitError = true) (f : RateLimitFields) (status : ℕ)
    (body : Envelope J) {others : Headers}
    (hothers : ∀ x ∈ others, ∀ name ∈ RATE_LIMIT_HEADERS, lowerBytes x.1 ≠ lowerBytes name) :
    contract exc ⟨status, others ++ f.responseHeaders, body⟩ =
      (status, body, f.responseHeaders.map fun x => [x.2]) := by
  have hlower : RATE_LIMIT_HEADERS.map lowerBytes =
      ["retry-after", "x-ratelimit-limit", "x-ratelimit-remaining", "x-ratelimit-reset"] := by
    decide +kernel
  simp only [RATE_LIMIT_HEADERS, List.map_cons, List.map_nil, List.cons.injEq, and_true] at hlower
  obtain ⟨h1, h2, h3, h4⟩ := hlower
  have hnone : ∀ name ∈ RATE_LIMIT_HEADERS, ∀ a b, (a, b) ∈ others → ¬ lowerBytes a = lowerBytes name :=
    fun name hname a b hx => hothers (a, b) hx name hname
  simp only [RATE_LIMIT_HEADERS, List.forall_mem_cons, h1, h2, h3, h4] at hnone
  obtain ⟨n1, n2, n3, n4, -⟩ := hnone
  simpa [contract, hrate, RATE_LIMIT_HEADERS, JsonAnswer.values, RateLimitFields.responseHeaders, h1, h2, h3, h4]
    using ⟨n1, n2, n3, n4⟩

/-- Outside the ASGI middlewares a rate limit is answered in one way, unless it is a validation error, too. -/
theorem rate_limit_agree_iff {message : String} (hrate : isinstance exc .rateLimitError = true)
    (hstr : errors.str exc = .ok message) :
    (∀ b ∈ [Builder.fromException, .rateLimitResponse, .kitErrorResponse],
      (b.build errors [] exc).map (contract exc) =
        .ok (429, ⟨errors.errorCode exc, some message, errors.details exc⟩,
          (errors.rateLimit exc).responseHeaders.map fun x => [x.2])) ↔
      isinstance exc .validationError = false := by
  rw [← httpStatusFor_rateLimit hrate]
  constructor
  · intro h
    have hkit := h .kitErrorResponse (by simp)
    simp only [Builder.build, kitErrorResponse, hstr] at hkit
    exact (Prod.mk.inj (Except.ok.inj hkit)).1
  · intro hstatus b hb
    have hjson : ∀ x ∈ [("Content-Type", "application/json")], ∀ name ∈ RATE_LIMIT_HEADERS,
        lowerBytes x.1 ≠ lowerBytes name := by
      decide +kernel
    simp only [List.mem_cons, List.not_mem_nil, or_false] at hb
    obtain rfl | rfl | rfl := hb
    · simp only [Builder.build, fromException, hstr, hrate, if_true, hstatus, update_responseHeaders]
      exact congrArg Except.ok (contract_rateLimit hrate _ _ _ (List.forall_mem_nil _))
    · simp only [Builder.build, rateLimitResponse, hstr]
      exact congrArg Except.ok (contract_rateLimit hrate _ _ _ hjson)
    · simp only [Builder.build, kitErrorResponse, hstr, hrate, if_true, hstatus]
      exact congrArg Except.ok (contract_rateLimit hrate _ _ _ hjson)

/-- A limit of 60 requests that lifts in twelve seconds. -/
def sixty : Errors ℚ where
  errorCode _ := "RATE_LIMIT_EXCEEDED"
  str _ := .ok "Rate limit exceeded (limit=60, retry_after=12.00s)."
  details _ := [("limit", 60), ("remaining", 0), ("reset_at", 1700000000), ("retry_after", 12)]
  rateLimit _ := ⟨60, 0, 1700000000, 12⟩
  dumps _ := .ok []

/-- One middleware drops the message, the other one the headers. -/
theorem rate_limit_two_contracts :
    let exc : PyExc := ⟨.rateLimitError, 0⟩
    (Builder.respond429.build sixty [] exc).map (fun a => (a.body.message, a.values "Retry-After")) =
        .ok (none, ["12"]) ∧
      (Builder.respondKitError.build sixty [] exc).map (fun a => (a.body.message, a.values "Retry-After")) =
        .ok (some "Rate limit exceeded (limit=60, retry_after=12.00s).", []) ∧
      ¬ OneContract sixty [] exc := by
  refine ⟨by decide +kernel, by decide +kernel, fun h => ?_⟩
  have heq := h .respond429 .rateLimitResponse rfl rfl
  cases congrArg (Except.map fun a => a.2.1.message) heq

end ResilienceKit.Adapters

import ResilienceKit.Middleware.Asgi

/-!
# Middleware.Errors — `ExceptionLoggingMiddleware` and `RateLimitHeadersMiddleware`

Both answer what the inner application raises, whatever it has sent before.  `stack_legal_iff` says when a
stack of such layers keeps to the response protocol.
-/

namespace ResilienceKit.Middleware

open Program Code

/-- The fields of a `RateLimitError`. -/
structure RateLimitFields where
  limit : ℤ
  remaining : ℤ
  resetAt : ℤ
  retryAfter : ℚ

/-- The object that an envelope serialises; `J` has the values of `details`. -/
structure Envelope (J : Type) where
  errorCode : String
  message : Option String
  details : List (String × J)

/-- What exceptions carry, with `str` and `json.dumps`. -/
structure Errors (J : Type) where
  errorCode : PyExc → String
  str : PyExc → Except PyExc String
  details : PyExc → List (String × J)
  rateLimit : PyExc → RateLimitFields
  dumps : Envelope J → Except PyExc (List UInt8)

/-- `HTTP_STATUS_MAP` -/
def HTTP_STATUS_MAP : List (PyClass × ℕ) :=
  [(.validationError, 400), (.rateLimitError, 429), (.serviceUnavailableError, 503),
    (.externalTimeoutError, 504), (.externalServiceError, 502), (.decryptionError, 500),
    (.repositoryError, 500)]

/-- `http_status_for` -/
def httpStatusFor (exc : PyExc) : ℕ :=
  match HTTP_STATUS_MAP.find? fun x => isinstance exc x.1 with
  | some x => x.2
  | none => 500

/-- `int` of a number. -/
def int (q : ℚ) : ℤ := if q < 0 then -(-q).floor else q.floor

/-- `RateLimitError.response_headers` -/
def RateLimitFields.responseHeaders (f : RateLimitFields) : Headers :=
  [("Retry-After", toString (max 1 (int f.retryAfter + if 0 < f.retryAfter - f.retryAfter.floor then 1 else 0))),
    ("X-RateLimit-Limit", toString f.limit), ("X-RateLimit-Remaining", toString f.remaining),
    ("X-RateLimit-Reset", toString f.resetAt)]

/-- `bytes.lower` -/
def lowerBytes (s : String) : String := String.ofList (s.toList.map Char.toLower)

variable {X Y J : Type} (errors : Errors J)

/-- An answer that a layer gives by itself. -/
structure Reply where
  status : ℕ
  headers : Headers
  body : List UInt8

/-- The start and the one body message of an answer. -/
def Reply.send (r : Reply) : AsgiCode X Y Unit := do
  Middleware.send (.start r.status r.headers)
  Middleware.send (.body r.body false)

/-- What a layer catches of the inner application, and how it answers. -/
structure Layer where
  catches : PyExc → Bool
  render : PyExc → Except PyExc Reply

/-- `__call__` of a layer. -/
def Layer.wrap (l : Layer) (app : App X Y) : App X Y := fun scope =>
  if scope.type ≠ "http" then app scope
  else
    tryElse (app scope)
      (fun exc =>
        if l.catches exc then do
          let reply ← Code.ofExcept (l.render exc)
          reply.send
        else throw exc)
      pure

/-- `_respond_kit_error`, up to the sending. -/
def respondKitError (exc : PyExc) : Except PyExc Reply := do
  let message ← errors.str exc
  let body ← errors.dumps ⟨errors.errorCode exc, some message, errors.details exc⟩
  return ⟨httpStatusFor exc, [("content-type", "application/json")], body⟩

/-- `_respond_generic_500` serialises a constant. -/
def GENERIC_500 : String :=
  "\x7b\"error_code\": \"INTERNAL_ERROR\", \"message\": \"Internal server error.\", \"details\": \x7b\x7d\x7d"

def respondGeneric500 : Reply := ⟨500, [("content-type", "application/json")], GENERIC_500.toUTF8.toList⟩

/-- `ExceptionLoggingMiddleware` -/
def exceptionLogging : Layer where
  catches exc := isinstance exc .resilienceKitError || isinstance exc .exception
  render exc :=
    if isinstance exc .resilienceKitError then respondKitError errors exc
    else .ok respondGeneric500

/-- `_respond_429`, up to the sending. -/
def respond429 (exc : PyExc) : Except PyExc Reply := do
  let body ← errors.dumps ⟨errors.errorCode exc, none, errors.details exc⟩
  return ⟨429, ("content-type", "application/json") ::
    (errors.rateLimit exc).responseHeaders.map fun x => (lowerBytes x.1, x.2), body⟩

/-- `RateLimitHeadersMiddleware` -/
def rateLimitHeaders : Layer where
  catches exc := isinstance exc .rateLimitError
  render := respond429 errors

theorem rateLimitHeaders_render (exc : PyExc) :
    (rateLimitHeaders errors).render exc = respond429 errors exc := rfl

/-! ### How a layer runs -/

namespace Layer

variable (l : Layer)

/-- The layer answers what comes out of the application. -/
def Answers (r : Except PyExc Unit) : Prop :=
  ∃ exc reply, r = .error exc ∧ l.catches exc = true ∧ l.render exc = .ok reply

variable {l} {env : Env (AsgiAnswer X Y)} {h : AsgiHistory X Y} {scope : Scope}

/-- An answer is a start, followed by its body if the server took the start. -/
theorem exec_reply (env : Env (AsgiAnswer X Y)) (h : AsgiHistory X Y) (reply : Reply) :
    ∃ rest, sent (exec env h (reply.send : AsgiCode X Y Unit)).1 =
      sent h ++ .start reply.status reply.headers :: rest ∧ Legal (.start reply.status reply.headers :: rest) := by
  rw [Reply.send, exec_bind, exec_send]
  cases env h (.send (.start reply.status reply.headers)) with
  | some exc =>
    refine ⟨[], ?_, legal_iff.mpr ⟨_, rfl⟩⟩
    simp only [Py.raised, sent_concat]
  | none =>
    refine ⟨[.body reply.body false], ?_, legal_iff.mpr ⟨_, rfl⟩⟩
    simp only [Py.raised, exec_send]
    rw [sent_concat, sent_concat, List.append_assoc]
    rfl

/-- A layer that does not answer sends nothing. -/
theorem sent_wrap (l : Layer) (app : App X Y) (hscope : scope.type = "http")
    (hno : ¬ l.Answers (exec env h (app scope)).2) :
    sent (exec env h (l.wrap app scope)).1 = sent (exec env h (app scope)).1 := by
  rw [wrap, if_neg (not_not.mpr hscope), exec_tryElse]
  rcases hrun : exec env h (app scope) with ⟨h', exc | u⟩
  · simp only
    split_ifs with hc
    · rw [exec_bind, exec_ofExcept]
      cases hr : l.render exc with
      | error exc' => rfl
      | ok reply => exact absurd ⟨exc, reply, by rw [hrun], hc, hr⟩ hno
    · rfl
  · rfl

/-- A layer that answers sends the start of its reply first. -/
theorem sent_wrap_answers (l : Layer) (app : App X Y) (hscope : scope.type = "http") {exc : PyExc}
    {reply : Reply} (hr : (exec env h (app scope)).2 = .error exc) (hc : l.catches exc = true)
    (hrender : l.render exc = .ok reply) : ∃ rest,
    sent (exec env h (l.wrap app scope)).1 =
      sent (exec env h (app scope)).1 ++ .start reply.status reply.headers :: rest ∧
      Legal (.start reply.status reply.headers :: rest) := by
  obtain ⟨rest, hrest, hlegal⟩ := exec_reply env (exec env h (app scope)).1 reply
  refine ⟨rest, ?_, hlegal⟩
  rw [← hrest, wrap, if_neg (not_not.mpr hscope), exec_tryElse]
  rcases hrun : exec env h (app scope) with ⟨h', r⟩
  rw [hrun] at hr
  obtain rfl : r = .error exc := hr
  simp only [if_pos hc, hrender]
  rfl

end Layer

/-! ### Stacks of layers -/

/-- The layers around the application, the outermost first. -/
def stack (layers : List Layer) (app : App X Y) : App X Y := layers.foldr Layer.wrap app

@[simp] theorem stack_cons (l : Layer) (layers : List Layer) (app : App X Y) :
    stack (l :: layers) app = l.wrap (stack layers app) := rfl

variable {env : Env (AsgiAnswer X Y)} {app : App X Y} {scope : Scope}

/-- Whatever layer of the stack answers, nothing was sent before. -/
def AnswersFirst (env : Env (AsgiAnswer X Y)) (layers : List Layer) (app : App X Y) (scope : Scope) : Prop :=
  ∀ outer l inner, layers = outer ++ l :: inner →
    l.Answers (exec env [] (stack inner app scope)).2 → sent (exec env [] (stack inner app scope)).1 = []

theorem answersFirst_cons {l : Layer} {layers : List Layer} : AnswersFirst env (l :: layers) app scope ↔
    (l.Answers (exec env [] (stack layers app scope)).2 → sent (exec env [] (stack layers app scope)).1 = []) ∧
      AnswersFirst env layers app scope := by
  constructor
  · exact fun h => ⟨h [] l layers rfl, fun outer l' inner he => h (l :: outer) l' inner (congrArg (l :: ·) he)⟩
  · rintro ⟨hl, hrest⟩ outer l' inner he
    rcases List.cons_eq_append_iff.mp he with ⟨rfl, h⟩ | ⟨outer', rfl, h⟩
    · obtain ⟨rfl, rfl⟩ := List.cons.inj h
      exact hl
    · exact hrest outer' l' inner h

/-- **Run lemma**: the layers keep to the protocol exactly if the application does and no layer answers
after something was sent. -/
theorem stack_legal_iff (layers : List Layer) (hscope : scope.type = "http") :
    Legal (sent (exec env [] (stack layers app scope)).1) ↔
      Legal (sent (exec env [] (app scope)).1) ∧ AnswersFirst env layers app scope := by
  induction layers with
  | nil => exact ⟨fun h => ⟨h, by rintro outer l inner he; simp at he⟩, fun h => h.1⟩
  | cons l layers ih =>
    rw [stack_cons, answersFirst_cons]
    by_cases ha : l.Answers (exec env [] (stack layers app scope)).2
    · obtain ⟨exc, reply, hr, hc, hrender⟩ := id ha
      obtain ⟨rest, hsent, hrest⟩ := Layer.sent_wrap_answers l _ hscope hr hc hrender
      rw [hsent, legal_answer_iff hrest]
      refine ⟨fun h => ?_, fun h => h.2.1 ha⟩
      obtain ⟨happ, hinner⟩ := ih.mp (h ▸ legal_nil)
      exact ⟨happ, fun _ => h, hinner⟩
    · rw [Layer.sent_wrap l _ hscope ha, ih]
      exact ⟨fun h => ⟨h.1, fun ha' => absurd ha' ha, h.2⟩, fun h => ⟨h.1, h.2.2⟩⟩

/-! ### The two middlewares -/

/-- Which of the two a layer is. -/
inductive ErrorMiddleware
  | exceptionLogging
  | rateLimitHeaders
  deriving DecidableEq, Repr

def ErrorMiddleware.layer : ErrorMiddleware → Layer
  | .exceptionLogging => Middleware.exceptionLogging errors
  | .rateLimitHeaders => Middleware.rateLimitHeaders errors

theorem exceptionLogging_answers_iff {r : Except PyExc Unit} : (exceptionLogging errors).Answers r ↔
    ∃ exc, r = .error exc ∧ ((isinstance exc .resilienceKitError = true ∧
        ∃ reply, respondKitError errors exc = .ok reply) ∨
      (isinstance exc .resilienceKitError = false ∧ isinstance exc .exception = true)) := by
  refine exists_congr fun exc => ?_
  simp only [exceptionLogging, exists_and_left]
  refine and_congr_right fun _ => ?_
  cases isinstance exc .resilienceKitError with
  | true => simp
  | false => simp

/-- Every envelope has the one header. -/
theorem exceptionLogging_headers {exc : PyExc} {reply : Reply}
    (h : (exceptionLogging errors).render exc = .ok reply) :
    reply.headers = [("content-type", "application/json")] := by
  simp only [exceptionLogging] at h
  split_ifs at h
  · simp only [respondKitError, bind, Except.bind, pure, Except.pure] at h
    cases hstr : errors.str exc with
    | error exc' =>
      rw [hstr] at h
      cases h
    | ok message =>
      cases hdumps : errors.dumps ⟨errors.errorCode exc, some message, errors.details exc⟩ with
      | error exc' =>
        rw [hstr] at h
        simp [hdumps] at h
      | ok body =>
        rw [hstr] at h
        simp only [hdumps] at h
        obtain rfl := Except.ok.inj h
        rfl
  · obtain rfl := Except.ok.inj h
    rfl

/-- **The error middlewares** in a stack of any height, alone and in either order among them, keep to the response
protocol exactly if the application does and none of them answers once a message was sent. -/
theorem error_stack_legal_iff (layers : List ErrorMiddleware) (app : App X Y) (env : Env (AsgiAnswer X Y))
    (method : Option String) (path : String) (headers : Headers) :
    Legal (sent (exec env [] (stack (layers.map (ErrorMiddleware.layer errors)) app
        ⟨"http", method, path, headers⟩)).1) ↔
      Legal (sent (exec env [] (app ⟨"http", method, path, headers⟩)).1) ∧
        AnswersFirst env (layers.map (ErrorMiddleware.layer errors)) app ⟨"http", method, path, headers⟩ :=
  stack_legal_iff _ rfl

/-- An application that fails after its start. -/
def failsMidway : App Unit Unit := fun _ => do
  send (.start 200 [])
  throw ⟨.runtimeError, 0⟩

/-- A server that takes every message, and exceptions without details. -/
def taking : (q : AsgiAsk Unit) → AsgiAnswer Unit Unit q
  | .receive => .ok (.request (some []) (some false))
  | .send _ => none
  | .newRequestId => "0123456789abcdef"
  | .aside _ => ()

def plainErrors : Errors Unit where
  errorCode _ := "RESILIENCE_KIT_ERROR"
  str _ := .ok ""
  details _ := []
  rateLimit _ := ⟨60, 0, 0, 1⟩
  dumps _ := .ok []

/-- The 200 is followed by a start of the generic 500. -/
theorem failsMidway_not_legal :
    Legal (sent (exec (fun _ => taking) [] (failsMidway ⟨"http", some "GET", "/", []⟩)).1) ∧
      (exec (fun _ => taking) [] (failsMidway ⟨"http", some "GET", "/", []⟩)).2 = .error ⟨.runtimeError, 0⟩ ∧
      ¬ Legal (sent (exec (fun _ => taking) [] (stack [ErrorMiddleware.layer plainErrors .exceptionLogging]
        failsMidway ⟨"http", some "GET", "/", []⟩)).1) := by
  refine ⟨legal_iff.mpr ⟨.streaming, rfl⟩, rfl, fun h => ?_⟩
  obtain ⟨p, hp⟩ := legal_iff.mp h
  cases hp

end ResilienceKit.Middleware

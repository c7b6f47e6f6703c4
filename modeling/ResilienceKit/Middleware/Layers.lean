import ResilienceKit.Audit.Sanitizers
import ResilienceKit.Middleware.Errors

/-!
# Middleware.Layers — the layers that change a request or a response

Security headers, request ids, the body limit and selective CORS.  A layer that adds headers is a relay
(`withHeaders`), the body limit is one that counts what `receive` hands over.
-/

namespace ResilienceKit.Middleware

open Program Code

variable {X Y : Type}

/-! ### Strings -/

/-- `str.lower` of a character, exact wherever the lower case is Latin-1. -/
def lowerChar (c : Char) : Char :=
  if c.isUpper || (0xC0 ≤ c.toNat && c.toNat ≤ 0xDE && c.toNat ≠ 0xD7) then Char.ofNat (c.toNat + 32)
  else
    -- the few characters beyond Latin-1 with a lower case in it
    match c.toNat with
    | 0x178 => Char.ofNat 0xFF
    | 0x1E9E => Char.ofNat 0xDF
    | 0x212A => 'k'
    | 0x212B => Char.ofNat 0xE5
    | _ => c

/-- `str.lower` -/
def lower (s : String) : String := String.ofList (s.toList.map lowerChar)

/-- Digits with single underscores between them. -/
def digits? : ℕ → Bool → List Char → Option ℕ
  | n, true, [] => some n
  | _, false, [] => none
  | n, digit, c :: cs =>
    if c.isDigit then digits? (10 * n + (c.toNat - '0'.toNat)) true cs
    else if c = '_' && digit then digits? n false cs
    else none

/-- White space of a byte string. -/
def isSpace (c : Char) : Bool := c.toNat = 32 || (9 ≤ c.toNat && c.toNat ≤ 13)

/-- `int` of a byte string; `none` is a `ValueError`. -/
def int? (s : String) : Option ℤ :=
  let cs := ((s.toList.dropWhile isSpace).reverse.dropWhile isSpace).reverse
  -- the interpreter refuses longer numbers
  if 4300 < cs.countP Char.isDigit then none
  else
    match cs with
    | '-' :: cs => (digits? 0 false cs).map fun n => -(n : ℤ)
    | '+' :: cs => (digits? 0 false cs).map fun n => (n : ℤ)
    | cs => (digits? 0 false cs).map fun n => (n : ℤ)

/-! ### Headers of a response -/

/-- A question in which the headers of a start go through `g`. -/
def onStart (g : Headers → Headers) : AsgiAsk X → AsgiAsk X
  | .send (.start status headers) => .send (.start status (g headers))
  | .send (.body body moreBody) => .send (.body body moreBody)
  | .receive => .receive
  | .newRequestId => .newRequestId
  | .aside x => .aside x

/-- Its answer is the answer to the question. -/
def onStartBack (g : Headers → Headers) :
    (q : AsgiAsk X) → AsgiAnswer X Y (onStart g q) → AsgiAnswer X Y q
  | .send (.start _ _), a => a
  | .send (.body _ _), a => a
  | .receive, a => a
  | .newRequestId, a => a
  | .aside _, a => a

/-- `send_with_headers`: the headers of every start go through `g`. -/
def withHeaders {α : Type} (g : Headers → Headers) (x : AsgiCode X Y α) : AsgiCode X Y α :=
  relay (fun _ q => onStart g q) (fun _ q a => (onStartBack g q a, ())) () x

/-! ### `SecurityHeadersMiddleware` -/

def DEFAULTS : List (String × String) :=
  [("X-Content-Type-Options", "nosniff"), ("X-Frame-Options", "DENY"),
    ("Referrer-Policy", "strict-origin-when-cross-origin"),
    ("Permissions-Policy", "geolocation=(), microphone=(), camera=()"),
    ("Strict-Transport-Security", "max-age=31536000; includeSubDomains")]

/-- `dict.update` -/
def update (merged items : List (String × String)) : List (String × String) :=
  items.foldl (fun out x => Audit.setItem out x.1 x.2) merged

/-- The headers of the constructor. -/
def securityHeaders (overrides extra : List (String × String)) : Headers :=
  (update (update DEFAULTS overrides) extra).map fun x => (lower x.1, x.2)

def securityHeadersMiddleware (headers : Headers) (app : App X Y) : App X Y := fun scope =>
  if scope.type ≠ "http" then app scope
  else withHeaders (· ++ headers) (app scope)

/-! ### `RequestIdMiddleware` -/

/-- `_headers_dict` -/
def headersDict (scope : Scope) : List (String × String) :=
  Audit.dictOf (scope.headers.map fun x => (lower x.1, x.2))

/-- `headers.get(name)`, where an empty value is as good as none. -/
def nonEmpty (headers : List (String × String)) (name : String) : Option String :=
  (headers.lookup name).filter (· ≠ "")

/-- `headers.get(name) or new_request_id()` -/
def requestIdOf (headers : List (String × String)) (name : String) : AsgiCode X Y String :=
  match nonEmpty headers name with
  | some rid => pure rid
  | none => perform AsgiAsk.newRequestId

def requestIdMiddleware (header correlationHeader : String) (app : App X Y) : App X Y := fun scope =>
  if scope.type ≠ "http" then app scope
  else do
    let headers := headersDict scope
    let rid ← requestIdOf headers (lower header)
    let cid := (nonEmpty headers (lower correlationHeader)).getD rid
    withHeaders (fun hs => hs ++ [(lower header, rid), (lower correlationHeader, cid)]) (app scope)

/-! ### `BodyLimitMiddleware` -/

/-- `_content_length` -/
def contentLength (scope : Scope) : Option ℤ :=
  match scope.headers.find? fun x => lowerBytes x.1 = "content-length" with
  | some x => int? x.2
  | none => none

/-- What `capped_receive` makes of an event after so many bytes, and how many bytes it has seen then. -/
def capped (max : ℤ) (seen : ℕ) : Except PyExc Event → Except PyExc Event × ℕ
  | .ok (.request body moreBody) =>
    let seen := seen + (body.getD []).length
    if max < seen then (.ok .disconnect, seen)
    else (.ok (.request body moreBody), seen)
  | .ok .disconnect => (.ok .disconnect, seen)
  | .ok (.other type items) => (.ok (.other type items), seen)
  | .error exc => (.error exc, seen)

def cappedBack (max : ℤ) (seen : ℕ) : (q : AsgiAsk X) → AsgiAnswer X Y q → AsgiAnswer X Y q × ℕ
  | .receive, a => capped max seen a
  | .send _, a => (a, seen)
  | .newRequestId, a => (a, seen)
  | .aside _, a => (a, seen)

/-- `_send_413` -/
def reply413 : Reply :=
  ⟨413, [("content-type", "text/plain; charset=utf-8")], "Payload Too Large".toUTF8.toList⟩

/-- The declared length is over the limit. -/
def tooLarge (max : ℤ) (scope : Scope) : Bool := (contentLength scope).any fun declared => max < declared

def bodyLimitMiddleware (max : ℤ) (app : App X Y) : App X Y := fun scope =>
  if scope.type ≠ "http" then app scope
  else if tooLarge max scope then reply413.send
  else relay (fun _ q => q) (cappedBack max) 0 (app scope)

/-! ### `SelectiveCorsMiddleware` -/

structure Cors where
  allowOrigins : List String
  pathPrefixes : List String
  allowMethods : List String := ["GET", "POST", "PUT", "PATCH", "DELETE", "OPTIONS"]
  allowHeaders : List String := ["Content-Type", "Authorization", "X-Request-Id"]
  maxAgeSeconds : ℤ := 600

namespace Cors

variable (c : Cors)

/-- `_matches` -/
def matchesPath (path : String) : Bool := c.pathPrefixes.any fun p => p.toList.isPrefixOf path.toList

/-- `_header(scope, b"origin")` -/
def origin? (scope : Scope) : Option String :=
  (scope.headers.find? fun x => lowerBytes x.1 = "origin").map Prod.snd

/-- `_is_origin_allowed` -/
def isOriginAllowed : Option String → Bool
  | none => false
  | some origin =>
    let allowed := c.allowOrigins.map lower
    "*" ∈ allowed || lower origin ∈ allowed

/-- The origin of the request, if it is allowed. -/
def allowed? (scope : Scope) : Option String :=
  if c.isOriginAllowed (origin? scope) then origin? scope else none

/-- `_respond_preflight` -/
def preflightReply : Option String → Reply
  | none => ⟨403, [("content-type", "text/plain")], "CORS origin denied".toUTF8.toList⟩
  | some origin =>
    ⟨204, [("access-control-allow-origin", origin),
      ("access-control-allow-methods", ", ".intercalate c.allowMethods),
      ("access-control-allow-headers", ", ".intercalate c.allowHeaders),
      ("access-control-max-age", toString c.maxAgeSeconds), ("vary", "Origin")], []⟩

/-- What `send_with_cors` adds to a start. -/
def added (scope : Scope) : Headers :=
  match c.allowed? scope with
  | none => []
  | some origin => [("access-control-allow-origin", origin), ("vary", "Origin")]

end Cors

def selectiveCorsMiddleware (c : Cors) (app : App X Y) : App X Y := fun scope =>
  if scope.type ≠ "http" || !c.matchesPath scope.path then app scope
  else if scope.method = some "OPTIONS" then (c.preflightReply (c.allowed? scope)).send
  else withHeaders (· ++ c.added scope) (app scope)

/-! ### How the relays act -/

section Relays

variable (g : Headers → Headers)

theorem withHeaders_start (status : ℕ) (headers : Headers) :
    withHeaders g (send (.start status headers) : AsgiCode X Y Unit) = send (.start status (g headers)) :=
  congrArg (Program.ask (AsgiAsk.send (.start status (g headers)))) (funext fun a => by cases a <;> rfl)

theorem withHeaders_body (body : List UInt8) (moreBody : Bool) :
    withHeaders g (send (.body body moreBody) : AsgiCode X Y Unit) = send (.body body moreBody) :=
  congrArg (Program.ask (AsgiAsk.send (.body body moreBody))) (funext fun a => by cases a <;> rfl)

/-- An answer under a relay is the answer with its headers changed. -/
theorem withHeaders_reply (reply : Reply) :
    withHeaders g (reply.send : AsgiCode X Y Unit) =
      Reply.send { reply with headers := g reply.headers } := by
  rw [Reply.send, withHeaders, relay_bind]
  exact congrArg₂ _ (withHeaders_start g _ _) (funext fun _ => withHeaders_body g _ _)

/-- A layer whose answers have their headers changed. -/
def Layer.headed (l : Layer) : Layer where
  catches := l.catches
  render exc := (l.render exc).map fun reply => { reply with headers := g reply.headers }

theorem Layer.headed_render (l : Layer) (exc : PyExc) : (l.headed g).render exc =
    (l.render exc).map fun reply => { reply with headers := g reply.headers } := rfl

theorem withHeaders_wrap (l : Layer) (app : App X Y) {scope : Scope} (hscope : scope.type = "http") :
    withHeaders g (l.wrap app scope) = (l.headed g).wrap (fun scope => withHeaders g (app scope)) scope := by
  rw [Layer.wrap, if_neg (not_not.mpr hscope), Layer.wrap, if_neg (not_not.mpr hscope), withHeaders,
    relay_tryElse]
  refine congrArg₂ _ (funext fun exc => ?_) rfl
  by_cases hc : l.catches exc = true
  · rw [if_pos hc, if_pos (show (l.headed g).catches exc = true from hc), relay_bind]
    cases hrender : l.render exc with
    | error exc' =>
      rw [l.headed_render, hrender]
      rfl
    | ok reply =>
      rw [l.headed_render, hrender]
      exact withHeaders_reply g reply
  · rw [if_neg hc, if_neg (show ¬ (l.headed g).catches exc = true from hc)]
    rfl

/-- A message in which the headers of a start go through `g`. -/
def Message.onStart : Message → Message
  | .start status headers => .start status (g headers)
  | .body data moreBody => .body data moreBody

theorem message?_onStart (q : AsgiAsk X) :
    (Middleware.onStart g q).message? = q.message?.map (Message.onStart g) := by
  cases q with
  | send message => cases message <;> rfl
  | receive => rfl
  | newRequestId => rfl
  | aside x => rfl

/-- A layer that adds headers sends what the application sends, with the headers added. -/
theorem sent_withHeaders {α : Type} {x : AsgiCode X Y α} {log : AsgiHistory X Y}
    {r : Except PyExc α} (hr : Runs (withHeaders g x) log r) :
    ∃ inner, Runs x inner r ∧ sent log = (sent inner).map (Message.onStart g) := by
  obtain ⟨inner, hruns, hseen⟩ := runs_of_relay (fun _ q => message?_onStart g q) hr
  exact ⟨inner, hruns, hseen.trans List.map_filterMap.symm⟩

end Relays

end ResilienceKit.Middleware

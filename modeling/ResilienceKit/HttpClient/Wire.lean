import ResilienceKit.Decorators.OneCall
import ResilienceKit.HttpClient.DnsPin
import ResilienceKit.HttpClient.Idempotency
import ResilienceKit.HttpClient.RawSend
import ResilienceKit.Lib.Layers

/-!
# HttpClient.Wire — a whole request, from its checks to what goes out

`AsyncAPIClient.request` in layers: the checks and the pin, `@resilient` in it, `_raw_send` in the place of the
wrapped function, `httpx` with the transport of the kit in the place of the audited call.  Each layer is that of its
own module; here is what they make together, `request_contract`.
-/

namespace ResilienceKit.HttpClient

open Program Code Audit Ssrf UrlParse
open Idempotency (Headers RequestArgs RequestSetting settled handed)

/-- `build` is what `httpx` makes of the arguments of one call of the client: the requests that it and the `auth` of
the call give to the transport in turn.  `foreign` is a call of an injected client.  `audit` and `wrapper` are what
`_raw_send` and `@resilient` ask besides. -/
inductive WireAsk (U A : Type)
  | setPins (pins : Pins)
  | resetPins (token : Option Pins)
  | getPins
  | build (headers : Option Headers)
  | connect (request : Request U)
  | foreign (headers : Option Headers)
  | audit (q : AuditAsk A)
  | wrapper (q : Ask)

/-- The token of `pinned_dns.set` has the old value. -/
@[reducible] def WireAnswer (U A : Type) : WireAsk U A → Type
  | .setPins _ => Option Pins
  | .resetPins _ => Unit
  | .getPins => Option Pins
  | .build _ => Outcome (Request U × List (Request U))
  | .connect _ => Outcome Response
  | .foreign _ => Outcome Response
  | .audit q => AuditAnswer A Response q
  | .wrapper q => Answer (Option Response) q

abbrev WireCode (U A α : Type) := Code (WireAsk U A) (WireAnswer U A) PyExc α

abbrev WireHistory (U A : Type) := List (Exchange (WireAnswer U A))

/-- The client with what it reads and what stands for `httpx`, `str.upper` and the rest of the platform. -/
structure Client (U A : Type) extends AsyncAPIClient where
  platform : Platform
  upper : String → String
  httpx : Httpx U
  settings : SSRFSettings
  checkSsrf : Bool := true
  info : ExcInfo
  text : String → A
  sending : RequestSetting

/-- `UnicodeError`, of the resolver and of IDNA. -/
def unicodeError : PyExc := ⟨⟨.UnicodeError, [.ValueError, .Exception, .BaseException]⟩, 0⟩

/-- What the guard raises. -/
def guardExc : GuardError → PyExc
  | .validationError _ _ => ⟨.validationError, 0⟩
  | .valueError => ⟨.valueError, 0⟩
  | .unicodeError => unicodeError

/-- How a program that may raise ends, as a question is answered. -/
def ending {Q : Type} {A : Q → Type} {V : Type} (x : Code Q A PyExc V) : Program Q A (Outcome V) := do
  match ← x.run with
  | .ok v => return .returned v
  | .error exc => return .raised exc

namespace Client

variable {U A : Type} (c : Client U A)

/-- `PinnedHTTPTransport.handle_async_request` -/
def handle (request : Request U) : WireCode U A Response := do
  let pins ← perform WireAsk.getPins
  match handleAsyncRequest c.platform c.httpx pins request with
  -- the host of the request is no IDNA name
  | .error _ => throw unicodeError
  | .ok request => do
    let o ← perform (WireAsk.connect request)
    Code.ofExcept (Outcome.result o)

/-- The requests of one call, in turn; the last response is that of the call. -/
def sendAll : Request U → List (Request U) → WireCode U A Response
  | request, [] => c.handle request
  | request, next :: rest => do
    let _ ← c.handle request
    sendAll next rest

/-- `client.request` of `httpx` -/
def clientRequest (headers : Option Headers) : WireCode U A Response :=
  if c.injected then do
    let o ← perform (WireAsk.foreign (handed headers))
    Code.ofExcept (Outcome.result o)
  else do
    let built ← perform (WireAsk.build (handed headers))
    let (first, rest) ← Code.ofExcept (Outcome.result built)
    c.sendAll first rest

/-- `httpx` in the place of the audited call. -/
def atCall (headers : Option Headers) :
    (q : AuditAsk A) → Program (WireAsk U A) (WireAnswer U A) (AuditAnswer A Response q)
  | .invoke => ending (c.clientRequest headers)
  | q => .ask (WireAsk.audit q) .done

/-- `_raw_send` -/
def rawSendCode (headers : Option Headers) (method url : String) : WireCode U A (Option Response) := do
  let response ← Code.interpret (c.atCall headers)
    (c.rawSend c.info c.text method url (requestHost c.platform url))
  return some response

/-- `_raw_send` in the place of the wrapped function. -/
def atAttempt (headers : Option Headers) (method url : String) :
    (q : Ask) → Program (WireAsk U A) (WireAnswer U A) (Answer (Option Response) q)
  | .invoke => ending (c.rawSendCode headers method url)
  | q => .ask (WireAsk.wrapper q) .done

/-- `self._send(**call_kwargs)` -/
def sendCode (headers : Option Headers) (method url : String) : WireCode U A (Option Response) :=
  Code.interpret (c.atAttempt headers method url)
    (resilient c.sending.breakerCfg c.sending.policy "_raw_send" .async Py.invoke)

/-- The checks: the addresses to pin. -/
def checked (url : String) : Except GuardError (List String) := do
  let resolvedIps ← if c.checkSsrf then resolveAndValidate c.platform c.settings url true else .ok []
  assertAllowedUrl c.platform c.settings url
  return resolvedIps

/-- The headers of every attempt. -/
def headersOf (args : RequestArgs) : Option Headers := settled c.platform.lower c.upper c.sending args

/-- `request` -/
def request (url : String) (args : RequestArgs) : WireCode U A (Option Response) :=
  match c.checked url with
  | .error e => throw (guardExc e)
  | .ok resolvedIps =>
    let host := requestHost c.platform url
    if resolvedIps ≠ [] ∧ host ≠ "" then do
      let token ← perform (WireAsk.setPins (pinned c.platform [(host, resolvedIps)]))
      let ended ← attempt (c.sendCode (c.headersOf args) args.method url)
      perform (WireAsk.resetPins token)
      Code.ofExcept ended
    else c.sendCode (c.headersOf args) args.method url

end Client

/-! ### What is seen of a request -/

variable {U A : Type}

/-- The audited call. -/
def isCall : AuditAsk A → Bool
  | .invoke => true
  | _ => false

/-- What a question makes of the value of `pinned_dns`. -/
def WireAsk.pinsAfter (pins : Option Pins) : WireAsk U A → Option Pins
  | .setPins pins => some pins
  | .resetPins token => token
  | _ => pins

/-- The value of `pinned_dns` in the task. -/
def currentPins (start : Option Pins) (h : WireHistory U A) : Option Pins :=
  h.foldl (fun pins x => x.1.pinsAfter pins) start

def WireAsk.built? : WireAsk U A → Option (Option Headers)
  | .build headers => some headers
  | .foreign headers => some headers
  | _ => none

def WireAsk.isBuilt (q : WireAsk U A) : Bool := q.built?.isSome

def WireAsk.connected? : WireAsk U A → Option (Request U)
  | .connect request => some request
  | _ => none

def WireAsk.record? : WireAsk U A → Option (Record A)
  | .audit q => q.record?
  | _ => none

def WireAsk.verdict? : WireAsk U A → Option Verdict
  | .wrapper q => recordOf q
  | _ => none

/-- How a connection, or the call of an injected client, ended. -/
def WireAsk.response? : (q : WireAsk U A) → WireAnswer U A q → Option (Outcome Response)
  | .connect _, o => some o
  | .foreign _, o => some o
  | _, _ => none

/-- The surroundings of a request: nobody else touches the pins of the task, `httpx` builds requests to the host of
the URL, and the audit side does no harm. -/
structure Around (c : Client U A) (url : String) (start : Option Pins) (env : Env (WireAnswer U A)) : Prop where
  getPins : ∀ h, env h .getPins = currentPins start h
  setPins : ∀ h pins, env h (.setPins pins) = currentPins start h
  build : ∀ h headers first rest, env h (.build headers) = .returned (first, rest) →
    ∃ u, c.httpx.url url = some u ∧
      ∀ request ∈ first :: rest, c.httpx.host request.url = c.httpx.host u ∧ request.sniHostname = none
  audit : ∀ h (q : AuditAsk A), Harmless (V := Response) ⟨q, env h (.audit q)⟩

theorem currentPins_concat (start : Option Pins) (h : WireHistory U A) (x : Exchange (WireAnswer U A)) :
    currentPins start (h ++ [x]) = x.1.pinsAfter (currentPins start h) := by
  rw [currentPins, List.foldl_append]
  rfl

/-- A question between the pin and its end: it leaves the pins alone, and gives `httpx` these headers. -/
structure Between (headers : Option Headers) (q : WireAsk U A) : Prop where
  setPins : ∀ pins, q ≠ .setPins pins
  resetPins : ∀ token, q ≠ .resetPins token
  built : ∀ hs, q.built? = some hs → hs = headers

theorem Between.currentPins {headers : Option Headers} {q : WireAsk U A} (hq : Between headers q)
    (start : Option Pins) (h : WireHistory U A) (a : WireAnswer U A q) :
    currentPins start (h ++ [⟨q, a⟩]) = currentPins start h := by
  rw [currentPins_concat]
  cases q with
  | setPins pins => exact absurd rfl (hq.setPins pins)
  | resetPins token => exact absurd rfl (hq.resetPins token)
  | _ => rfl

/-- Neither the pins nor the headers are concerned. -/
theorem Between.aside {q : WireAsk U A} (headers : Option Headers) (hset : ∀ pins, q ≠ .setPins pins)
    (hreset : ∀ token, q ≠ .resetPins token) (hbuilt : q.built? = none) : Between headers q :=
  ⟨hset, hreset, fun hs h => by rw [hbuilt] at h; cases h⟩

theorem Between.connect (headers : Option Headers) (request : Request U) :
    Between headers (WireAsk.connect request : WireAsk U A) := .aside headers (by simp) (by simp) rfl

theorem Between.build (headers : Option Headers) : Between headers (WireAsk.build headers : WireAsk U A) :=
  ⟨by simp, by simp, fun _ h => (Option.some_inj.mp h).symm⟩

theorem Between.foreign (headers : Option Headers) : Between headers (WireAsk.foreign headers : WireAsk U A) :=
  ⟨by simp, by simp, fun _ h => (Option.some_inj.mp h).symm⟩

/-- A question of the transport. -/
def Connecting (q : WireAsk U A) : Prop := q = .getPins ∨ ∃ request, q = .connect request

/-- A question of `httpx` with the transport of the kit, or of an injected client. -/
def Departing (headers : Option Headers) (q : WireAsk U A) : Prop :=
  Connecting q ∨ q = .build headers ∨ q = .foreign headers

theorem Departing.between {headers : Option Headers} {q : WireAsk U A} (hq : Departing headers q) :
    Between headers q := by
  rcases hq with (rfl | ⟨request, rfl⟩) | rfl | rfl
  · exact .aside headers (by simp) (by simp) rfl
  · exact .connect headers request
  · exact .build headers
  · exact .foreign headers

/-- It hands over no record, and tells the breaker nothing. -/
theorem Departing.quiet {headers : Option Headers} {q : WireAsk U A} (hq : Departing headers q) :
    q.record? = none ∧ q.verdict? = none := by
  rcases hq with (rfl | ⟨request, rfl⟩) | rfl | rfl <;> exact ⟨rfl, rfl⟩

theorem asks_ending {P : WireAsk U A → Prop} {V : Type} {x : WireCode U A V} (hx : Asks P x) :
    (ending x).Asks P := by
  refine Program.Asks.bind hx fun r => ?_
  cases r <;> trivial

namespace Client

variable (c : Client U A) (headers : Option Headers)

theorem asks_handle (request : Request U) : Asks Connecting (c.handle request) := by
  refine .bind (.perform (.inl rfl)) fun pins => ?_
  cases handleAsyncRequest c.platform c.httpx pins request with
  | error e => exact .throw _
  | ok request => exact .bind (.perform (.inr ⟨request, rfl⟩)) fun o => .ofExcept _

theorem asks_sendAll (rest : List (Request U)) (request : Request U) :
    Asks Connecting (c.sendAll request rest) := by
  induction rest generalizing request with
  | nil => exact c.asks_handle request
  | cons next rest ih => exact .bind (c.asks_handle request) fun _ => ih next

theorem asks_clientRequest : Asks (Departing (handed headers)) (c.clientRequest headers) := by
  unfold clientRequest
  split_ifs
  · exact .bind (.perform (.inr (.inr rfl))) fun o => .ofExcept _
  · exact .bind (.perform (.inr (.inl rfl))) fun built => .bind (.ofExcept _) fun requests =>
      (c.asks_sendAll _ _).mono fun q hq => .inl hq

theorem asks_atCall (q : AuditAsk A) : (c.atCall headers q).Asks (Between (handed headers)) := by
  cases q with
  | invoke => exact asks_ending ((c.asks_clientRequest headers).mono fun q hq => hq.between)
  | _ => exact ⟨.aside _ (by simp) (by simp) rfl, fun _ => trivial⟩

theorem asks_rawSendCode (method url : String) :
    Asks (Between (handed headers)) (c.rawSendCode headers method url) :=
  .bind (.interpret (c.asks_atCall headers) _) fun _ => .pure _

theorem asks_atAttempt (method url : String) (q : Ask) :
    (c.atAttempt headers method url q).Asks (Between (handed headers)) := by
  cases q with
  | invoke => exact asks_ending (c.asks_rawSendCode headers method url)
  | _ => exact ⟨.aside _ (by simp) (by simp) rfl, fun _ => trivial⟩

/-- Between the pin and its end nothing is asked that touches the pins, and `httpx` gets one set of headers. -/
theorem asks_sendCode (method url : String) : Asks (Between (handed headers)) (c.sendCode headers method url) :=
  .interpret (c.asks_atAttempt headers method url) _

/-! ### Where the requests go -/

/-- While these pins are set, what goes out is `good`. -/
structure Steered (start : Option Pins) (pins : Pins) (good : Request U → Prop) (h : WireHistory U A) : Prop where
  pins : currentPins start h = some pins
  good : ∀ request ∈ seen WireAsk.connected? h, good request

variable {start : Option Pins} {pins : Pins} {good : Request U → Prop} {h : WireHistory U A}
  {env : Env (WireAnswer U A)}

theorem Steered.aside (hs : Steered start pins good h) {q : WireAsk U A} (hq : Between headers q)
    (hnone : q.connected? = none) (a : WireAnswer U A q) : Steered start pins good (h ++ [⟨q, a⟩]) where
  pins := (hq.currentPins start h a).trans hs.pins
  good request hr := by
    rw [seen_append, seen_cons, seen_nil, hnone, Option.toList_none, List.append_nil, List.append_nil] at hr
    exact hs.good request hr

theorem Steered.connect (hs : Steered start pins good h) {request : Request U} (hgood : good request)
    (o : Outcome Response) : Steered start pins good (h ++ [⟨.connect request, o⟩]) where
  pins := ((Between.connect none request).currentPins start h o).trans hs.pins
  good request' hr := by
    rw [seen_append] at hr
    rcases List.mem_append.mp hr with hr | hr
    · exact hs.good request' hr
    · obtain rfl : request' = request := by simpa [WireAsk.connected?] using hr
      exact hgood

/-- What the transport makes of a request to the host of `u` is `good`. -/
def Routes (c : Client U A) (pins : Pins) (u : U) (good : Request U → Prop) : Prop :=
  ∀ request out : Request U, c.httpx.host request.url = c.httpx.host u → request.sniHostname = none →
    handleAsyncRequest c.platform c.httpx (some pins) request = .ok out → good out

variable {c} {url : String}

theorem keeps_handle (ha : Around c url start env) {u : U} (hroute : Routes c pins u good) {request : Request U}
    (hhost : c.httpx.host request.url = c.httpx.host u) (hsni : request.sniHostname = none) :
    Keeps env (Steered start pins good) (c.handle request) := by
  intro h hs
  have hget : env h .getPins = some pins := (ha.getPins h).trans hs.pins
  have h₁ : Steered start pins good (h ++ [⟨.getPins, env h .getPins⟩]) :=
    hs.aside none (.aside none (by simp) (by simp) rfl) rfl _
  rw [handle, exec_bind, exec_perform]
  dsimp only
  cases hout : handleAsyncRequest c.platform c.httpx (env h .getPins) request with
  | error e => exact h₁
  | ok out =>
    rw [hget] at hout
    rw [exec_bind, exec_perform]
    dsimp only
    rw [exec_ofExcept]
    exact h₁.connect (hroute request out hhost hsni hout) _

theorem keeps_sendAll (ha : Around c url start env) {u : U} (hroute : Routes c pins u good) (rest : List (Request U))
    (request : Request U) (hto : ∀ r ∈ request :: rest, c.httpx.host r.url = c.httpx.host u ∧ r.sniHostname = none) :
    Keeps env (Steered start pins good) (c.sendAll request rest) := by
  have hfirst := hto request List.mem_cons_self
  induction rest generalizing request with
  | nil => exact keeps_handle ha hroute hfirst.1 hfirst.2
  | cons next rest ih =>
    have hrest : ∀ r ∈ next :: rest, _ := fun r hr => hto r (List.mem_cons_of_mem _ hr)
    exact .bind (keeps_handle ha hroute hfirst.1 hfirst.2) fun _ => ih next hrest (hrest next List.mem_cons_self)

/-- Where the transport is the kit's, what `httpx` sends is steered. -/
theorem keeps_clientRequest (ha : Around c url start env) (hroute : ∀ u, c.httpx.url url = some u →
    Routes c pins u good) : Keeps env (Steered start pins good) (c.clientRequest headers) := by
  intro h hs
  unfold clientRequest
  split_ifs
  · rw [exec_bind, exec_perform]
    dsimp only
    rw [exec_ofExcept]
    exact hs.aside _ (.foreign _) rfl _
  · have h₁ : Steered start pins good (h ++ [⟨.build (handed headers), env h (.build (handed headers))⟩]) :=
      hs.aside _ (.build _) rfl _
    rw [exec_bind, exec_perform]
    dsimp only
    rw [exec_bind, exec_ofExcept]
    cases hbuilt : env h (.build (handed headers)) with
    | raised exc =>
      rw [hbuilt] at h₁
      exact h₁
    | returned requests =>
      rw [hbuilt] at h₁
      obtain ⟨u, hu, hto⟩ := ha.build h _ requests.1 requests.2 hbuilt
      exact keeps_sendAll ha (hroute u hu) requests.2 requests.1 hto _ h₁

theorem keeps_ending {I : WireHistory U A → Prop} {V : Type} {x : WireCode U A V} (hx : Keeps env I x) :
    (ending x).Keeps env I := by
  refine Program.Keeps.bind hx fun r => ?_
  cases r <;> exact .done _

theorem keeps_sendCode (ha : Around c url start env) (hroute : ∀ u, c.httpx.url url = some u →
    Routes c pins u good) (method : String) :
    Keeps env (Steered start pins good) (c.sendCode headers method url) := by
  have hcall : ∀ q, (c.atCall headers q).Keeps env (Steered start pins good) := by
    intro q
    cases q with
    | invoke => exact keeps_ending (keeps_clientRequest headers ha hroute)
    | _ => exact fun h hs => hs.aside none (.aside none (by simp) (by simp) rfl) rfl _
  refine .interpret (fun q => ?_) _
  cases q with
  | invoke => exact keeps_ending (.bind (.interpret hcall _) fun _ => .pure _)
  | _ => exact fun h hs => hs.aside none (.aside none (by simp) (by simp) rfl) rfl _

/-! ### How much goes out -/

/-- A call of the client gives `httpx` one set of headers, once. -/
theorem atMost_clientRequest : AtMost WireAsk.isBuilt 1 (c.clientRequest headers) := by
  have hrest : ∀ x : WireCode U A Response, Asks Connecting x → AtMost WireAsk.isBuilt 0 x := by
    refine fun x hx => .ofAsks (hx.mono ?_)
    rintro q (rfl | ⟨request, rfl⟩) <;> rfl
  unfold clientRequest
  split_ifs
  · exact .bind (.perform _) fun o => hrest _ (.ofExcept _)
  · exact .bind (.perform _) fun built => hrest _ (.bind (.ofExcept _) fun requests => c.asks_sendAll _ _)

theorem asks_submitToDispatcher (call : OutboundCall A) :
    Asks (fun q : AuditAsk A => isCall q = false)
      (AsyncAPIClient.submitToDispatcher call : AuditCode A Response Unit) :=
  .bind (.perform rfl) fun _ => .bind (.perform rfl) fun _ => .bind (.perform rfl) fun _ =>
    .bind (.perform rfl) fun _ => .bind (.ofExcept _) fun _ => .bind (.perform rfl) fun _ => .ofExcept _

theorem asks_emitAudit (call : OutboundCall A) :
    Asks (fun q : AuditAsk A => isCall q = false) (c.emitAudit call) := by
  have hlogged : ∀ x : AuditCode A Response Unit, Asks (fun q : AuditAsk A => isCall q = false) x →
      Asks (fun q : AuditAsk A => isCall q = false) (Py.logged x) := by
    refine fun x hx => .tryElse hx (fun exc => ?_) fun _ => .pure _
    split_ifs
    · exact .pure _
    · exact .throw exc
  unfold AsyncAPIClient.emitAudit
  split_ifs
  · exact hlogged _ (.bind (.perform rfl) fun _ => .ofExcept _)
  · exact hlogged _ (asks_submitToDispatcher call)

/-- An attempt calls the client at most once. -/
theorem atMost_rawSend (method url : String) :
    AtMost isCall 1 (c.rawSend c.info c.text method url (requestHost c.platform url)) := by
  have hquiet : ∀ {α : Type} {x : AuditCode A Response α}, Asks (fun q : AuditAsk A => isCall q = false) x →
      AtMost isCall 0 x := fun hx => .ofAsks hx
  have henter : AtMost isCall 0 (c.enter : AuditCode A Response Unit) := by
    refine hquiet ?_
    unfold AsyncAPIClient.enter
    split_ifs
    · exact .pure _
    · exact .bind (.perform rfl) fun _ => .ofExcept _
  have hexit : AtMost isCall 0 (c.exit : AuditCode A Response Unit) := by
    refine hquiet ?_
    unfold AsyncAPIClient.exit
    split_ifs
    · exact .pure _
    · exact .bind (.perform rfl) fun _ => .ofExcept _
  have hsend : AtMost isCall 1 (c.send : AuditCode A Response _) := by
    refine AtMost.bind (n := 0) (m := 1) henter.attempt fun entered => ?_
    cases entered with
    | error exc => exact (hquiet (.pure _)).mono (Nat.zero_le 1)
    | ok _ =>
      have hcall : AtMost isCall 1 (AsyncAPIClient.request : AuditCode A Response Response) :=
        .bind (m := 0) (.perform _) fun _ => hquiet (.ofExcept _)
      exact .bind (m := 0) hcall.attempt fun _ => .bind (n := 0) (m := 0) hexit.attempt fun _ => hquiet (.pure _)
  refine .bind (n := 0) (m := 1) (hquiet (.perform rfl)) fun _ => .bind (m := 0) hsend fun _ => ?_
  refine .bind (n := 0) (m := 0) (hquiet (.perform rfl)) fun _ => ?_
  exact .bind (n := 0) (m := 0) (hquiet (c.asks_emitAudit _)) fun _ => hquiet (.ofExcept _)

theorem run_ending {Q : Type} {A : Q → Type} {V : Type} (env : Env A) (h : List (Exchange A))
    (x : Code Q A PyExc V) : (Program.run env h (ending x)).1 = (exec env h x).1 := by
  rw [ending, run_bind, exec]
  cases (Program.run env h x.run).2 <;> rfl

/-- A call that is put in the place of the audited call: what it gives `httpx`, and no record. -/
theorem asked_atCall (q : AuditAsk A) (g : WireHistory U A) :
    asked WireAsk.isBuilt (Program.run env g (c.atCall headers q)).1 ≤
      asked WireAsk.isBuilt g + if isCall q then 1 else 0 := by
  cases q with
  | invoke =>
    have hone := c.atMost_clientRequest headers env g
    rwa [← run_ending] at hone
  | _ => simp [atCall, Program.run, WireAsk.isBuilt, WireAsk.built?, isCall]

theorem seen_atCall (q : AuditAsk A) (g : WireHistory U A) :
    seen WireAsk.record? (Program.run env g (c.atCall headers q)).1 =
      seen WireAsk.record? g ++ (q.record?).toList := by
  cases q with
  | invoke =>
    have hnone : seen WireAsk.record? (exec env g (c.clientRequest headers)).1 = seen WireAsk.record? g :=
      ((c.asks_clientRequest headers).mono fun q hq => hq.quiet.1).seen_eq env g
    rw [← run_ending] at hnone
    exact hnone.trans (List.append_nil _).symm
  | _ => simp [atCall, Program.run, WireAsk.record?]

/-- The audit side does no harm to an attempt. -/
theorem harmless_rawSend (ha : Around c url start env) (g : WireHistory U A) (method : String) :
    ∀ x ∈ (exec (outside (c.atCall headers) env g) []
      (c.rawSend c.info c.text method url (requestHost c.platform url))).1, Harmless x := by
  refine (asks_of_forall (P := fun _ => True) (fun _ => trivial) _).invariant _
    (I := fun h => ∀ x ∈ h, Harmless x) (fun h q _ hI x hx => ?_) (by simp)
  rcases List.mem_append.mp hx with hx | hx
  · exact hI x hx
  · obtain rfl := List.mem_singleton.mp hx
    cases q with
    | invoke => trivial
    | _ => exact ha.audit _ _

/-- **An attempt**: one record, and one call of `httpx` at most. -/
theorem exec_rawSendCode (ha : Around c url start env) (g : WireHistory U A) (method : String) :
    asked WireAsk.isBuilt (exec env g (c.rawSendCode headers method url)).1 ≤ asked WireAsk.isBuilt g + 1 ∧
      ∃ record, seen WireAsk.record? (exec env g (c.rawSendCode headers method url)).1 =
        seen WireAsk.record? g ++ [record] := by
  have hfst : (exec env g (c.rawSendCode headers method url)).1 =
      inside (c.atCall headers) env g (exec (outside (c.atCall headers) env g) []
        (c.rawSend c.info c.text method url (requestHost c.platform url))).1 := by
    rw [rawSendCode, exec_bind, exec_interpret]
    cases (exec (outside (c.atCall headers) env g) []
      (c.rawSend c.info c.text method url (requestHost c.platform url))).2 <;> rfl
  have hcalls := c.atMost_rawSend method url (outside (c.atCall headers) env g) []
  have hharm := harmless_rawSend headers ha g method
  obtain ⟨log, u, call, hrun, hhands, -⟩ :=
    c.exec_rawSend c.info c.text (outside (c.atCall headers) env g) method url (requestHost c.platform url)
  rw [hfst]
  rw [hrun] at hcalls hharm ⊢
  constructor
  · refine (asked_inside_le (c.asked_atCall headers) log).trans ?_
    rw [asked_nil] at hcalls
    exact Nat.add_le_add_left hcalls _
  · cases hhands with
    | @done record harmless one holds =>
      refine ⟨record, ?_⟩
      rw [seen_inside (c.seen_atCall headers) log, one]
    | lost harm none =>
      obtain ⟨x, hx, hn⟩ := harm
      exact absurd (hharm x hx) hn
    | broken harm one holds exits =>
      obtain ⟨x, hx, hn⟩ := harm
      exact absurd (hharm x hx) hn

/-- A function that is put in the place of the wrapped one: one record, and one call of `httpx` at most. -/
theorem asked_atAttempt (ha : Around c url start env) (method : String) (q : Ask) (g : WireHistory U A) :
    asked WireAsk.isBuilt (Program.run env g (c.atAttempt headers method url q)).1 ≤
        asked WireAsk.isBuilt g + (if q.isInvoke then 1 else 0) ∧
      asked (fun q => (WireAsk.record? q).isSome) (Program.run env g (c.atAttempt headers method url q)).1 =
        asked (fun q => (WireAsk.record? q).isSome) g + if q.isInvoke then 1 else 0 := by
  cases q with
  | invoke =>
    obtain ⟨hbuilt, record, hrec⟩ := c.exec_rawSendCode headers ha g method
    rw [← run_ending] at hbuilt hrec
    refine ⟨hbuilt, ?_⟩
    rw [← length_seen, ← length_seen]
    exact (congrArg List.length hrec).trans (by simp)
  | _ => simp [atAttempt, Program.run, WireAsk.isBuilt, WireAsk.built?, WireAsk.record?]

/-- The attempts do not talk to the breaker. -/
theorem seen_atAttempt (method : String) (q : Ask) (g : WireHistory U A) :
    seen WireAsk.verdict? (Program.run env g (c.atAttempt headers method url q)).1 =
      seen WireAsk.verdict? g ++ (recordOf q).toList := by
  cases q with
  | invoke =>
    have hcode : Asks (fun q => WireAsk.verdict? q = none) (c.rawSendCode headers method url) := by
      refine .bind (.interpret (fun q => ?_) _) fun _ => .pure _
      cases q with
      | invoke => exact asks_ending ((c.asks_clientRequest headers).mono fun q hq => hq.quiet.2)
      | _ => exact ⟨rfl, fun _ => trivial⟩
    have hnone := hcode.seen_eq env g
    rw [← run_ending] at hnone
    exact hnone.trans (List.append_nil _).symm
  | _ => simp [atAttempt, Program.run, WireAsk.verdict?]

/-! ### What is returned -/

section Returned

variable {headers}

theorem run_ending_returned {Q : Type} {A : Q → Type} {V : Type} {env : Env A} {h : List (Exchange A)}
    {x : Code Q A PyExc V} {v : V} (hv : (Program.run env h (ending x)).2 = .returned v) :
    exec env h x = ((Program.run env h (ending x)).1, .ok v) := by
  rw [run_ending]
  refine Prod.ext rfl ?_
  rw [ending, run_bind] at hv
  show (Program.run env h x.run).2 = .ok v
  cases hr : (Program.run env h x.run).2 with
  | error exc =>
    rw [hr] at hv
    cases hv
  | ok v' =>
    rw [hr] at hv
    cases hv
    rfl

theorem lastSeen_handle {request : Request U} {g h : WireHistory U A} {response : Response}
    (hexec : exec env g (c.handle request) = (h, .ok response)) :
    lastSeen WireAsk.response? h = some (.returned response) := by
  rw [handle, exec_bind, exec_perform] at hexec
  dsimp only at hexec
  cases hout : handleAsyncRequest c.platform c.httpx (env g .getPins) request with
  | error e =>
    rw [hout] at hexec
    cases congrArg Prod.snd hexec
  | ok out =>
    rw [hout, exec_bind, exec_perform] at hexec
    dsimp only at hexec
    rw [exec_ofExcept] at hexec
    cases ho : env (g ++ [⟨.getPins, env g .getPins⟩]) (.connect out) with
    | raised exc =>
      rw [ho] at hexec
      cases congrArg Prod.snd hexec
    | returned response' =>
      rw [ho] at hexec
      cases hexec
      rw [lastSeen_concat]
      rfl

theorem lastSeen_sendAll (rest : List (Request U)) {request : Request U} {g h : WireHistory U A} {response : Response}
    (hexec : exec env g (c.sendAll request rest) = (h, .ok response)) :
    lastSeen WireAsk.response? h = some (.returned response) := by
  induction rest generalizing request g with
  | nil => exact lastSeen_handle hexec
  | cons next rest ih =>
    rw [sendAll] at hexec
    rcases hfirst : exec env g (c.handle request) with ⟨g', exc | first⟩
    · rw [exec_bind_error hfirst] at hexec
      cases congrArg Prod.snd hexec
    · rw [exec_bind_ok hfirst] at hexec
      exact ih hexec

/-- The response of the client is the last one that came in. -/
theorem lastSeen_clientRequest {g h : WireHistory U A} {response : Response}
    (hexec : exec env g (c.clientRequest headers) = (h, .ok response)) :
    lastSeen WireAsk.response? h = some (.returned response) := by
  unfold clientRequest at hexec
  split_ifs at hexec
  · rw [exec_bind, exec_perform] at hexec
    dsimp only at hexec
    rw [exec_ofExcept] at hexec
    cases ho : env g (.foreign (handed headers)) with
    | raised exc =>
      rw [ho] at hexec
      cases congrArg Prod.snd hexec
    | returned response' =>
      rw [ho] at hexec
      cases hexec
      rw [lastSeen_concat]
      rfl
  · rw [exec_bind, exec_perform] at hexec
    dsimp only at hexec
    cases ho : env g (.build (handed headers)) with
    | raised exc =>
      rw [ho] at hexec
      cases congrArg Prod.snd hexec
    | returned requests =>
      rw [ho] at hexec
      exact lastSeen_sendAll requests.2 hexec

/-- What the audit side is asked does not count as a response. -/
theorem lastSeen_quiet {α : Type} {x : AuditCode A Response α} (hx : Asks (fun q : AuditAsk A => isCall q = false) x)
    (env : Env (AuditAnswer A Response)) (h : AuditHistory A Response) :
    lastSeen AuditAsk.outcome? (exec env h x).1 = lastSeen AuditAsk.outcome? h := by
  refine (hx.mono fun q hq a => ?_).lastSeen_eq env h
  cases q <;> first | rfl | cases hq

/-- The response of an attempt is that of its call. -/
theorem lastSeen_rawSend {method : String} {env : Env (AuditAnswer A Response)} {h h' : AuditHistory A Response}
    {response : Response}
    (hexec : exec env h (c.rawSend c.info c.text method url (requestHost c.platform url)) = (h', .ok response)) :
    response.statusCode < 500 ∧ lastSeen AuditAsk.outcome? h' = some (.returned response) := by
  rw [AsyncAPIClient.rawSend, exec_bind, exec_perform] at hexec
  dsimp only at hexec
  rcases hsend : exec env (h ++ [⟨.monotonic, env h .monotonic⟩]) (c.send : AuditCode A Response _) with
    ⟨h₁, exc | ⟨status, ended⟩⟩
  · rw [exec_bind_error hsend] at hexec
    cases congrArg Prod.snd hexec
  · rw [exec_bind_ok hsend, exec_bind, exec_perform] at hexec
    dsimp only at hexec
    rw [exec_bind] at hexec
    have hquiet := fun call =>
      lastSeen_quiet (c.asks_emitAudit call) env (h₁ ++ [⟨.monotonic, env h₁ .monotonic⟩])
    split at hexec
    next h₂ _ haudit =>
      rw [exec_ofExcept] at hexec
      obtain ⟨rfl, rfl⟩ := Prod.mk.inj hexec
      obtain ⟨hstatus, hlast⟩ := AsyncAPIClient.send_ok hsend
      have hsame := congrArg (fun r => lastSeen AuditAsk.outcome? r.1) haudit
      refine ⟨hstatus, hsame.symm.trans ((hquiet _).trans ?_)⟩
      rw [lastSeen_concat]
      exact hlast
    next => cases congrArg Prod.snd hexec

/-- What an attempt returns is the last response that came in, and no server error. -/
theorem lastSeen_rawSendCode {method : String} {g h : WireHistory U A} {v : Option Response}
    (hexec : exec env g (c.rawSendCode headers method url) = (h, .ok v)) : ∃ response, v = some response ∧
      response.statusCode < 500 ∧ lastSeen WireAsk.response? h = some (.returned response) := by
  rw [rawSendCode, exec_bind, exec_interpret] at hexec
  rcases hsend : exec (outside (c.atCall headers) env g) []
    (c.rawSend c.info c.text method url (requestHost c.platform url)) with ⟨log, exc | response⟩
  · rw [hsend] at hexec
    cases congrArg Prod.snd hexec
  · rw [hsend] at hexec
    cases hexec
    obtain ⟨hstatus, hlast⟩ := lastSeen_rawSend hsend
    refine ⟨response, rfl, hstatus, ?_⟩
    have hrelated := related_inside (c.atCall headers) env g
      (R := fun log h => ∀ r, lastSeen AuditAsk.outcome? log = some (.returned r) →
        lastSeen WireAsk.response? h = some (.returned r)) (by simp) (fun log h q hR r hr => ?_)
      (c.rawSend c.info c.text method url (requestHost c.platform url)).run
    · rw [exec] at hsend
      rw [hsend] at hrelated
      exact hrelated response hlast
    · cases q with
      | invoke =>
        rw [lastSeen_concat] at hr
        exact lastSeen_clientRequest (run_ending_returned (Option.some.inj hr))
      | _ =>
        rw [lastSeen_concat] at hr
        exact (lastSeen_concat _ h _ _).trans (hR r hr)

/-- What the wrapper returns, too. -/
theorem lastSeen_sendCode (hmax : 1 ≤ c.sending.policy.maxAttempts) {method : String} {g h : WireHistory U A}
    {v : Option Response} (hexec : exec env g (c.sendCode headers method url) = (h, .ok v)) : ∃ response,
      v = some response ∧ response.statusCode < 500 ∧
        lastSeen WireAsk.response? h = some (.returned response) := by
  rw [sendCode, exec_interpret] at hexec
  rcases hsend : exec (outside (c.atAttempt headers method url) env g) []
    (resilient c.sending.breakerCfg c.sending.policy "_raw_send" .async Py.invoke) with ⟨log, x⟩
  rw [hsend] at hexec
  cases hexec
  have hlast := lastSeen_resilient c.sending.breakerCfg "_raw_send" .async hmax hsend
  have hrelated := related_inside (c.atAttempt headers method url) env g
    (R := fun log h => ∀ v, lastSeen Ask.outcome? log = some (.returned v) → ∃ response, v = some response ∧
      response.statusCode < 500 ∧ lastSeen WireAsk.response? h = some (.returned response)) (by simp)
    (fun log h q hR v hv => ?_)
    (resilient c.sending.breakerCfg c.sending.policy "_raw_send" .async Py.invoke).run
  · rw [exec] at hsend
    rw [hsend] at hrelated
    exact hrelated v hlast
  · cases q with
    | invoke =>
      rw [lastSeen_concat] at hv
      exact lastSeen_rawSendCode (run_ending_returned (Option.some.inj hv))
    | _ =>
      rw [lastSeen_concat] at hv
      obtain ⟨response, hsome, hstatus, hlast⟩ := hR v hv
      exact ⟨response, hsome, hstatus, (lastSeen_concat _ h _ _).trans hlast⟩

end Returned

/-! ### The whole request -/

/-- The breaker refuses, and nothing goes out; or it admits and one to `max_attempts` attempts are made, each with its
record and with one call of `httpx` at most, and the breaker is told once how the call ended. -/
inductive Sent (c : Client U A) (h : WireHistory U A) : Except PyExc (Option Response) → Prop
  | refused (asked : ⟨.wrapper .admission, false⟩ ∈ h) (record : seen WireAsk.record? h = [])
      (built : seen WireAsk.built? h = []) (told : seen WireAsk.verdict? h = []) :
      Sent c h (.error ⟨.serviceUnavailableError, 0⟩)
  | admitted {r : Except PyExc (Option Response)} (asked : ⟨.wrapper .admission, true⟩ ∈ h)
      (atLeast : 1 ≤ (seen WireAsk.record? h).length)
      (atMost : ((seen WireAsk.record? h).length : ℤ) ≤ c.sending.policy.maxAttempts)
      (built : (seen WireAsk.built? h).length ≤ (seen WireAsk.record? h).length)
      (told : seen WireAsk.verdict? h = recordsOf c.sending.breakerCfg r) : Sent c h r

/-- The end of the pin adds nothing to it. -/
theorem Sent.reset {r : Except PyExc (Option Response)} (hs : Sent c h r) (token : Option Pins) :
    Sent c (h ++ [⟨.resetPins token, ()⟩]) r := by
  cases hs with
  | refused asked record built told =>
    exact .refused (List.mem_append_left _ asked) (by simp [record, WireAsk.record?])
      (by simp [built, WireAsk.built?]) (by simp [told, WireAsk.verdict?])
  | admitted asked atLeast atMost built told =>
    refine .admitted (List.mem_append_left _ asked) ?_ ?_ ?_ ?_ <;>
      simpa [WireAsk.record?, WireAsk.built?, WireAsk.verdict?]

theorem exec_sendCode (ha : Around c url start env) (hmax : 1 ≤ c.sending.policy.maxAttempts) (method : String)
    (before : WireHistory U A) (hrecord : seen WireAsk.record? before = []) (hbuilt : seen WireAsk.built? before = [])
    (htold : seen WireAsk.verdict? before = []) :
    Sent c (exec env before (c.sendCode headers method url)).1
      (exec env before (c.sendCode headers method url)).2 := by
  rw [sendCode, exec_interpret]
  set k := c.atAttempt headers method url
  set env' := outside k env before
  have hinside : ∀ b : Bool, env' [] .admission = b →
      inside k env before [⟨.admission, b⟩] = before ++ [⟨.wrapper .admission, b⟩] := by
    rintro b rfl
    rfl
  cases hadm : env' [] .admission with
  | false =>
    have hrun : exec env' [] (resilient c.sending.breakerCfg c.sending.policy "_raw_send" .async Py.invoke) =
        ([⟨.admission, false⟩], .error ⟨.serviceUnavailableError, 0⟩) := exec_breakerCall_refused hadm
    rw [hrun]
    dsimp only
    rw [hinside false hadm]
    exact .refused (by simp) (by simp [hrecord, WireAsk.record?]) (by simp [hbuilt, WireAsk.built?])
      (by simp [htold, WireAsk.verdict?, recordOf])
  | true =>
    obtain ⟨hone, hle, -, hverdict⟩ := exec_resilient c.sending.breakerCfg "_raw_send" .async hmax hadm
    have hpre : [⟨.admission, true⟩] <+:
        (exec env' [] (resilient c.sending.breakerCfg c.sending.policy "_raw_send" .async Py.invoke)).1 := by
      rw [resilient, circuitBreaker, breakerCall, exec_bind, exec_perform, hadm]
      exact prefix_exec _
    generalize exec env' [] (resilient c.sending.breakerCfg c.sending.policy "_raw_send" .async Py.invoke) = r
      at hone hle hverdict hpre
    have hcount : (seen WireAsk.record? (inside k env before r.1)).length = calls r.1 := by
      rw [length_seen, asked_inside (fun q g => (c.asked_atAttempt headers ha method q g).2) r.1, ← length_seen,
        hrecord]
      exact Nat.zero_add _
    refine .admitted ?_ (by rwa [hcount]) (by rwa [hcount]) ?_ ?_
    · obtain ⟨rest, hrest⟩ := hpre
      rw [← hrest, inside_append, hinside true hadm]
      exact (prefix_inside _ _ _ _).subset (by simp)
    · have hbuilds := asked_inside_le (h := before) (fun q g => (c.asked_atAttempt headers ha method q g).1) r.1
      have hzero : asked WireAsk.isBuilt before = 0 := by
        have hlen := length_seen WireAsk.built? before
        rw [hbuilt] at hlen
        exact hlen.symm
      rw [hzero, Nat.zero_add] at hbuilds
      rw [hcount, length_seen]
      exact hbuilds
    · rw [seen_inside (c.seen_atAttempt headers method) r.1, htold, List.nil_append]
      exact hverdict

/-- While the addresses of a validated URL are pinned, a request goes to one of them exactly if the host is
recoverable. -/
theorem routes_pinned {d : Idna} (hdoc : Documented c.platform c.httpx d) (u : AbsoluteUrl) {addrs : List String}
    (hvalid : resolveAndValidate c.platform c.settings u.text true = .ok addrs) (hne : addrs ≠ []) :
    requestHost c.platform u.text ≠ "" ∧ ∀ v, c.httpx.url u.text = some v →
      Routes c (pinned c.platform [(requestHost c.platform u.text, addrs)]) v
        fun request => Rewritten c.httpx addrs request ↔ Recoverable c.platform d u.host := by
  obtain ⟨parsed, host, hsplit, -, hhost, -, hpublic⟩ := resolveAndValidate_ok hvalid hne
  have haddr : ∀ ip ∈ addrs, (c.platform.ip_address ip).isSome = true :=
    fun ip hip => ip_address_of_classify (hpublic ip hip)
  have hkey : requestHost c.platform u.text = c.platform.lower (lowerHost c.platform.toUnicode u.host) := by
    rw [requestHost, hsplit, Option.bind_some, AbsoluteUrl.hostname_text hsplit, Option.getD_some]
  refine ⟨?_, fun v hv request out hshown hsni hout => ?_⟩
  · rw [hkey]
    exact hdoc.lower_ne _ (lowerHost_ne hdoc u.host_ne)
  · obtain ⟨shown, hsome, hiff⟩ := handleAsyncRequest_pinned hdoc hsni hne haddr hout
    rw [hiff, hkey]
    refine found_iff hdoc ?_
    rw [← hdoc.host_eq u v hv, ← hshown, hsome]

end Client

/-- What a request owes: a URL that fails the checks asks for nothing; otherwise the breaker rules what is sent, all
attempts with the same headers.  A response that is returned is the last one that came in, and no server error.  The
pins are what they were, and where the addresses of a URL are pinned, what goes out by the transport of the kit goes to
one of these addresses, all of them public, exactly if the host is recoverable. -/
structure Contract (c : Client U A) (d : Idna) (url : String) (args : RequestArgs) (start : Option Pins)
    (h : WireHistory U A) (r : Except PyExc (Option Response)) : Prop where
  rejected : ∀ e, c.checked url = .error e → h = [] ∧ r = .error (guardExc e)
  sent : ∀ addrs, c.checked url = .ok addrs → c.Sent h r
  headers : ∀ hs ∈ seen WireAsk.built? h, hs = handed (c.headersOf args)
  returned : ∀ v, r = .ok v → ∃ response, v = some response ∧ response.statusCode < 500 ∧
    lastSeen WireAsk.response? h = some (.returned response)
  restored : currentPins start h = start
  steered : ∀ (u : AbsoluteUrl) addrs, url = u.text → c.checked url = .ok addrs → addrs ≠ [] →
    (∀ ip ∈ addrs, classifyNonPublic c.platform ip = .ok none) ∧
      ∀ request ∈ seen WireAsk.connected? h,
        Rewritten c.httpx addrs request ↔ Recoverable c.platform d u.host

namespace Client

variable (c : Client U A) {url : String} {start : Option Pins} {env : Env (WireAnswer U A)}

variable (url start env) in
/-- What is sent leaves the pins alone, and `httpx` gets one set of headers. -/
theorem sendCode_between (args : RequestArgs) (before : WireHistory U A) (hbuilt : seen WireAsk.built? before = []) :
    currentPins start (exec env before (c.sendCode (c.headersOf args) args.method url)).1 =
        currentPins start before ∧
      ∀ hs ∈ seen WireAsk.built? (exec env before (c.sendCode (c.headersOf args) args.method url)).1,
        hs = handed (c.headersOf args) := by
  refine (c.asks_sendCode (c.headersOf args) args.method url).invariant env
    (I := fun h => currentPins start h = currentPins start before ∧
      ∀ hs ∈ seen WireAsk.built? h, hs = handed (c.headersOf args)) (fun h q hq hI => ?_) ⟨rfl, by simp [hbuilt]⟩
  refine ⟨(hq.currentPins start h _).trans hI.1, fun hs hmem => ?_⟩
  rw [seen_append] at hmem
  rcases List.mem_append.mp hmem with hmem | hmem
  · exact hI.2 hs hmem
  · rw [seen_cons, seen_nil, List.append_nil, Option.mem_toList] at hmem
    exact hq.built hs hmem

variable {c} in
theorem checked_ok {addrs : List String} (h : c.checked url = .ok addrs) (hne : addrs ≠ []) :
    resolveAndValidate c.platform c.settings url true = .ok addrs := by
  unfold checked at h
  split_ifs at h
  · cases hv : resolveAndValidate c.platform c.settings url true with
    | error e =>
      rw [hv] at h
      cases h
    | ok addrs' =>
      rw [hv] at h
      cases ha : assertAllowedUrl c.platform c.settings url with
      | error e =>
        simp [ha, bind, Except.bind] at h
      | ok _ =>
        simpa [ha, bind, Except.bind, pure, Except.pure] using h
  · cases ha : assertAllowedUrl c.platform c.settings url with
    | error e => simp [ha, bind, Except.bind] at h
    | ok _ =>
      have hnil : [] = addrs := by simpa [ha, bind, Except.bind, pure, Except.pure] using h
      exact absurd hnil.symm hne

/-- **The contract of a request**, in any surroundings where nobody else touches the pins of the task, `httpx` builds
its requests to the host of the URL and the audit side does no harm. -/
theorem request_contract {d : Idna} (hdoc : Documented c.platform c.httpx d)
    (hmax : 1 ≤ c.sending.policy.maxAttempts) (ha : Around c url start env) (args : RequestArgs) :
    Contract c d url args start (exec env [] (c.request url args)).1 (exec env [] (c.request url args)).2 := by
  unfold request
  cases hchecked : c.checked url with
  | error e =>
    exact {
      rejected := fun e' he' => by cases hchecked.symm.trans he'; exact ⟨rfl, rfl⟩
      sent := fun addrs h => by cases hchecked.symm.trans h
      headers := by simp
      returned := fun v hv => by cases hv
      restored := rfl
      steered := fun u addrs _ h => by cases hchecked.symm.trans h }
  | ok addrs =>
    have hno : ∀ e, (.ok addrs : Except GuardError (List String)) ≠ .error e := by simp
    dsimp only
    split_ifs with hpin
    · set pins := pinned c.platform [(requestHost c.platform url, addrs)] with hpins
      set before : WireHistory U A := [⟨.setPins pins, start⟩] with hbefore
      set h₁ := (exec env before (c.sendCode (c.headersOf args) args.method url)).1 with hh₁
      set r := (exec env before (c.sendCode (c.headersOf args) args.method url)).2 with hr
      have htoken : env [] (.setPins pins) = start := ha.setPins [] pins
      have hrun : exec env [] (do
          let token ← perform (WireAsk.setPins pins)
          let ended ← attempt (c.sendCode (c.headersOf args) args.method url)
          perform (WireAsk.resetPins token)
          Code.ofExcept ended : WireCode U A (Option Response)) = (h₁ ++ [⟨.resetPins start, ()⟩], r) := by
        rw [exec_bind, exec_perform]
        dsimp only
        rw [exec_bind, exec_attempt]
        dsimp only
        rw [exec_bind, exec_perform]
        dsimp only
        rw [exec_ofExcept, htoken]
        rfl
      rw [hrun]
      obtain ⟨-, hheaders⟩ := c.sendCode_between url start env args before rfl
      have hsent := c.exec_sendCode (c.headersOf args) ha hmax args.method before rfl rfl rfl
      exact {
        rejected := fun e he => absurd (hchecked.symm.trans he) (hno e)
        sent := fun _ _ => hsent.reset start
        headers := by
          rw [seen_append]
          simpa [WireAsk.built?] using hheaders
        returned := fun v hv => by
          obtain ⟨response, hsome, hstatus, hlast⟩ := lastSeen_sendCode hmax (h := h₁) (Prod.ext rfl (hr.symm.trans hv))
          exact ⟨response, hsome, hstatus, (lastSeen_concat _ h₁ _ _).trans hlast⟩
        restored := currentPins_concat start h₁ _
        steered := by
          rintro u addrs' rfl h hne
          obtain rfl := Except.ok.inj (hchecked.symm.trans h)
          have hvalid := checked_ok h hne
          obtain ⟨-, -, -, -, -, -, hpublic⟩ := resolveAndValidate_ok hvalid hne
          obtain ⟨-, hroute⟩ := routes_pinned hdoc u hvalid hne
          have hkeep := keeps_sendCode (c.headersOf args) ha hroute args.method before
            ⟨rfl, by simp [hbefore, WireAsk.connected?]⟩
          refine ⟨hpublic, ?_⟩
          rw [seen_append]
          simpa [WireAsk.connected?] using hkeep.good }
    · obtain ⟨hpins, hheaders⟩ := c.sendCode_between url start env args [] rfl
      exact {
        rejected := fun e he => absurd (hchecked.symm.trans he) (hno e)
        sent := fun _ _ => c.exec_sendCode (c.headersOf args) ha hmax args.method [] rfl rfl rfl
        headers := hheaders
        returned := fun v hv => lastSeen_sendCode hmax (Prod.ext rfl hv)
        restored := hpins
        steered := by
          rintro u addrs' rfl h hne
          obtain rfl := Except.ok.inj (hchecked.symm.trans h)
          exact absurd ⟨hne, (routes_pinned hdoc u (checked_ok h hne) hne).1⟩ hpin }

end Client

/-! ### A partner that answers late -/

/-- The client of the sample URL; timeouts are tried again. -/
def sampleClient : Client String Unit where
  service := "partner"
  injected := false
  onOutbound := false
  platform := samplePlatform
  upper := id
  httpx := sampleHttpx
  settings := {}
  info := { typeName := fun _ => "error", errorCode := fun _ => none }
  text := fun _ => ()
  sending := Idempotency.traced

/-- The first connection times out, the next is answered. -/
def latePartner : Env (WireAnswer String Unit) := fun h q =>
  match q with
  | .setPins _ => currentPins none h
  | .resetPins _ => ()
  | .getPins => currentPins none h
  | .build _ => .returned ({ url := "Partner.Example" }, [])
  | .connect _ => if seen WireAsk.connected? h = [] then .raised ⟨.timeoutException, 0⟩ else .returned ⟨200, 7⟩
  | .foreign _ => .raised ⟨.timeoutException, 0⟩
  | .audit q =>
    match q with
    | .monotonic => (0 : ℚ)
    | .invoke => .raised ⟨.timeoutException, 0⟩
    | .openClient => none
    | .closeClient => none
    | .payloadFactory => .returned []
    | .requestId => none
    | .correlationId => none
    | .time => (0 : ℚ)
    | .getDispatcher => none
    | .submit _ => none
    | .onOutbound _ => none
  | .wrapper q => (Outcome.returned none : Outcome (Option Response)).alone q

theorem latePartner_around : Around sampleClient sampleUrl.text none latePartner where
  getPins _ := rfl
  setPins _ _ := rfl
  build h headers first rest heq := by
    refine ⟨"Partner.Example", by decide +kernel, fun request hr => ?_⟩
    cases heq
    obtain rfl := List.mem_singleton.mp hr
    exact ⟨rfl, rfl⟩
  audit h q := by
    cases q with
    | payloadFactory => exact ordinary_ok []
    | submit event => exact ordinary_ok ()
    | onOutbound call => exact ordinary_ok ()
    | getDispatcher => rfl
    | _ => trivial

theorem request_contract_late :
    Contract sampleClient sampleIdna sampleUrl.text Idempotency.payment none
        (exec latePartner [] (sampleClient.request sampleUrl.text Idempotency.payment)).1
        (exec latePartner [] (sampleClient.request sampleUrl.text Idempotency.payment)).2 ∧
      (seen WireAsk.connected? (exec latePartner [] (sampleClient.request sampleUrl.text Idempotency.payment)).1).map
        Request.url = ["93.184.216.34", "93.184.216.34"] ∧
      (exec latePartner [] (sampleClient.request sampleUrl.text Idempotency.payment)).2 = .ok (some ⟨200, 7⟩) :=
  ⟨sampleClient.request_contract sample_documented (by decide) latePartner_around Idempotency.payment,
    by decide +kernel, by decide +kernel⟩

end ResilienceKit.HttpClient

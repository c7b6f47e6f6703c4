import ResilienceKit.Audit.Dispatch
import ResilienceKit.Audit.Redaction
import ResilienceKit.HttpClient.DnsPin
import ResilienceKit.HttpClient.RawSend

/-!
# HttpClient.UrlSecrets — what the audit backend learns of the URL

The dispatcher sanitises `payload` and `details` of an event.  The client puts the URL into `path`, with its
query.  Two requests that differ in the value of one query parameter leave the same events, up to times and
ids, exactly if nothing is recorded or the parameter is passed in `params`.
-/

namespace ResilienceKit.HttpClient

open Program Code Audit Ssrf UrlParse

variable {S : Type}

/-! ### Requests that differ in a secret -/

/-- The arguments of `AsyncAPIClient.request` that say where it goes. -/
structure OutboundRequest where
  method : String
  url : String
  params : List (String × String) := []

/-- A parameter in the query of a URL. -/
structure UrlParam where
  /-- What stands before the query. -/
  front : List Char
  before : List (List Char)
  name : List Char
  /-- The parameters after it, and the fragment. -/
  after : List Char
  front_plain : ∀ c ∈ front, c ≠ '?' ∧ c ≠ '#'
  before_plain : ∀ s ∈ before, ∀ c ∈ s, c ≠ '&' ∧ c ≠ '#'
  name_plain : ∀ c ∈ name, c ≠ '&' ∧ c ≠ '#' ∧ c ≠ '='
  after_head : ∀ c ∈ after.head?, c = '&' ∨ c = '#'

namespace UrlParam

variable (u : UrlParam)

def query (value : List Char) : List Char :=
  u.before.flatMap (fun s => s ++ ['&']) ++ (u.name ++ '=' :: (value ++ u.after))

/-- The URL with this value of the parameter. -/
def text (value : List Char) : String := String.ofList (u.front ++ '?' :: u.query value)

variable {u} in
theorem front_text (p : Unicode) (value : List Char) : ∃ query fragment, urlsplit p (u.text value) =
    (urlsplit p (String.ofList u.front)).map fun r => { r with query, fragment } :=
  urlsplit_query p u.front_plain _

end UrlParam

/-- A value that does not end early. -/
def PlainValue (value : List Char) : Prop := ∀ c ∈ value, c ≠ '&' ∧ c ≠ '#'

/-- The requests differ at most in the value of one query parameter whose name is sensitive. -/
inductive DifferInSecret (sensitive : String → Bool) : OutboundRequest → OutboundRequest → Prop
  | inUrl (method : String) (params : List (String × String)) (u : UrlParam) {value value' : List Char}
      (plain : PlainValue value) (plain' : PlainValue value')
      (secret : sensitive (String.ofList u.name) = true) :
      DifferInSecret sensitive ⟨method, u.text value, params⟩ ⟨method, u.text value', params⟩
  | inParams (method url : String) (before after : List (String × String)) {name : String}
      (value value' : String) (secret : sensitive name = true) :
      DifferInSecret sensitive ⟨method, url, before ++ (name, value) :: after⟩
        ⟨method, url, before ++ (name, value') :: after⟩

/-! ### From a request to the backend -/

/-- `sanitize` of the default redactor, for mappings with string keys. -/
def redact (lower : String → String) (r : DefaultRedactor) : Sanitizer (Mapping (Value S)) :=
  fun payload => .ok (walkDict (r.isRedactedKey lower) id payload)

/-- The events that are handed to the dispatcher. -/
def submitted {A V : Type} (h : AuditHistory A V) : List (AuditEvent (Mapping A)) :=
  seen (fun
    | .submit event => some event
    | _ => none) h

/-- The lists that are passed to `write_many`. -/
def written {P : Type} (h : FlushHistory P) : List (List (AuditEvent P)) :=
  seen (fun
    | .writeMany events => some events
    | _ => none) h

/-- The surroundings of a client; `attempts` has those of each attempt that `@resilient` makes.  The
dispatcher is there. -/
structure Setting (S : Type) where
  platform : Platform
  settings : SSRFSettings
  checkSsrf : Bool
  info : ExcInfo
  attempts : List (Env (AuditAnswer (Value S) Response))
  there : ∀ env ∈ attempts, ∀ h, env h .getDispatcher = none

namespace Setting

variable (s : Setting S)

/-- The checks of `request`. -/
def guarded (url : String) : Except GuardError Unit := do
  if s.checkSsrf then
    let _ ← resolveAndValidate s.platform s.settings url true
  assertAllowedUrl s.platform s.settings url

/-- The events of a request. -/
def events (c : AsyncAPIClient) (q : OutboundRequest) : List (AuditEvent (Mapping (Value S))) :=
  match s.guarded q.url with
  | .error _ => []
  | .ok () => s.attempts.flatMap fun env =>
      submitted (exec env [] (c.rawSend s.info .text q.method q.url (requestHost s.platform q.url))).1

end Setting

/-- Equal up to timestamp, latency and ids. -/
def Same {P : Type} (e e' : AuditEvent P) : Prop :=
  { e with latencyMs := 0, timestamp := 0, requestId := none, correlationId := none } =
    { e' with latencyMs := 0, timestamp := 0, requestId := none, correlationId := none }

theorem Same.paths {P : Type} {events events' : List (AuditEvent P)}
    (h : List.Forall₂ Same events events') : events.map AuditEvent.path = events'.map AuditEvent.path := by
  induction h with
  | nil => rfl
  | cons hsame _ ih =>
    have hpath := congrArg AuditEvent.path hsame
    rw [List.map_cons, List.map_cons, ih]
    exact congrArg (fun path => path :: _) hpath

/-- Whatever the backend does, it is given the same events for either batch. -/
def BackendSees {P : Type} (d : FireAndForgetDispatcher P) (batch batch' : List (AuditEvent P)) : Prop :=
  ∀ (env env' : Env (FlushAnswer P)), ∀ events ∈ written (exec env [] (d.flush batch)).1,
    ∀ events' ∈ written (exec env' [] (d.flush batch')).1, List.Forall₂ Same events events'

/-! ### What the checks read -/

/-- Two calls that return the same, or both raise. -/
theorem toOption_cases {α ε : Type} {x y : Except ε α} (h : x.toOption = y.toOption) :
    (∃ a, x = .ok a ∧ y = .ok a) ∨ ∃ e e', x = .error e ∧ y = .error e' := by
  cases x with
  | ok a =>
    cases y with
    | ok b => exact .inl ⟨a, rfl, congrArg _ (Option.some.inj h).symm⟩
    | error e => cases h
  | error e =>
    cases y with
    | ok b => cases h
    | error e' => exact .inr ⟨e, e', rfl, rfl⟩

/-- The same scheme and the same authority. -/
def SameOrigin (p : Unicode) (url url' : String) : Prop :=
  (urlsplit p url).map (fun r => (r.scheme, r.netloc)) = (urlsplit p url').map fun r => (r.scheme, r.netloc)

theorem UrlParam.sameOrigin (p : Unicode) (u : UrlParam) (value value' : List Char) :
    SameOrigin p (u.text value) (u.text value') := by
  obtain ⟨query, fragment, h⟩ := u.front_text p value
  obtain ⟨query', fragment', h'⟩ := u.front_text p value'
  rw [SameOrigin, h, h', Option.map_map, Option.map_map]
  rfl

namespace SameOrigin

variable {p : Platform} {url url' : String}

/-- The checks go the same way, as far as the parts of the URL decide. -/
theorem cases (h : SameOrigin p.toUnicode url url') :
    (urlsplit p.toUnicode url = none ∧ urlsplit p.toUnicode url' = none) ∨
      ∃ r r', urlsplit p.toUnicode url = some r ∧ urlsplit p.toUnicode url' = some r' ∧
        r.scheme = r'.scheme ∧ hostname p.toUnicode r = hostname p.toUnicode r' := by
  unfold SameOrigin at h
  cases hr : urlsplit p.toUnicode url with
  | none =>
    rw [hr, Option.map_none] at h
    exact .inl ⟨rfl, Option.map_eq_none_iff.mp h.symm⟩
  | some r =>
    rw [hr, Option.map_some] at h
    obtain ⟨r', hr', heq⟩ := Option.map_eq_some_iff.mp h.symm
    obtain ⟨hscheme, hnetloc⟩ := Prod.ext_iff.mp heq
    replace hnetloc : r'.netloc = r.netloc := hnetloc
    exact .inr ⟨r, r', rfl, hr', hscheme.symm, by rw [hostname, hostname, hnetloc]⟩

theorem resolve_eq (host url url' : String) (strict : Bool) :
    (resolve p host url strict).toOption = (resolve p host url' strict).toOption := by
  unfold resolve
  split
  · rfl
  · split
    · rfl
    · rfl
    · split_ifs <;> rfl

theorem rejectNonPublic_eq (url url' host : String) (addrs : List String) :
    (rejectNonPublic p url host addrs).toOption = (rejectNonPublic p url' host addrs).toOption := by
  induction addrs with
  | nil => rfl
  | cons addr addrs ih =>
    unfold rejectNonPublic
    split
    · rfl
    · exact ih
    · rfl

theorem resolveAndValidate_eq (h : SameOrigin p.toUnicode url url') (settings : SSRFSettings)
    (strict : Bool) :
    (resolveAndValidate p settings url strict).toOption =
      (resolveAndValidate p settings url' strict).toOption := by
  unfold resolveAndValidate
  split_ifs
  · rfl
  · rcases h.cases with ⟨hr, hr'⟩ | ⟨r, r', hr, hr', hscheme, hhost⟩
    · rw [hr, hr']
    · rw [hr, hr']
      dsimp only
      rw [hscheme, hhost]
      split_ifs
      · cases hostname p.toUnicode r' with
        | none => rfl
        | some host =>
          rcases toOption_cases (resolve_eq (p := p) host url url' strict) with
            ⟨addrs, ha, ha'⟩ | ⟨e, e', he, he'⟩
          · simp only [ha, ha']
            rcases toOption_cases (rejectNonPublic_eq (p := p) url url' host addrs) with
              ⟨u, hu, hu'⟩ | ⟨e, e', he, he'⟩
            · simp only [hu, hu']
            · simp only [he, he']
              rfl
          · simp only [he, he']
            rfl
      · rfl

theorem assertAllowedUrl_eq (h : SameOrigin p.toUnicode url url') (settings : SSRFSettings) :
    (assertAllowedUrl p settings url).toOption = (assertAllowedUrl p settings url').toOption := by
  unfold assertAllowedUrl
  dsimp only
  split_ifs
  · rfl
  · rcases h.cases with ⟨hr, hr'⟩ | ⟨r, r', hr, hr', -, hhost⟩
    · rw [hr, hr']
    · rw [hr, hr']
      dsimp only
      rw [hhost]
      split_ifs <;> rfl

end SameOrigin

/-! ### What a request hands over -/

section Events

variable {c : AsyncAPIClient} {s : Setting S}

theorem guarded_eq {url url' : String} (h : SameOrigin s.platform.toUnicode url url') :
    (s.guarded url).toOption = (s.guarded url').toOption := by
  have hallow := h.assertAllowedUrl_eq s.settings
  unfold Setting.guarded
  split_ifs
  · rcases toOption_cases (h.resolveAndValidate_eq s.settings true) with
      ⟨addrs, ha, ha'⟩ | ⟨e, e', he, he'⟩
    · rw [ha, ha']
      exact hallow
    · rw [he, he']
      rfl
  · exact hallow

theorem submitted_eq_nil {A V : Type} {g : AuditHistory A V}
    (h : ∀ e, Record.event e ∉ seen AuditAsk.record? g) : submitted g = [] := by
  refine List.filterMap_eq_nil_iff.mpr ?_
  rintro ⟨q, a⟩ hx
  dsimp only
  split
  · rename_i e
    have hmem : Record.event e ∈ seen AuditAsk.record? g := List.mem_filterMap.mpr ⟨_, hx, rfl⟩
    exact absurd hmem (h e)
  · rfl

/-- With a hook the dispatcher gets nothing. -/
theorem submitted_hook (env : Env (AuditAnswer (Value S) Response)) (method url host : String)
    (hhook : c.onOutbound = true) :
    submitted (exec env [] (c.rawSend s.info .text method url host)).1 = [] := by
  obtain ⟨g, u, call, hrun, hg, -⟩ := c.exec_rawSend s.info .text env method url host
  rw [hrun]
  have hno : ∀ e, ¬ c.Records call (.event e) := by
    intro e he
    rw [he.1] at hhook
    cases hhook
  refine submitted_eq_nil fun e he => ?_
  cases hg with
  | done _ one holds =>
    rw [one, List.mem_singleton] at he
    exact hno e (he ▸ holds)
  | lost _ none =>
    rw [none] at he
    cases he
  | broken _ one holds _ =>
    rw [one, List.mem_singleton] at he
    exact hno e (he ▸ holds)

theorem exec_submitToDispatcher (env : Env (AuditAnswer (Value S) Response))
    (h : AuditHistory (Value S) Response) (call : OutboundCall (Value S))
    (hthere : ∀ h, env h .getDispatcher = none) : ∃ g e r,
    exec env h (AsyncAPIClient.submitToDispatcher call) = (h ++ g, r) ∧ submitted g = [e] ∧
      e.path = call.url := by
  rw [AsyncAPIClient.submitToDispatcher, exec_bind, exec_perform]
  simp only [exec_bind, exec_perform, submit, hthere, Py.raised, exec_ofExcept, List.append_assoc]
  exact ⟨_, _, _, rfl, rfl, rfl⟩

/-- Without one it gets one event, with the URL. -/
theorem submitted_rawSend (env : Env (AuditAnswer (Value S) Response)) (method url host : String)
    (hhook : c.onOutbound = false) (hthere : ∀ h, env h .getDispatcher = none) :
    ∃ e, submitted (exec env [] (c.rawSend s.info .text method url host)).1 = [e] ∧ e.path = url := by
  obtain ⟨g, status, ended, hrun, -, hnone⟩ := c.exec_send env [⟨.monotonic, env [] .monotonic⟩]
  have hg : submitted g = [] := submitted_eq_nil (by simp [hnone])
  obtain ⟨g', e, r, hrun', hg', hpath⟩ := exec_submitToDispatcher env
    ([⟨.monotonic, env [] .monotonic⟩] ++ g ++
      [⟨.monotonic, env ([⟨.monotonic, env [] .monotonic⟩] ++ g) .monotonic⟩])
    { service := c.service, method, url, status,
      latencyMs := (env ([⟨.monotonic, env [] .monotonic⟩] ++ g) .monotonic - env [] .monotonic) * 1000,
      errorClass := (AsyncAPIClient.caught ended).map s.info.typeName,
      errorCode := (AsyncAPIClient.caught ended).bind s.info.errorCode,
      details := [("host", .text host)] } hthere
  refine ⟨e, ?_, hpath⟩
  rw [AsyncAPIClient.rawSend, exec_bind, exec_perform]
  simp only [List.nil_append, exec_bind, hrun, exec_perform]
  rw [AsyncAPIClient.emitAudit, if_neg (by simp [hhook]), Py.exec_logged, hrun']
  have hall : submitted ([⟨.monotonic, env [] .monotonic⟩] ++ g ++
      [⟨.monotonic, env ([⟨.monotonic, env [] .monotonic⟩] ++ g) .monotonic⟩] ++ g') = [e] := by
    unfold submitted at hg hg' ⊢
    rw [seen_append, seen_append, seen_append, hg, hg']
    rfl
  cases hlog : Py.swallowed r with
  | ok u => simpa only [hlog, exec_ofExcept] using hall
  | error exc => simpa only [hlog] using hall

/-- A request hands over its URL once for each attempt. -/
theorem events_path {q : OutboundRequest} (hhook : c.onOutbound = false) (hguard : s.guarded q.url = .ok ()) :
    (s.events c q).map AuditEvent.path = s.attempts.map fun _ => q.url := by
  rw [Setting.events, hguard]
  dsimp only
  have hthere := s.there
  generalize s.attempts = attempts at hthere
  induction attempts with
  | nil => rfl
  | cons env attempts ih =>
    obtain ⟨e, he, hpath⟩ := submitted_rawSend (s := s) env q.method q.url
      (requestHost s.platform q.url) hhook (hthere env List.mem_cons_self)
    have hrest := ih fun env henv => hthere env (List.mem_cons_of_mem _ henv)
    rw [List.flatMap_cons, he, List.map_append, hrest, List.map_singleton, hpath]
    rfl

theorem events_eq_nil {q : OutboundRequest}
    (h : c.onOutbound = true ∨ s.attempts = [] ∨ ∃ e, s.guarded q.url = .error e) : s.events c q = [] := by
  unfold Setting.events
  cases hguard : s.guarded q.url with
  | error e => rfl
  | ok u =>
    refine List.flatMap_eq_nil_iff.mpr fun env henv => ?_
    rcases h with hhook | hnone | ⟨e, he⟩
    · exact submitted_hook env _ _ _ hhook
    · rw [hnone] at henv
      cases henv
    · rw [he] at hguard
      cases hguard

end Events

/-! ### What the backend is given -/

section Backend

variable {P : Type} {d : FireAndForgetDispatcher P}

/-- A question that passes on these events, if any. -/
def Passes (events : List (AuditEvent P)) (q : FlushAsk P) : Prop :=
  ∀ events', q = .writeMany events' → events' = events

theorem asks_pause (events : List (AuditEvent P)) (attempt : ℕ) :
    Asks (Passes events) (FireAndForgetDispatcher.pause attempt : FlushCode P Unit) := by
  have hbackoff : Asks (Passes events) (FireAndForgetDispatcher.backoffS attempt : FlushCode P ℚ) :=
    .bind (.perform fun _ h => by cases h) fun _ => .pure _
  exact .bind hbackoff fun _ => .bind (.perform fun _ h => by cases h) fun _ => .ofExcept _

theorem asks_attemptWrites (events : List (AuditEvent P)) (attempt left : ℕ) :
    Asks (Passes events) (FireAndForgetDispatcher.attemptWrites events attempt left) := by
  induction left generalizing attempt with
  | zero => exact .pure _
  | succ left ih =>
    have hwrite : Asks (Passes events) (FireAndForgetDispatcher.writeMany events) :=
      .bind (.perform fun _ h => (FlushAsk.writeMany.inj h).symm) fun _ => .ofExcept _
    refine .tryElse hwrite (fun exc => ?_) fun _ => .pure _
    split_ifs
    · exact .bind (asks_pause events attempt) fun _ => ih (attempt + 1)
    · exact ih (attempt + 1)
    · exact .throw exc

theorem asks_writeWithRetry (events : List (AuditEvent P)) :
    Asks (Passes events) (d.writeWithRetry events) := by
  have hincr : ∀ name value tags,
      Asks (Passes events) (FireAndForgetDispatcher.incr name value tags : FlushCode P Unit) :=
    fun _ _ _ => .bind (.perform fun _ h => by cases h) fun _ => .ofExcept _
  have hfallback : Asks (Passes events) (FireAndForgetDispatcher.fallbackWriteMany events) :=
    .bind (.perform fun _ h => by cases h) fun _ => .ofExcept _
  refine .bind (asks_attemptWrites events 1 _) fun written => ?_
  cases written with
  | true => exact .pure ()
  | false =>
    refine .bind (hincr _ _ _) fun _ => .tryElse hfallback (fun exc => ?_) fun _ => .pure _
    split_ifs
    · exact .pure ()
    · exact .throw exc

/-- The backend is given the sanitised batch, and nothing else. -/
theorem mem_written_iff {batch events : List (AuditEvent P)} (h : batch.mapM d.sanitizeEvent = .ok events)
    (env : Env (FlushAnswer P)) (events' : List (AuditEvent P)) :
    events' ∈ written (exec env [] (d.flush batch)).1 ↔ events' = events := by
  have hrun : exec env [] (d.flush batch) = exec env [] (d.writeWithRetry events) := by
    rw [FireAndForgetDispatcher.flush, exec_bind, exec_ofExcept, h]
  rw [hrun]
  constructor
  · intro hmem
    obtain ⟨g, hg, hasks⟩ := (asks_writeWithRetry (d := d) events).exists_added env []
    obtain ⟨⟨q, a⟩, hx, hq⟩ := List.mem_filterMap.mp hmem
    rw [hg, List.nil_append] at hx
    dsimp only at hq
    split at hq
    · cases hq
      exact hasks _ hx _ rfl
    · cases hq
  · rintro rfl
    obtain ⟨a, ha⟩ := (d.exec_writeWithRetry env events').backend
    exact List.mem_filterMap.mpr ⟨_, ha, rfl⟩

end Backend

/-! ### The default redactor -/

section Redactor

variable {lower : String → String} {r : DefaultRedactor} {name : String}

/-- The sanitised event. -/
def redacted (lower : String → String) (r : DefaultRedactor) (event : AuditEvent (Mapping (Value S))) :
    AuditEvent (Mapping (Value S)) :=
  { event with
    payload := walkDict (r.isRedactedKey lower) id event.payload
    details := walkDict (r.isRedactedKey lower) id event.details }

theorem mapM_sanitizeEvent (batch : List (AuditEvent (Mapping (Value S)))) :
    batch.mapM (FireAndForgetDispatcher.sanitizeEvent ⟨name, redact lower r⟩) =
      .ok (batch.map (redacted lower r)) :=
  List.mapM_pure

/-- Batches that the backend cannot tell apart have the same paths, and a batch is not told from itself. -/
theorem BackendSees.paths {batch batch' : List (AuditEvent (Mapping (Value S)))}
    (h : BackendSees ⟨name, redact lower r⟩ batch batch') :
    batch.map AuditEvent.path = batch'.map AuditEvent.path := by
  have hsame := h (fun _ => FlushAsk.calm) (fun _ => FlushAsk.calm) _
    ((mem_written_iff (mapM_sanitizeEvent batch) _ _).mpr rfl) _
    ((mem_written_iff (mapM_sanitizeEvent batch') _ _).mpr rfl)
  have hpaths := Same.paths hsame
  rw [List.map_map, List.map_map] at hpaths
  exact hpaths

theorem BackendSees.refl (batch : List (AuditEvent (Mapping (Value S)))) :
    BackendSees ⟨name, redact lower r⟩ batch batch := by
  intro env env' events hevents events' hevents'
  rw [mem_written_iff (mapM_sanitizeEvent batch)] at hevents hevents'
  subst hevents hevents'
  exact List.forall₂_same.mpr fun _ _ => rfl

end Redactor

namespace DifferInSecret

variable {sensitive : String → Bool} {q q' : OutboundRequest} (h : DifferInSecret sensitive q q')

include h

theorem method_eq : q.method = q'.method := by
  cases h <;> rfl

theorem sameOrigin (p : Unicode) : SameOrigin p q.url q'.url := by
  cases h with
  | inUrl method params u plain plain' secret => exact u.sameOrigin p _ _
  | inParams method url before after value value' secret => exact rfl

end DifferInSecret

/-- **Secrets in the URL** reach the backend: requests that differ in the value of one query parameter with a
redacted name leave the same events exactly if the parameter is not in `url` (or has the same value there),
or nothing is recorded at all. -/
theorem url_secret_hidden_iff (lower : String → String) (r : DefaultRedactor) (name : String)
    (s : Setting S) (c : AsyncAPIClient) (before after : List (AuditEvent (Mapping (Value S))))
    {q q' : OutboundRequest}
    (h : DifferInSecret (r.isRedactedKey lower) q q') :
    BackendSees ⟨name, redact lower r⟩ (before ++ s.events c q ++ after)
        (before ++ s.events c q' ++ after) ↔
      q.url = q'.url ∨ c.onOutbound = true ∨ s.attempts = [] ∨ ∃ e, s.guarded q.url = .error e := by
  have hguard := guarded_eq (h.sameOrigin s.platform.toUnicode)
  constructor
  · intro hsees
    have hpaths := hsees.paths
    simp only [List.map_append, List.append_cancel_left_eq, List.append_cancel_right_eq] at hpaths
    cases hhook : c.onOutbound with
    | true => exact .inr (.inl rfl)
    | false =>
      rcases toOption_cases hguard with ⟨u, hok, hok'⟩ | ⟨e, e', he, -⟩
      · rw [events_path hhook hok, events_path hhook hok'] at hpaths
        cases ha : s.attempts with
        | nil => exact .inr (.inr (.inl rfl))
        | cons env attempts =>
          rw [ha, List.map_cons, List.map_cons] at hpaths
          exact .inl (List.cons.inj hpaths).1
      · exact .inr (.inr (.inr ⟨e, he⟩))
  · intro hcond
    have hevents : s.events c q = s.events c q' := by
      rcases hcond with hurl | hnothing
      · rw [Setting.events, Setting.events, hurl, h.method_eq]
      · rw [events_eq_nil hnothing, events_eq_nil]
        refine hnothing.imp_right (Or.imp_right fun ⟨e, he⟩ => ?_)
        rcases toOption_cases hguard with ⟨u, hok, -⟩ | ⟨_, e', -, he'⟩
        · rw [he] at hok
          cases hok
        · exact ⟨e', he'⟩
    rw [hevents]
    exact .refl _

/-! ### A token in the URL -/

/-- One attempt that is answered with 200, in surroundings in which nothing fails. -/
def answered : (q : AuditAsk (Value Unit)) → AuditAnswer (Value Unit) Response q
  | .monotonic => 0
  | .invoke => .returned ⟨200, 0⟩
  | .openClient => none
  | .closeClient => none
  | .payloadFactory => .returned []
  | .requestId => none
  | .correlationId => none
  | .time => 0
  | .getDispatcher => none
  | .submit _ => none
  | .onOutbound _ => none

def sampleSetting : Setting Unit where
  platform := samplePlatform
  settings := {}
  checkSsrf := false
  info := plain
  attempts := [fun _ => answered]
  there := by
    intro env henv h
    rw [List.mem_singleton.mp henv]
    rfl

def tokenParam : UrlParam where
  front := "https://pay.example/charge".toList
  before := ["currency=inr".toList]
  name := "token".toList
  after := []
  front_plain := by simp
  before_plain := by simp
  name_plain := by simp
  after_head := by simp

theorem standard_token : standard.isRedactedKey lowerAscii "token" = true := by
  decide +kernel

/-- In `params` the token stays out of the events. -/
theorem url_secret_hidden_iff_params :
    BackendSees ⟨"PostgresAuditBackend", redact lowerAscii standard.toDefaultRedactor⟩
      ([] ++ sampleSetting.events ⟨"billing", true, false⟩
        ⟨"GET", "https://pay.example/charge", [("token", "a")]⟩ ++ [])
      ([] ++ sampleSetting.events ⟨"billing", true, false⟩
        ⟨"GET", "https://pay.example/charge", [("token", "b")]⟩ ++ []) :=
  (url_secret_hidden_iff lowerAscii standard.toDefaultRedactor "PostgresAuditBackend" sampleSetting
    ⟨"billing", true, false⟩ [] []
    (.inParams "GET" "https://pay.example/charge" [] [] "a" "b" standard_token)).mpr (.inl rfl)

/-- In the URL the backend reads it. -/
theorem token_reaches_backend :
    DifferInSecret (standard.isRedactedKey lowerAscii) ⟨"GET", tokenParam.text ['a'], []⟩
        ⟨"GET", tokenParam.text ['b'], []⟩ ∧
      ¬ BackendSees ⟨"PostgresAuditBackend", redact lowerAscii standard.toDefaultRedactor⟩
        (sampleSetting.events ⟨"billing", true, false⟩ ⟨"GET", tokenParam.text ['a'], []⟩)
        (sampleSetting.events ⟨"billing", true, false⟩ ⟨"GET", tokenParam.text ['b'], []⟩) := by
  constructor
  · exact .inUrl "GET" [] tokenParam (by simp [PlainValue]) (by simp [PlainValue]) standard_token
  · intro hsees
    have hne :
        (sampleSetting.events ⟨"billing", true, false⟩ ⟨"GET", tokenParam.text ['a'], []⟩).map
          AuditEvent.path ≠
        (sampleSetting.events ⟨"billing", true, false⟩ ⟨"GET", tokenParam.text ['b'], []⟩).map
          AuditEvent.path := by
      decide +kernel
    exact hne hsees.paths

end ResilienceKit.HttpClient

import ResilienceKit.Middleware.Layers

/-!
# Middleware.Stack — `install_middleware_stack`

Every start that the application sends passes the request ids and the security headers.  What a layer answers
by itself passes only the layers around it: `stack_hardened_iff`.
-/

namespace ResilienceKit.Middleware

open Program Code

variable {X Y J : Type} (errors : Errors J)

structure StackOptions where
  bodyLimitBytes : ℤ := 1048576
  requestIdHeader : String := "x-request-id"
  correlationIdHeader : String := "x-correlation-id"
  securityHeaderOverrides : List (String × String) := []
  securityHeaderExtras : List (String × String) := []
  corsAllowOrigins : List String := []
  corsPathPrefixes : List String := []

namespace StackOptions

variable (o : StackOptions)

def security : Headers := securityHeaders o.securityHeaderOverrides o.securityHeaderExtras

def cors : Cors := { allowOrigins := o.corsAllowOrigins, pathPrefixes := o.corsPathPrefixes }

def corsInstalled : Bool := !o.corsAllowOrigins.isEmpty && !o.corsPathPrefixes.isEmpty

/-- The stack below the security headers and the rate limit, from the innermost layer on. -/
def below (app : App X Y) : App X Y :=
  let app := requestIdMiddleware o.requestIdHeader o.correlationIdHeader app
  let app := bodyLimitMiddleware o.bodyLimitBytes app
  if o.corsInstalled then selectiveCorsMiddleware o.cors app else app

/-- The stack below `ExceptionLoggingMiddleware`. -/
def inner (app : App X Y) : App X Y :=
  securityHeadersMiddleware o.security ((rateLimitHeaders errors).wrap (o.below app))

/-- `install_middleware_stack` -/
def installMiddlewareStack (app : App X Y) : App X Y :=
  (exceptionLogging errors).wrap (o.inner errors app)

/-! ### Which starts are hardened -/

/-- Every configured security header and a header with each of the ids. -/
structure Hardened (headers : Headers) : Prop where
  security : ∀ x ∈ o.security, x ∈ headers
  requestId : lower o.requestIdHeader ∈ headers.map Prod.fst
  correlationId : lower o.correlationIdHeader ∈ headers.map Prod.fst

/-- With the security headers these have both ids, if only because the options name them so. -/
def CarriesIds (headers : Headers) : Prop :=
  lower o.requestIdHeader ∈ (headers ++ o.security).map Prod.fst ∧
    lower o.correlationIdHeader ∈ (headers ++ o.security).map Prod.fst

variable {o}

theorem hardened_append_iff {headers : Headers} :
    o.Hardened (headers ++ o.security) ↔ o.CarriesIds headers :=
  ⟨fun h => ⟨h.requestId, h.correlationId⟩,
    fun h => ⟨fun _ hx => List.mem_append_right headers hx, h.1, h.2⟩⟩

theorem mem_keys_setItem {out : List (String × String)} {key key' value : String}
    (h : key ∈ out.map Prod.fst) : key ∈ (Audit.setItem out key' value).map Prod.fst := by
  obtain ⟨x, hx, rfl⟩ := List.mem_map.mp h
  rw [Audit.setItem]
  split_ifs
  · refine List.mem_map.mpr ⟨_, List.mem_map.mpr ⟨x, hx, rfl⟩, ?_⟩
    split_ifs with he
    · exact he.symm
    · rfl
  · rw [List.map_append]
    exact List.mem_append_left _ h

theorem mem_keys_update {merged items : List (String × String)} {key : String}
    (h : key ∈ merged.map Prod.fst) : key ∈ (update merged items).map Prod.fst := by
  induction items generalizing merged with
  | nil => exact h
  | cons x items ih => exact ih (mem_keys_setItem h)

/-- Whatever the options say, there is a header against sniffing, which no envelope has. -/
theorem not_hardened_envelope : ¬ o.Hardened [("content-type", "application/json")] := by
  intro h
  have hkey : "X-Content-Type-Options" ∈
      (update (update DEFAULTS o.securityHeaderOverrides) o.securityHeaderExtras).map Prod.fst :=
    mem_keys_update (mem_keys_update (by decide))
  obtain ⟨x, hx, hname⟩ := List.mem_map.mp hkey
  have hmem := List.mem_singleton.mp (h.security _ (List.mem_map.mpr ⟨x, hx, rfl⟩))
  rw [hname] at hmem
  have hne : lower "X-Content-Type-Options" ≠ "content-type" := by decide +kernel
  exact hne (congrArg Prod.fst hmem)

end StackOptions

/-! ### What the starts of a run have in common -/

/-- All starts that were sent satisfy `K`. -/
def AllStarts (K : Headers → Prop) (h : AsgiHistory X Y) : Prop :=
  ∀ status headers, .start status headers ∈ sent h → K headers

/-- The question sends no start, or one with `K`. -/
def StartSat (K : Headers → Prop) (q : AsgiAsk X) : Prop :=
  ∀ status headers, q = .send (.start status headers) → K headers

section Starts

variable {K : Headers → Prop} {env : Env (AsgiAnswer X Y)}

theorem allStarts_of_asks {x : AsgiCode X Y Unit} (hx : Asks (StartSat K) x) :
    AllStarts K (exec env [] x).1 := by
  obtain ⟨g, hg, hasks⟩ := hx.exists_added env []
  rw [hg, List.nil_append]
  intro status headers hmem
  obtain ⟨⟨q, a⟩, hx, hq⟩ := List.mem_filterMap.mp hmem
  refine hasks _ hx status headers ?_
  cases q with
  | send message =>
    obtain rfl : message = .start status headers := Option.some.inj hq
    rfl
  | receive => cases hq
  | newRequestId => cases hq
  | aside x => cases hq

theorem Legal.not_start {m : Message} {rest : List Message} (h : Legal (m :: rest)) (hm : m.isStart = true)
    {status : ℕ} {headers : Headers} : .start status headers ∉ rest := by
  intro hmem
  have hpos : 0 < rest.countP Message.isStart := List.countP_pos_iff.mpr ⟨_, hmem, rfl⟩
  have honce := h.once
  rw [List.countP_cons, if_pos hm] at honce
  omega

theorem allStarts_reply_iff {reply : Reply} :
    AllStarts K (exec env [] (reply.send : AsgiCode X Y Unit)).1 ↔ K reply.headers := by
  obtain ⟨rest, hsent, hlegal⟩ := Layer.exec_reply env [] reply
  rw [AllStarts, hsent]
  constructor
  · exact fun h => h reply.status reply.headers (by simp)
  · intro h status headers hmem
    rcases List.mem_cons.mp hmem with he | hmem
    · cases he
      exact h
    · exact absurd hmem (hlegal.not_start rfl)

/-- A layer adds the start of its answer. -/
theorem allStarts_wrap_iff {l : Layer} {app : App X Y} {scope : Scope} (hscope : scope.type = "http") :
    AllStarts K (exec env [] (l.wrap app scope)).1 ↔ AllStarts K (exec env [] (app scope)).1 ∧
      ∀ exc reply, (exec env [] (app scope)).2 = .error exc → l.catches exc = true →
        l.render exc = .ok reply → K reply.headers := by
  by_cases ha : l.Answers (exec env [] (app scope)).2
  · obtain ⟨exc, reply, hr, hc, hrender⟩ := ha
    obtain ⟨rest, hsent, hlegal⟩ := Layer.sent_wrap_answers l app hscope hr hc hrender
    rw [AllStarts, hsent]
    constructor
    · intro h
      refine ⟨fun status headers hmem => h status headers (List.mem_append_left _ hmem), ?_⟩
      intro exc' reply' hr' hc' hrender'
      obtain rfl : exc' = exc := Except.error.inj (hr'.symm.trans hr)
      obtain rfl : reply' = reply := Except.ok.inj (hrender'.symm.trans hrender)
      exact h reply'.status reply'.headers (by simp)
    · rintro ⟨happ, hreply⟩ status headers hmem
      rcases List.mem_append.mp hmem with hmem | hmem
      · exact happ status headers hmem
      · rcases List.mem_cons.mp hmem with he | hmem
        · cases he
          exact hreply exc reply hr hc hrender
        · exact absurd hmem (hlegal.not_start rfl)
  · rw [AllStarts, Layer.sent_wrap l app hscope ha]
    exact ⟨fun h => ⟨h, fun exc reply hr hc hrender => absurd ⟨exc, reply, hr, hc, hrender⟩ ha⟩, fun h => h.1⟩

theorem asks_withHeaders {K' : Headers → Prop} {g : Headers → Headers} {α : Type} {x : AsgiCode X Y α}
    (hx : Asks (StartSat K) x) (hg : ∀ headers, K headers → K' (g headers)) :
    Asks (StartSat K') (withHeaders g x) := by
  refine hx.relay (fun _ q hq status headers he => ?_) ()
  cases q with
  | send message =>
    cases message with
    | start status' headers' =>
      cases he
      exact hg headers' (hq status headers' rfl)
    | body body moreBody => cases he
  | receive => cases he
  | newRequestId => cases he
  | aside x => cases he

end Starts

/-! ### The stack -/

namespace StackOptions

variable (o : StackOptions)

/-- What `SelectiveCorsMiddleware` adds to the starts of this request. -/
def corsAdded (scope : Scope) : Headers :=
  if o.corsInstalled && o.cors.matchesPath scope.path then o.cors.added scope else []

/-- What the layers below the rate limit answer by themselves: a preflight answer, or a 413. -/
def ownReply (scope : Scope) : Option Reply :=
  if o.corsInstalled && o.cors.matchesPath scope.path && scope.method = some "OPTIONS" then
    some (o.cors.preflightReply (o.cors.allowed? scope))
  else if tooLarge o.bodyLimitBytes scope then
    some { reply413 with headers := reply413.headers ++ o.corsAdded scope }
  else none

variable {o} {app : App X Y} {scope : Scope}

/-- The layers between the rate limit and the application, for a request that is no preflight. -/
theorem below_eq (hscope : scope.type = "http")
    (hpre : (o.corsInstalled && o.cors.matchesPath scope.path && scope.method = some "OPTIONS") = false) :
    o.below app scope =
        bodyLimitMiddleware o.bodyLimitBytes
          (requestIdMiddleware o.requestIdHeader o.correlationIdHeader app) scope ∧ o.corsAdded scope = [] ∨
      o.below app scope = withHeaders (· ++ o.corsAdded scope) (bodyLimitMiddleware o.bodyLimitBytes
        (requestIdMiddleware o.requestIdHeader o.correlationIdHeader app) scope) := by
  unfold below corsAdded
  cases hc : o.corsInstalled with
  | false => exact .inl ⟨rfl, rfl⟩
  | true =>
    simp only [if_true, Bool.true_and]
    unfold selectiveCorsMiddleware
    cases hm : o.cors.matchesPath scope.path with
    | false => simp [hscope]
    | true =>
      rw [hc, hm] at hpre
      have hmethod : scope.method ≠ some "OPTIONS" := by simpa using hpre
      simp [hscope, hmethod]

theorem below_of_ownReply (hscope : scope.type = "http") {reply : Reply}
    (h : o.ownReply scope = some reply) : o.below app scope = reply.send := by
  unfold ownReply at h
  cases hpre : (o.corsInstalled && o.cors.matchesPath scope.path && scope.method = some "OPTIONS") with
  | true =>
    rw [hpre, if_pos rfl] at h
    obtain rfl := Option.some.inj h
    simp only [Bool.and_eq_true, decide_eq_true_eq] at hpre
    obtain ⟨⟨hc, hm⟩, hmethod⟩ := hpre
    rw [below, if_pos hc, selectiveCorsMiddleware]
    simp [hscope, hm, hmethod]
  | false =>
    rw [hpre, if_neg Bool.false_ne_true] at h
    split_ifs at h with hlarge
    obtain rfl := Option.some.inj h
    have hlimit : bodyLimitMiddleware o.bodyLimitBytes
        (requestIdMiddleware o.requestIdHeader o.correlationIdHeader app) scope = reply413.send := by
      rw [bodyLimitMiddleware, if_neg (not_not.mpr hscope), if_pos hlarge]
    rcases o.below_eq hscope hpre with ⟨hb, hadded⟩ | hb
    · rw [hb, hlimit, hadded, List.append_nil]
    · rw [hb, hlimit, withHeaders_reply]

/-- Both ids are among the names. -/
def HasIds (o : StackOptions) (headers : Headers) : Prop :=
  lower o.requestIdHeader ∈ headers.map Prod.fst ∧ lower o.correlationIdHeader ∈ headers.map Prod.fst

theorem HasIds.append {headers : Headers} (h : o.HasIds headers) (more : Headers) :
    o.HasIds (headers ++ more) := by
  unfold HasIds
  rw [List.map_append]
  exact ⟨List.mem_append_left _ h.1, List.mem_append_left _ h.2⟩

theorem asks_requestId (hscope : scope.type = "http") : Asks (StartSat o.HasIds)
    (requestIdMiddleware o.requestIdHeader o.correlationIdHeader app scope) := by
  rw [requestIdMiddleware, if_neg (not_not.mpr hscope)]
  refine .bind ?_ fun rid => ?_
  · unfold requestIdOf
    split
    · exact .pure _
    · exact .perform fun status headers he => by cases he
  · refine asks_withHeaders (K := fun _ => True) (asks_of_forall (fun _ _ _ _ => trivial) _) fun headers _ => ?_
    exact ⟨by simp, by simp⟩

theorem asks_below (hscope : scope.type = "http") (h : o.ownReply scope = none) :
    Asks (StartSat o.HasIds) (o.below app scope) := by
  unfold ownReply at h
  split_ifs at h with hpre hlarge
  have hlimit : Asks (StartSat o.HasIds) (bodyLimitMiddleware o.bodyLimitBytes
      (requestIdMiddleware o.requestIdHeader o.correlationIdHeader app) scope) := by
    rw [bodyLimitMiddleware, if_neg (not_not.mpr hscope), if_neg hlarge]
    exact (asks_requestId hscope).relay (fun _ _ hq => hq) 0
  rcases o.below_eq hscope (by simpa using hpre) with ⟨hb, -⟩ | hb
  · rw [hb]
    exact hlimit
  · rw [hb]
    exact asks_withHeaders hlimit fun headers hids => hids.append _

/-- The starts of the stack below the rate limit, with the security headers. -/
theorem allStarts_below_iff (hscope : scope.type = "http") (env : Env (AsgiAnswer X Y)) :
    AllStarts o.Hardened (exec env [] (withHeaders (· ++ o.security) (o.below app scope))).1 ↔
      ∀ reply, o.ownReply scope = some reply → o.CarriesIds reply.headers := by
  cases hown : o.ownReply scope with
  | none =>
    refine iff_of_true (allStarts_of_asks ?_) fun reply h => by cases h
    refine asks_withHeaders (asks_below hscope hown) fun headers hids => ?_
    exact ⟨fun _ hx => List.mem_append_right headers hx, (hids.append _).1, (hids.append _).2⟩
  | some reply =>
    rw [below_of_ownReply hscope hown, withHeaders_reply, allStarts_reply_iff, hardened_append_iff]
    exact ⟨fun h reply' he => Option.some.inj he ▸ h, fun h => h reply rfl⟩

/-- **Hardened responses**: every start that reaches the server is hardened exactly if the layers below the rate
limit do not answer by themselves, no `RateLimitError` is answered and no exception is turned into an envelope,
answers apart that carry the ids because the options name other headers so. -/
theorem stack_hardened_iff (o : StackOptions) (app : App X Y) (env : Env (AsgiAnswer X Y))
    (method : Option String) (path : String) (headers : Headers) :
    AllStarts o.Hardened
        (exec env [] (o.installMiddlewareStack errors app ⟨"http", method, path, headers⟩)).1 ↔
      (∀ reply, o.ownReply ⟨"http", method, path, headers⟩ = some reply → o.CarriesIds reply.headers) ∧
      (∀ exc reply,
        (exec env [] (withHeaders (· ++ o.security) (o.below app ⟨"http", method, path, headers⟩))).2 =
          .error exc →
        isinstance exc .rateLimitError = true → respond429 errors exc = .ok reply →
        o.CarriesIds reply.headers) ∧
      ¬ (exceptionLogging errors).Answers
        (exec env [] (o.inner errors app ⟨"http", method, path, headers⟩)).2 := by
  have hinner : o.inner errors app ⟨"http", method, path, headers⟩ =
      ((rateLimitHeaders errors).headed (· ++ o.security)).wrap
        (fun scope => withHeaders (· ++ o.security) (o.below app scope)) ⟨"http", method, path, headers⟩ :=
    withHeaders_wrap _ _ _ rfl
  rw [installMiddlewareStack, allStarts_wrap_iff rfl]
  conv_lhs => rw [hinner, allStarts_wrap_iff rfl, allStarts_below_iff rfl]
  rw [and_assoc, ← hinner]
  refine and_congr_right fun _ => and_congr ?_ ?_
  · -- the security headers come on top of what `RateLimitHeadersMiddleware` renders
    refine forall_congr' fun exc => ⟨fun h reply hr hc hrender => ?_, fun h reply hr hc hrender => ?_⟩
    · refine hardened_append_iff.mp (h { reply with headers := reply.headers ++ o.security } hr hc ?_)
      rw [Layer.headed_render, rateLimitHeaders_render, hrender]
      rfl
    · rw [Layer.headed_render, rateLimitHeaders_render] at hrender
      cases h429 : respond429 errors exc with
      | error exc' =>
        rw [h429] at hrender
        cases hrender
      | ok reply' =>
        rw [h429] at hrender
        obtain rfl := Except.ok.inj hrender
        exact hardened_append_iff.mpr (h reply' hr hc h429)
  · constructor
    · rintro h ⟨exc, reply, hr, hc, hrender⟩
      have hheaders := exceptionLogging_headers errors hrender
      exact not_hardened_envelope (hheaders ▸ h exc reply hr hc hrender)
    · exact fun h exc reply hr hc hrender => absurd ⟨exc, reply, hr, hc, hrender⟩ h

/-- An application that raises before it sends. -/
def crashes : App Unit Unit := fun _ => throw ⟨.runtimeError, 0⟩

/-- With the default options its 500 has no security header and no id. -/
theorem crashes_not_hardened : ¬ AllStarts (Hardened {})
    (exec (fun _ => taking) [] (installMiddlewareStack plainErrors {} crashes
      ⟨"http", some "GET", "/", []⟩)).1 := by
  intro h
  have hsent : sent (exec (fun _ => taking) [] (installMiddlewareStack plainErrors {} crashes
      ⟨"http", some "GET", "/", []⟩)).1 =
      [.start 500 [("content-type", "application/json")], .body GENERIC_500.toUTF8.toList false] := rfl
  refine not_hardened_envelope (h 500 [("content-type", "application/json")] ?_)
  rw [hsent]
  exact List.mem_cons_self

end StackOptions

end ResilienceKit.Middleware

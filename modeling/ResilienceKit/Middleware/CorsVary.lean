import ResilienceKit.Middleware.Layers

/-!
# Middleware.CorsVary — what a shared cache makes of CORS responses

Two requests that differ in nothing but `Origin` go through selective CORS to an application that answers both
alike.  `cache_safe_iff` says when the responses are the same or both vary on `Origin`: if the origins are both
allowed or both refused, or if the application says `Vary: Origin` by itself.
-/

namespace ResilienceKit.Middleware

open Program Code

variable {X Y : Type}

/-- The requests are the same but for their `Origin` headers. -/
structure DifferInOrigin (s₁ s₂ : Scope) : Prop where
  type : s₂.type = s₁.type
  method : s₂.method = s₁.method
  path : s₂.path = s₁.path
  headers : (s₂.headers.filter fun x => lowerBytes x.1 ≠ "origin") =
    s₁.headers.filter fun x => lowerBytes x.1 ≠ "origin"

/-- Status and headers of every start. -/
def starts (ms : List Message) : List (ℕ × Headers) :=
  ms.filterMap fun
    | .start status headers => some (status, headers)
    | .body _ _ => none

/-- A member of a list in a header value. -/
def listed (token value : String) : Bool :=
  (value.toList.splitOn ',').any fun cs =>
    lowerBytes (String.ofList ((cs.dropWhile isSpace).reverse.dropWhile isSpace).reverse) = token

/-- Some `Vary` header lists `Origin`. -/
def VaryOrigin (headers : Headers) : Prop := ∃ x ∈ headers, lowerBytes x.1 = "vary" ∧ listed "origin" x.2 = true

/-- If the responses differ, then both vary on `Origin`. -/
def CacheSafe (ms₁ ms₂ : List Message) : Prop :=
  starts ms₁ ≠ starts ms₂ → ∀ x ∈ starts ms₁ ++ starts ms₂, VaryOrigin x.2

/-- The origins are both allowed or both refused. -/
def Cors.Alike (c : Cors) (s₁ s₂ : Scope) : Prop := (c.allowed? s₁).isSome = (c.allowed? s₂).isSome

theorem varyOrigin_append {hs hs' : Headers} : VaryOrigin (hs ++ hs') ↔ VaryOrigin hs ∨ VaryOrigin hs' := by
  simp only [VaryOrigin, List.mem_append, or_and_right, exists_or]

theorem not_varyOrigin_nil : ¬ VaryOrigin [] := by
  rintro ⟨x, hx, -⟩
  cases hx

theorem cacheSafe_of_eq {ms₁ ms₂ : List Message} (h : starts ms₁ = starts ms₂) : CacheSafe ms₁ ms₂ :=
  fun hne => absurd h hne

theorem cacheSafe_of_varyOrigin {ms₁ ms₂ : List Message} (h₁ : ∀ x ∈ starts ms₁, VaryOrigin x.2)
    (h₂ : ∀ x ∈ starts ms₂, VaryOrigin x.2) : CacheSafe ms₁ ms₂ :=
  fun _ => List.forall_mem_append.mpr ⟨h₁, h₂⟩

theorem starts_onStart (g : Headers → Headers) (ms : List Message) :
    starts (ms.map (Message.onStart g)) = (starts ms).map fun x => (x.1, g x.2) := by
  rw [starts, starts, List.filterMap_map, List.map_filterMap]
  refine List.filterMap_congr fun m _ => ?_
  cases m <;> rfl

/-- An answer of the middleware itself is a start, whatever becomes of its body. -/
theorem starts_reply {reply : Reply} {log : AsgiHistory X Y} {r : Except PyExc Unit} (h : Runs reply.send log r) :
    starts (sent log) = [(reply.status, reply.headers)] := by
  obtain ⟨a, rest, rfl, hrest⟩ := h
  cases a with
  | some exc =>
    obtain ⟨rfl, rfl⟩ := hrest
    rfl
  | none =>
    obtain ⟨b, rest, rfl, hrest⟩ := hrest
    cases b <;> obtain ⟨rfl, rfl⟩ := hrest <;> rfl

/-! ### The two branches -/

namespace Cors

variable {c : Cors} {s s₁ s₂ : Scope}

theorem varyOrigin_added : VaryOrigin (c.added s) ↔ (c.allowed? s).isSome = true := by
  rw [added]
  cases c.allowed? s with
  | none => exact iff_of_false not_varyOrigin_nil nofun
  | some origin =>
    exact iff_of_true ⟨("vary", "Origin"), by simp, by decide, by decide +kernel⟩ rfl

theorem varyOrigin_preflightReply :
    VaryOrigin (preflightReply c (c.allowed? s)).headers ↔ (c.allowed? s).isSome = true := by
  cases c.allowed? s with
  | none =>
    refine iff_of_false ?_ nofun
    rintro ⟨x, hx, hname, -⟩
    obtain rfl := List.mem_singleton.mp hx
    exact absurd hname (by decide)
  | some origin =>
    exact iff_of_true ⟨("vary", "Origin"), by simp [preflightReply], by decide, by decide +kernel⟩ rfl

theorem refused_iff : (c.allowed? s).isSome = false ↔ c.allowed? s = none := by
  rw [Option.isSome_eq_false_iff, Option.isNone_iff_eq_none]

theorem added_of_refused (h : (c.allowed? s).isSome = false) : c.added s = [] := by
  rw [added, refused_iff.mp h]

theorem status_preflightReply (o : Option String) :
    (preflightReply c o).status = if o.isSome then 204 else 403 := by
  cases o <;> rfl

/-- Status and headers of the preflight answer to a request. -/
def preflight (c : Cors) (s : Scope) : ℕ × Headers :=
  ((c.preflightReply (c.allowed? s)).status, (c.preflightReply (c.allowed? s)).headers)

/-- Two preflights. -/
theorem cacheSafe_preflight {ms₁ ms₂ : List Message} (h₁ : starts ms₁ = [c.preflight s₁])
    (h₂ : starts ms₂ = [c.preflight s₂]) : CacheSafe ms₁ ms₂ ↔ c.Alike s₁ s₂ := by
  constructor
  · intro hsafe
    by_contra halike
    have hne : starts ms₁ ≠ starts ms₂ := by
      intro heq
      rw [h₁, h₂] at heq
      have hstatus := congrArg Prod.fst (List.singleton_inj.mp heq)
      simp only [preflight, status_preflightReply] at hstatus
      refine halike ?_
      unfold Alike
      cases ha₁ : (c.allowed? s₁).isSome <;> cases ha₂ : (c.allowed? s₂).isSome <;> simp [ha₁, ha₂] at hstatus ⊢
    have hvary := hsafe hne
    rw [h₁, h₂] at hvary
    have hleft := varyOrigin_preflightReply.mp (hvary (c.preflight s₁) List.mem_cons_self)
    have hright := varyOrigin_preflightReply.mp (hvary (c.preflight s₂) (List.mem_cons_of_mem _ List.mem_cons_self))
    exact halike (hleft.trans hright.symm)
  · intro halike
    cases ha : (c.allowed? s₁).isSome with
    | true =>
      refine cacheSafe_of_varyOrigin ?_ ?_
      · rw [h₁, List.forall_mem_singleton]
        exact varyOrigin_preflightReply.mpr ha
      · rw [h₂, List.forall_mem_singleton]
        exact varyOrigin_preflightReply.mpr (halike ▸ ha)
    | false =>
      -- two refusals are the same
      refine cacheSafe_of_eq ?_
      rw [h₁, h₂, preflight, preflight, refused_iff.mp ha, refused_iff.mp (halike ▸ ha)]

/-- Two responses of an application that answers alike. -/
theorem cacheSafe_added {app : List (ℕ × Headers)} {ms₁ ms₂ : List Message}
    (h₁ : starts ms₁ = app.map fun x => (x.1, x.2 ++ c.added s₁))
    (h₂ : starts ms₂ = app.map fun x => (x.1, x.2 ++ c.added s₂)) :
    CacheSafe ms₁ ms₂ ↔ c.Alike s₁ s₂ ∨ ∀ x ∈ app, VaryOrigin x.2 := by
  constructor
  · intro hsafe
    refine or_iff_not_imp_left.mpr fun halike x hx => ?_
    have hne : starts ms₁ ≠ starts ms₂ := by
      intro heq
      rw [h₁, h₂] at heq
      have hadded := List.append_cancel_left (congrArg Prod.snd (List.map_inj_left.mp heq x hx))
      exact halike (Bool.eq_iff_iff.mpr (by rw [← varyOrigin_added, ← varyOrigin_added, hadded]))
    have hvary := hsafe hne
    rw [h₁, h₂] at hvary
    -- one of the origins is refused, and its start is the application's own
    rcases Bool.eq_false_or_eq_true (c.allowed? s₁).isSome with ha₁ | ha₁
    · have ha₂ : (c.allowed? s₂).isSome = false := by
        rw [← Bool.not_eq_true]
        exact fun ha₂ => halike (ha₁.trans ha₂.symm)
      have hstart := hvary (x.1, x.2 ++ c.added s₂) (List.mem_append_right _ (List.mem_map_of_mem hx))
      rwa [added_of_refused ha₂, List.append_nil] at hstart
    · have hstart := hvary (x.1, x.2 ++ c.added s₁) (List.mem_append_left _ (List.mem_map_of_mem hx))
      rwa [added_of_refused ha₁, List.append_nil] at hstart
  · rintro (halike | happ)
    · cases ha : (c.allowed? s₁).isSome with
      | true =>
        refine cacheSafe_of_varyOrigin ?_ ?_
        · rw [h₁, List.forall_mem_map]
          exact fun _ _ => varyOrigin_append.mpr (.inr (varyOrigin_added.mpr ha))
        · rw [h₂, List.forall_mem_map]
          exact fun _ _ => varyOrigin_append.mpr (.inr (varyOrigin_added.mpr (halike ▸ ha)))
      | false =>
        refine cacheSafe_of_eq ?_
        rw [h₁, h₂, added_of_refused ha, added_of_refused (halike ▸ ha)]
    · refine cacheSafe_of_varyOrigin ?_ ?_
      · rw [h₁, List.forall_mem_map]
        exact fun x hx => varyOrigin_append.mpr (.inl (happ x hx))
      · rw [h₂, List.forall_mem_map]
        exact fun x hx => varyOrigin_append.mpr (.inl (happ x hx))

end Cors

/-! ### Two requests -/

/-- A preflight is cache-safe exactly if the origins are both allowed or both refused; a response of an application
that answers both requests alike is so also if each of its starts varies on `Origin` by itself. -/
theorem cache_safe_iff (c : Cors) (app : App X Y) {s₁ s₂ : Scope} (hs : DifferInOrigin s₁ s₂)
    (hhttp : s₁.type = "http") (hpath : c.matchesPath s₁.path = true) {log₁ log₂ : AsgiHistory X Y}
    {r₁ r₂ : Except PyExc Unit} (hr₁ : Runs (selectiveCorsMiddleware c app s₁) log₁ r₁)
    (hr₂ : Runs (selectiveCorsMiddleware c app s₂) log₂ r₂) :
    (s₁.method = some "OPTIONS" → (CacheSafe (sent log₁) (sent log₂) ↔ c.Alike s₁ s₂)) ∧
    (s₁.method ≠ some "OPTIONS" → ∃ inner₁ inner₂, Runs (app s₁) inner₁ r₁ ∧ Runs (app s₂) inner₂ r₂ ∧
      sent log₁ = (sent inner₁).map (Message.onStart (· ++ c.added s₁)) ∧
      sent log₂ = (sent inner₂).map (Message.onStart (· ++ c.added s₂)) ∧
      (starts (sent inner₁) = starts (sent inner₂) → (CacheSafe (sent log₁) (sent log₂) ↔
        c.Alike s₁ s₂ ∨ ∀ x ∈ starts (sent inner₁), VaryOrigin x.2))) := by
  have hin₁ : ¬ (s₁.type ≠ "http" || !c.matchesPath s₁.path) = true := by simp [hhttp, hpath]
  have hin₂ : ¬ (s₂.type ≠ "http" || !c.matchesPath s₂.path) = true := by simp [hs.type, hs.path, hhttp, hpath]
  rw [selectiveCorsMiddleware, if_neg hin₁] at hr₁
  rw [selectiveCorsMiddleware, if_neg hin₂, hs.method] at hr₂
  constructor
  · intro hoptions
    rw [if_pos hoptions] at hr₁ hr₂
    exact Cors.cacheSafe_preflight (starts_reply hr₁) (starts_reply hr₂)
  · intro hoptions
    rw [if_neg hoptions] at hr₁ hr₂
    obtain ⟨inner₁, hruns₁, hsent₁⟩ := sent_withHeaders _ hr₁
    obtain ⟨inner₂, hruns₂, hsent₂⟩ := sent_withHeaders _ hr₂
    refine ⟨inner₁, inner₂, hruns₁, hruns₂, hsent₁, hsent₂, fun hsame => Cors.cacheSafe_added ?_ ?_⟩
    · rw [hsent₁, starts_onStart]
    · rw [hsent₂, starts_onStart, hsame]

def apiCors : Cors where
  allowOrigins := ["https://app.example"]
  pathPrefixes := ["/api"]

/-- A request from an allowed origin, and the same request without one. -/
def fromApp : Scope := ⟨"http", some "GET", "/api/v1/x", [("origin", "https://app.example")]⟩

def fromNowhere : Scope := ⟨"http", some "GET", "/api/v1/x", []⟩

/-- An application that does not look at the request. -/
def plain : App Unit Unit := fun _ => Reply.send ⟨200, [("cache-control", "max-age=60")], []⟩

def plainLog (headers : Headers) : AsgiHistory Unit Unit :=
  [⟨.send (.start 200 (("cache-control", "max-age=60") :: headers)), none⟩, ⟨.send (.body [] false), none⟩]

theorem differInOrigin_fromApp : DifferInOrigin fromApp fromNowhere :=
  ⟨rfl, rfl, rfl, by decide⟩

theorem runs_fromApp : Runs (selectiveCorsMiddleware apiCors plain fromApp)
    (plainLog [("access-control-allow-origin", "https://app.example"), ("vary", "Origin")]) (.ok ()) := by
  have hadded : apiCors.added fromApp =
      [("access-control-allow-origin", "https://app.example"), ("vary", "Origin")] := by decide
  rw [selectiveCorsMiddleware, if_neg (by decide), if_neg (by decide), hadded]
  exact ⟨_, _, rfl, _, _, rfl, rfl, rfl⟩

theorem runs_fromNowhere : Runs (selectiveCorsMiddleware apiCors plain fromNowhere) (plainLog []) (.ok ()) := by
  have hadded : apiCors.added fromNowhere = [] := by decide
  rw [selectiveCorsMiddleware, if_neg (by decide), if_neg (by decide), hadded]
  exact ⟨_, _, rfl, _, _, rfl, rfl, rfl⟩

theorem cache_safe_iff_plain : ∃ inner₁ inner₂, Runs (plain fromApp) inner₁ (.ok ()) ∧
    Runs (plain fromNowhere) inner₂ (.ok ()) ∧
    (starts (sent inner₁) = starts (sent inner₂) →
      (CacheSafe (sent (plainLog [("access-control-allow-origin", "https://app.example"), ("vary", "Origin")]))
        (sent (plainLog [])) ↔ apiCors.Alike fromApp fromNowhere ∨ ∀ x ∈ starts (sent inner₁), VaryOrigin x.2)) := by
  obtain ⟨inner₁, inner₂, h₁, h₂, -, -, h⟩ := (cache_safe_iff apiCors plain differInOrigin_fromApp rfl
    (by decide +kernel) runs_fromApp runs_fromNowhere).2 (by decide)
  exact ⟨inner₁, inner₂, h₁, h₂, h⟩

/-- An application that does not look at the request answers an allowed origin and no origin; the second response
may be cached for all origins. -/
theorem unvaried_response : DifferInOrigin fromApp fromNowhere ∧ plain fromApp = plain fromNowhere ∧
    ∃ log₁ log₂, Runs (selectiveCorsMiddleware apiCors plain fromApp) log₁ (.ok ()) ∧
      Runs (selectiveCorsMiddleware apiCors plain fromNowhere) log₂ (.ok ()) ∧
      ¬ CacheSafe (sent log₁) (sent log₂) := by
  refine ⟨differInOrigin_fromApp, rfl, _, _, runs_fromApp, runs_fromNowhere, fun hsafe => ?_⟩
  obtain ⟨x, hx, hname, -⟩ := hsafe (by decide) (200, [("cache-control", "max-age=60")]) (by decide)
  obtain rfl := List.mem_singleton.mp hx
  exact absurd hname (by decide +kernel)

end ResilienceKit.Middleware

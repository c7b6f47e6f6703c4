import ResilienceKit.Ssrf.Guard

/-!
# Ssrf.Failures — the exceptions that leave the guard

The docstrings name `ValidationError` alone.  `safe_host` catches the `ValueError` that `urlparse` raises
over a malformed authority; the two validators do not, and no one catches the `UnicodeError` of a resolver
that is given a name it cannot encode.  `guard_fails_iff` says for which URLs nothing else than a
`ValidationError` gets out.
-/

namespace ResilienceKit.Ssrf

open UrlParse

variable {p : Platform} {settings : SSRFSettings} {α : Type}

/-- `safe_host` -/
def safeHost (p : Platform) (url : String) : String :=
  match urlsplit p.toUnicode url with
  | none => "external service"
  | some parsed => (hostname p.toUnicode parsed).getD "external service"

/-- The call returns, or raises the kit's own error. -/
def Answered : Except GuardError α → Prop
  | .ok _ => True
  | .error (.validationError _ _) => True
  | .error _ => False

/-- `ipaddress` reads what the resolver answers, and what it has written itself. -/
structure Platform.Textual (p : Platform) : Prop where
  resolved : ∀ host addrs, p.getaddrinfo host = .ok addrs → ∀ a ∈ addrs, (p.ip_address a).isSome = true
  written : ∀ s ip, p.ip_address s = some ip → (p.ip_address ip.text).isSome = true

/-- The host that the guard resolves, if it gets that far. -/
def requestedHost (p : Platform) (url : String) : Option String :=
  (urlsplit p.toUnicode url).bind fun parsed =>
    if String.ofList parsed.scheme ∈ ["http", "https"] then hostname p.toUnicode parsed else none

/-- The resolver cannot encode the name. -/
def Unencodable (p : Platform) (host : String) : Prop :=
  p.ip_address host = none ∧ p.getaddrinfo host = .error .unicodeError

/-! ### The parts of the guard -/

theorem resolve_answered_iff (host url : String) (strict : Bool) :
    Answered (resolve p host url strict) ↔ ¬ Unencodable p host := by
  unfold resolve Unencodable
  cases hip : p.ip_address host with
  | some literal => simp [Answered]
  | none =>
    cases hres : p.getaddrinfo host with
    | ok addrs => simp [Answered]
    | error e =>
      cases e with
      | unicodeError => simp [Answered]
      | gaierror => cases strict <;> simp [Answered]

theorem resolve_textual (hp : p.Textual) {host url : String} {strict : Bool} {addrs : List String}
    (h : resolve p host url strict = .ok addrs) : ∀ a ∈ addrs, (p.ip_address a).isSome = true := by
  unfold resolve at h
  cases hip : p.ip_address host with
  | some literal =>
    rw [hip] at h
    cases h
    intro a ha
    rw [List.mem_singleton.mp ha]
    exact hp.written host literal hip
  | none =>
    rw [hip] at h
    cases hres : p.getaddrinfo host with
    | ok addrs' =>
      rw [hres] at h
      cases h
      exact hp.resolved host addrs hres
    | error e =>
      rw [hres] at h
      cases e with
      | unicodeError => cases h
      | gaierror =>
        cases strict with
        | true => cases h
        | false =>
          cases h
          exact fun a ha => absurd ha List.not_mem_nil

theorem rejectNonPublic_answered (url host : String) {addrs : List String}
    (h : ∀ a ∈ addrs, (p.ip_address a).isSome = true) :
    Answered (rejectNonPublic p url host addrs) := by
  induction addrs with
  | nil => trivial
  | cons addr addrs ih =>
    obtain ⟨ip, hip⟩ := Option.isSome_iff_exists.mp (h addr List.mem_cons_self)
    have hrest := ih fun a ha => h a (List.mem_cons_of_mem _ ha)
    unfold rejectNonPublic classifyNonPublic
    rw [hip]
    dsimp only
    split
    · rename_i heq
      cases heq
    · exact hrest
    · trivial

/-- **Spec of the failures of `resolve_and_validate`**. -/
theorem resolveAndValidate_answered_iff (hp : p.Textual) (hb : settings.block_private_ips = true)
    {url : String} {strict : Bool} : Answered (resolveAndValidate p settings url strict) ↔
      Accepts p.toUnicode url ∧ ∀ host, requestedHost p url = some host → ¬ Unencodable p host := by
  unfold resolveAndValidate requestedHost
  rw [if_neg (by simp [hb])]
  cases hs : urlsplit p.toUnicode url with
  | none =>
    have hno := urlsplit_eq_none_iff.mp hs
    exact iff_of_false (fun h => h) fun h => hno h.1
  | some parsed =>
    have hacc : Accepts p.toUnicode url := by
      by_contra hno
      rw [urlsplit_eq_none_iff.mpr hno] at hs
      cases hs
    dsimp only
    rw [Option.bind_some]
    by_cases hscheme : String.ofList parsed.scheme ∈ ["http", "https"]
    · rw [if_neg (not_not.mpr hscheme), if_pos hscheme]
      cases hh : hostname p.toUnicode parsed with
      | none => exact iff_of_true trivial ⟨hacc, fun host h => by cases h⟩
      | some host =>
        have hres := resolve_answered_iff (p := p) host url strict
        simp only [Option.some.injEq, forall_eq', hacc, true_and]
        rw [← hres]
        cases hr : resolve p host url strict with
        | error e => exact Iff.rfl
        | ok addrs =>
          have hrej := rejectNonPublic_answered url host (resolve_textual hp hr)
          dsimp only
          cases hrj : rejectNonPublic p url host addrs with
          | error e =>
            rw [hrj] at hrej
            cases e with
            | validationError message details => exact iff_of_true trivial trivial
            | valueError => exact hrej.elim
            | unicodeError => exact hrej.elim
          | ok _ => exact iff_of_true trivial trivial
    · rw [if_pos hscheme, if_neg hscheme]
      exact iff_of_true trivial ⟨hacc, fun host h => by cases h⟩

/-- `assert_allowed_url` fails with another error only where an allow-list makes it parse the URL. -/
theorem assertAllowedUrl_answered {url : String} (h : Accepts p.toUnicode url) :
    Answered (assertAllowedUrl p settings url) := by
  unfold assertAllowedUrl
  dsimp only
  split_ifs with hopen
  · trivial
  · cases hs : urlsplit p.toUnicode url with
    | none => exact absurd h (urlsplit_eq_none_iff.mp hs)
    | some parsed =>
      dsimp only
      split_ifs <;> trivial

/-- What a non-empty answer of the guard promises. -/
def Vetted (p : Platform) (url : String) (addrs : List String) : Prop :=
  ∃ host, requestedHost p url = some host ∧ ∀ addr ∈ addrs, classifyNonPublic p addr = .ok none

theorem resolveAndValidate_vetted {url : String} {strict : Bool} {addrs : List String}
    (h : resolveAndValidate p settings url strict = .ok addrs) (hne : addrs ≠ []) :
    Vetted p url addrs := by
  obtain ⟨parsed, host, hsplit, hscheme, hhost, -, hpublic⟩ := resolveAndValidate_ok h hne
  refine ⟨host, ?_, hpublic⟩
  rw [requestedHost, hsplit, Option.bind_some, if_pos hscheme, hhost]

/-- With private addresses blocked, for every URL, resolver and allow-list: the two validators return or
raise a `ValidationError`, and a non-empty answer is vetted, exactly if the authority of the URL is
accepted and the resolver can encode the name it is asked for. -/
theorem guard_fails_iff (hp : p.Textual) (hb : settings.block_private_ips = true) (url : String) :
    ((∀ strict, Answered (resolveAndValidate p settings url strict)) ∧
        Answered (assertAllowedUrl p settings url) ∧
        ∀ strict addrs, resolveAndValidate p settings url strict = .ok addrs → addrs ≠ [] →
          Vetted p url addrs) ↔
      Accepts p.toUnicode url ∧ ∀ host, requestedHost p url = some host → ¬ Unencodable p host := by
  constructor
  · rintro ⟨hall, -, -⟩
    exact (resolveAndValidate_answered_iff hp hb).mp (hall true)
  · intro h
    exact ⟨fun strict => (resolveAndValidate_answered_iff hp hb).mpr h, assertAllowedUrl_answered h.1,
      fun strict addrs hok hne => resolveAndValidate_vetted hok hne⟩

/-- A platform that knows one address and cannot encode a name. -/
def sampleResolver : Platform where
  lower s := s
  netlocOk _ := true
  ip_address s := if s = "8.8.8.8" then some { text := "8.8.8.8" } else none
  getaddrinfo host := if host = "public.example" then .ok ["8.8.8.8"] else .error .unicodeError

theorem guard_fails_iff_public :
    ((∀ strict, Answered (resolveAndValidate sampleResolver {} "https://public.example/" strict)) ∧
        Answered (assertAllowedUrl sampleResolver {} "https://public.example/") ∧
        ∀ strict addrs, resolveAndValidate sampleResolver {} "https://public.example/" strict = .ok addrs →
          addrs ≠ [] → Vetted sampleResolver "https://public.example/" addrs) ↔
      Accepts sampleResolver.toUnicode "https://public.example/" ∧
        ∀ host, requestedHost sampleResolver "https://public.example/" = some host →
          ¬ Unencodable sampleResolver host := by
  refine guard_fails_iff ⟨?_, ?_⟩ rfl "https://public.example/"
  · intro host addrs h a ha
    simp only [sampleResolver] at h ⊢
    split_ifs at h
    cases h
    rw [List.mem_singleton.mp ha]
    rfl
  · intro s ip h
    simp only [sampleResolver] at h ⊢
    split_ifs at h
    cases h
    rfl

/-- A `ValueError` over an open bracket leaves both validators, where `safe_host` catches it, and the
`UnicodeError` of the resolver leaves the first. -/
theorem other_errors_escape :
    resolveAndValidate sampleResolver {} "http://[" true = .error .valueError ∧
      assertAllowedUrl sampleResolver { outbound_allowlist := ["public.example"] } "http://[" =
        .error .valueError ∧
      safeHost sampleResolver "http://[" = "external service" ∧
      resolveAndValidate sampleResolver {} "http://a..b/" false = .error .unicodeError := by
  decide +kernel

end ResilienceKit.Ssrf

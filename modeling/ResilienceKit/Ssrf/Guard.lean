import ResilienceKit.Lib.UrlParse

/-!
# Ssrf.Guard — `resolve_and_validate` and `assert_allowed_url`

What the guard asks of `urllib`, `ipaddress` and the resolver is a `Platform`.  A set of addresses is the
list of its members.
-/

namespace ResilienceKit.Ssrf

open UrlParse

/-- An address as `ipaddress.ip_address` answers it. -/
structure IpAddress where
  text : String
  is_loopback : Bool := false
  is_link_local : Bool := false
  is_multicast : Bool := false
  is_unspecified : Bool := false
  is_private : Bool := false
  is_reserved : Bool := false
  deriving DecidableEq, Repr

inductive ResolverError
  | gaierror | unicodeError
  deriving DecidableEq, Repr

structure Platform extends Unicode where
  /-- No address is a `ValueError`. -/
  ip_address : String → Option IpAddress
  getaddrinfo : String → Except ResolverError (List String)

structure SSRFSettings where
  block_private_ips : Bool := true
  outbound_allowlist : List String := ["*"]

inductive GuardError
  | validationError (message : String) (details : List (String × List String))
  | valueError
  | unicodeError
  deriving DecidableEq, Repr

variable (p : Platform) (settings : SSRFSettings)

def classifyNonPublic (addr : String) : Except GuardError (Option String) :=
  match p.ip_address addr with
  | none => .error .valueError
  | some ip => .ok (([(ip.is_loopback, "loopback"), (ip.is_link_local, "link_local"),
      (ip.is_multicast, "multicast"), (ip.is_unspecified, "unspecified"), (ip.is_private, "private"),
      (ip.is_reserved, "reserved")].find? fun flag => flag.1).map fun flag => flag.2)

/-- `_resolve` -/
def resolve (host url : String) (strict : Bool) : Except GuardError (List String) :=
  match p.ip_address host with
  | some literal => .ok [literal.text]
  | none =>
    match p.getaddrinfo host with
    | .ok addrs => .ok addrs
    | .error .unicodeError => .error .unicodeError
    | .error .gaierror =>
      if strict then .error (.validationError s!"URL hostname '{host}' could not be resolved."
        [("url", [url]), ("host", [host])])
      else .ok []

/-- The loop that rejects the first address that is not public. -/
def rejectNonPublic (url host : String) : List String → Except GuardError Unit
  | [] => .ok ()
  | addr :: addrs =>
    match classifyNonPublic p addr with
    | .error e => .error e
    | .ok none => rejectNonPublic url host addrs
    | .ok (some reason) =>
      .error (.validationError s!"URL resolves to a non-public address ({addr}: {reason})."
        [("url", [url]), ("host", [host]), ("address", [addr]), ("reason", [reason])])

def resolveAndValidate (url : String) (strict : Bool) : Except GuardError (List String) :=
  if !settings.block_private_ips then .ok []
  else
    match urlsplit p.toUnicode url with
    | none => .error .valueError
    | some parsed =>
      let scheme := String.ofList parsed.scheme
      if scheme ∉ ["http", "https"] then
        .error (.validationError s!"URL scheme '{scheme}' is not allowed (only http/https)."
          [("url", [url]), ("scheme", [scheme])])
      else
        match hostname p.toUnicode parsed with
        | none => .error (.validationError "URL has no hostname." [("url", [url])])
        | some host =>
          match resolve p host url strict with
          | .error e => .error e
          | .ok addrs =>
            match rejectNonPublic p url host addrs with
            | .error e => .error e
            | .ok () => .ok addrs

/-- An entry is an exact host, or a suffix that starts with a dot. -/
def entryAllows (host entry : String) : Bool :=
  match entry.toList with
  | '.' :: suffix => decide (host.toList = suffix) || entry.toList.isSuffixOf host.toList
  | _ => decide (host = entry)

def assertAllowedUrl (url : String) : Except GuardError Unit :=
  let allow := settings.outbound_allowlist
  if allow = [] ∨ "*" ∈ allow then .ok ()
  else
    match urlsplit p.toUnicode url with
    | none => .error .valueError
    | some parsed =>
      let host := p.lower ((hostname p.toUnicode parsed).getD "")
      if host = "" then .error (.validationError "URL has no hostname." [("url", [url])])
      else if (allow.map p.lower).any (entryAllows host) then .ok ()
      else .error (.validationError s!"Outbound URL host '{host}' is not in outbound_allowlist."
        [("url", [url]), ("host", [host]), ("allowlist", allow)])

variable {p settings}

theorem rejectNonPublic_ok {url host : String} {addrs : List String}
    (h : rejectNonPublic p url host addrs = .ok ()) :
    ∀ addr ∈ addrs, classifyNonPublic p addr = .ok none := by
  induction addrs with
  | nil => simp
  | cons addr addrs ih =>
    unfold rejectNonPublic at h
    cases hc : classifyNonPublic p addr with
    | error e => simp [hc] at h
    | ok reason =>
      cases reason with
      | some r => simp [hc] at h
      | none =>
        simp only [hc] at h
        intro a ha
        rcases List.mem_cons.mp ha with rfl | ha
        · exact hc
        · exact ih h a ha

/-- **Spec of the guard**: a non-empty answer comes of a parsed URL with a hostname, and every address
in it is classified as public. -/
theorem resolveAndValidate_ok {url : String} {strict : Bool} {addrs : List String}
    (h : resolveAndValidate p settings url strict = .ok addrs) (hne : addrs ≠ []) :
    ∃ parsed host, urlsplit p.toUnicode url = some parsed ∧
      String.ofList parsed.scheme ∈ ["http", "https"] ∧
      hostname p.toUnicode parsed = some host ∧ resolve p host url strict = .ok addrs ∧
      ∀ addr ∈ addrs, classifyNonPublic p addr = .ok none := by
  unfold resolveAndValidate at h
  split_ifs at h with hb
  · cases h
    exact absurd rfl hne
  cases hs : urlsplit p.toUnicode url with
  | none => simp [hs] at h
  | some parsed =>
    simp only [hs] at h
    split_ifs at h with hscheme
    cases hh : hostname p.toUnicode parsed with
    | none => simp [hh] at h
    | some host =>
      simp only [hh] at h
      cases hr : resolve p host url strict with
      | error e => simp [hr] at h
      | ok addrs' =>
        simp only [hr] at h
        cases hp : rejectNonPublic p url host addrs' with
        | error e => simp [hp] at h
        | ok _ =>
          simp only [hp] at h
          cases h
          exact ⟨parsed, host, rfl, hscheme, hh, hr, rejectNonPublic_ok hp⟩

theorem ip_address_of_classify {addr : String} {reason : Option String}
    (h : classifyNonPublic p addr = .ok reason) : (p.ip_address addr).isSome = true := by
  unfold classifyNonPublic at h
  cases hip : p.ip_address addr with
  | none => simp [hip] at h
  | some ip => rfl

end ResilienceKit.Ssrf

import Mathlib
import ResilienceKit.Ssrf.Guard

/-!
# HttpClient.DnsPin — the pin from validation to connect

`request` validates the URL, pins the addresses under the hostname that `urllib` reads, and the transport
looks the pin up under the host that `httpx` shows.  `httpx` and IDNA are parameters (`Httpx`, `Idna`)
with their documented behaviour (`Documented`).  The two names agree exactly for the hosts that are
`Recoverable`; for the others the request goes on to ordinary DNS.
-/

namespace ResilienceKit.HttpClient

open UrlParse Ssrf

/-! ### The pin -/

/-- A dict from hostname to addresses, in the order of insertion. -/
abbrev Pins := List (String × List String)

/-- `d.get(key)`; a later entry replaces an earlier one. -/
def Pins.get (d : Pins) (key : String) : Option (List String) := d.reverse.lookup key

variable (p : Platform)

/-- What `pinned` puts into the context variable. -/
def pinned (hostToIps : Pins) : Pins := hostToIps.map fun (host, ips) => (p.lower host, ips)

/-- `_pick_pinned_ip`; no pins is the context variable's default. -/
def pickPinnedIp (pins : Option Pins) (host : String) : Option String :=
  match pins with
  | none => none
  | some [] => none
  | some d =>
    match d.get (p.lower host) with
    | none => none
    | some ips => (ips.insertionSort (· ≤ ·)).head?

/-! ### The transport and the client -/

/-- What the kit uses of `httpx`; `U` is `httpx.URL`. -/
structure Httpx (U : Type) where
  /-- `httpx.URL(text)`; no URL is `InvalidURL`. -/
  url : String → Option U
  /-- `URL.host`; no host is an IDNA error. -/
  host : U → Option String
  /-- `URL.copy_with(host=…)` -/
  copyWithHost : U → String → U

structure Request (U : Type) where
  url : U
  headers : List (String × String) := []
  sniHostname : Option String := none
  deriving DecidableEq

/-- `headers.setdefault`; header names are compared without case. -/
def setdefault (name value : String) (headers : List (String × String)) : List (String × String) :=
  if headers.any fun h => decide (p.lower h.1 = p.lower name) then headers
  else headers ++ [(name, value)]

inductive ClientError
  | guard (e : GuardError)
  | invalidURL
  | idnaError
  deriving DecidableEq, Repr

variable {U : Type} (x : Httpx U)

/-- `PinnedHTTPTransport.handle_async_request`: the request its parent gets. -/
def handleAsyncRequest (pins : Option Pins) (request : Request U) :
    Except ClientError (Request U) :=
  match x.host request.url with
  | none => .error .idnaError
  | some originalHost =>
    match pickPinnedIp p pins originalHost with
    | none => .ok request
    | some pinnedIp => .ok {
        url := x.copyWithHost request.url pinnedIp
        headers := setdefault p "Host" originalHost request.headers
        sniHostname := some originalHost }

/-- The key under which `AsyncAPIClient.request` pins. -/
def requestHost (url : String) : String :=
  p.lower (((urlsplit p.toUnicode url).bind (hostname p.toUnicode)).getD "")

/-- `AsyncAPIClient.request` up to the parent of the transport, for one attempt; `headers` are those of
the request that `httpx` builds. -/
def request (settings : SSRFSettings) (checkSsrf : Bool) (url : String)
    (headers : List (String × String)) : Except ClientError (Request U) :=
  match if checkSsrf then resolveAndValidate p settings url true else .ok [] with
  | .error e => .error (.guard e)
  | .ok resolvedIps =>
    match assertAllowedUrl p settings url with
    | .error e => .error (.guard e)
    | .ok () =>
      let host := requestHost p url
      let pins := if resolvedIps ≠ [] ∧ host ≠ "" then some (pinned p [(host, resolvedIps)]) else none
      match x.url url with
      | none => .error .invalidURL
      | some u => handleAsyncRequest p x pins { url := u, headers := headers }

/-! ### The two names of a host -/

structure Idna where
  encode : String → Option String
  decode : String → Option String

def isAscii (s : String) : Bool := s.toList.all fun c => decide (c.toNat < 128)

/-- The ACE prefix. -/
def isXn (s : String) : Bool := "xn--".toList.isPrefixOf s.toList

/-- What `URL.host` shows for a host: its ASCII form in lower case, decoded when it starts with the ACE
prefix. -/
def presented (d : Idna) (host : String) : Option String :=
  (if isAscii host then some (p.lower host) else d.encode (p.lower host)).bind fun a =>
    if isXn a then d.decode a else some a

/-- The documented behaviour of the Unicode tables, of `httpx` and of IDNA. -/
structure Documented (d : Idna) : Prop where
  lower_ne : ∀ s, s ≠ "" → p.lower s ≠ ""
  lower_ascii : ∀ s, isAscii s = true → p.lower s = String.ofList (s.toList.map Char.toLower)
  host_eq : ∀ (u : AbsoluteUrl) v, x.url u.text = some v →
    x.host v = presented p d (String.ofList u.host)
  host_copy : ∀ v ip, (p.ip_address ip).isSome = true → x.host (x.copyWithHost v ip) = some ip
  /-- A decoded name does not start with the ACE prefix, in any case. -/
  decode_plain : ∀ a w, d.decode a = some w → isXn (p.lower w) = false

/-- The host in lower case, as it stands in the pins. -/
def pinKey (host : List Char) : String := p.lower (p.lower (lowerHost p.toUnicode host))

/-- ASCII without the ACE prefix, or a Unicode host that its IDNA form gives back in lower case. -/
def Recoverable (d : Idna) (host : List Char) : Prop :=
  if isAscii (String.ofList host) then isXn (p.lower (String.ofList host)) = false
  else ∃ a, d.encode (p.lower (String.ofList host)) = some a ∧
    if isXn a then ∃ w, d.decode a = some w ∧ p.lower w = pinKey p host
    else p.lower a = pinKey p host

/-- The parent gets a request for one of the addresses, with the name kept for TLS. -/
def Rewritten (addrs : List String) (req : Request U) : Prop :=
  ∃ ip ∈ addrs, x.host req.url = some ip ∧ req.sniHostname.isSome = true

instance (addrs : List String) (req : Request U) : Decidable (Rewritten x addrs req) :=
  inferInstanceAs (Decidable (∃ ip ∈ addrs, _))

variable {p x} {d : Idna}

/-! ### ASCII hosts in lower case -/

theorem toLower_lt {c : Char} (h : c.toNat < 128) : c.toLower.toNat < 128 := by
  by_cases hu : c.isUpper = true
  · have hle : c.toNat ≤ 90 := by
      have := hu
      simp only [Char.isUpper, ge_iff_le, decide_eq_true_eq, UInt32.le_iff_toNat_le] at this
      exact this.2
    rw [Char.toLower_eq_of_isUpper hu, Char.toNat_ofNat, if_pos (.inl (by omega))]
    omega
  · rwa [Char.toLower_eq_of_not_isUpper hu]

theorem isAscii_ofList {l : List Char} :
    isAscii (String.ofList l) = true ↔ ∀ c ∈ l, c.toNat < 128 := by
  simp [isAscii]

section Lower

variable (hdoc : Documented p x d)

include hdoc

theorem isAscii_lower {s : String} (h : isAscii s = true) : isAscii (p.lower s) = true := by
  have hs := isAscii_ofList.mp (String.ofList_toList (s := s) ▸ h)
  rw [hdoc.lower_ascii s h, isAscii_ofList]
  intro c hc
  obtain ⟨c', hc', rfl⟩ := List.mem_map.mp hc
  exact toLower_lt (hs c' hc')

theorem lower_lower {s : String} (h : isAscii s = true) : p.lower (p.lower s) = p.lower s := by
  rw [hdoc.lower_ascii _ (isAscii_lower hdoc h), hdoc.lower_ascii s h, String.toList_ofList,
    List.map_map]
  congr 1
  refine List.map_congr_left fun c _ => ?_
  exact Char.toLower_toLower_eq_toLower c

/-- An ASCII host has one name in lower case, whatever is cut off as a zone. -/
theorem pinKey_ascii {host : List Char} (h : isAscii (String.ofList host) = true) :
    pinKey p host = p.lower (String.ofList host) := by
  obtain ⟨⟨front, percent, zone⟩, hpart⟩ : ∃ parts, parts = partition '%' host := ⟨_, rfl⟩
  have hjoin := partition_join '%' host
  rw [← hpart] at hjoin
  dsimp only at hjoin
  set rest := if percent then '%' :: zone else [] with hrest
  have hall : ∀ c ∈ front ++ rest, c.toNat < 128 := by
    rw [hjoin]
    exact isAscii_ofList.mp h
  have hfront : isAscii (String.ofList front) = true :=
    isAscii_ofList.mpr fun c hc => hall c (List.mem_append_left _ hc)
  have hlower : lowerHost p.toUnicode host = String.ofList (front.map Char.toLower ++ rest) := by
    unfold lowerHost
    rw [← hpart]
    dsimp only
    rw [← hrest, hdoc.lower_ascii _ hfront, String.toList_ofList, String.ofList_append]
  have hascii : isAscii (lowerHost p.toUnicode host) = true := by
    rw [hlower, isAscii_ofList]
    intro c hc
    rcases List.mem_append.mp hc with hc | hc
    · obtain ⟨c', hc', rfl⟩ := List.mem_map.mp hc
      exact toLower_lt (hall c' (List.mem_append_left _ hc'))
    · exact hall c (List.mem_append_right _ hc)
  unfold pinKey
  rw [lower_lower hdoc hascii, hdoc.lower_ascii _ hascii, hdoc.lower_ascii _ h, hlower,
    String.toList_ofList, String.toList_ofList, ← hjoin]
  congr 1
  rw [List.map_append, List.map_append, List.map_map]
  congr 1
  refine List.map_congr_left fun c _ => ?_
  exact Char.toLower_toLower_eq_toLower c

/-- **The two names agree** exactly for recoverable hosts. -/
theorem found_iff {host : List Char} {shown : String}
    (hs : presented p d (String.ofList host) = some shown) :
    p.lower shown = pinKey p host ↔ Recoverable p d host := by
  unfold presented at hs
  unfold Recoverable
  by_cases hascii : isAscii (String.ofList host) = true
  · rw [if_pos hascii, Option.bind_some] at hs
    rw [if_pos hascii, pinKey_ascii hdoc hascii]
    cases hx : isXn (p.lower (String.ofList host)) with
    | true =>
      rw [if_pos hx] at hs
      have hplain := hdoc.decode_plain _ _ hs
      constructor
      · intro he
        rw [he, hx] at hplain
        exact hplain
      · nofun
    | false =>
      rw [if_neg (by simp [hx])] at hs
      cases hs
      exact ⟨fun _ => rfl, fun _ => lower_lower hdoc hascii⟩
  · rw [if_neg hascii] at hs ⊢
    obtain ⟨a, ha, hshown⟩ := Option.bind_eq_some_iff.mp hs
    constructor
    · intro he
      refine ⟨a, ha, ?_⟩
      split_ifs at hshown ⊢
      · exact ⟨shown, hshown, he⟩
      · cases hshown
        exact he
    · rintro ⟨a', ha', hback⟩
      cases ha.symm.trans ha'
      split_ifs at hshown hback
      · obtain ⟨w, hw, he⟩ := hback
        cases hshown.symm.trans hw
        exact he
      · cases hshown
        exact hback

theorem lowerHost_ne {host : List Char} (h : host ≠ []) : lowerHost p.toUnicode host ≠ "" := by
  obtain ⟨⟨front, percent, zone⟩, hpart⟩ : ∃ parts, parts = partition '%' host := ⟨_, rfl⟩
  have hjoin := partition_join '%' host
  rw [← hpart] at hjoin
  dsimp only at hjoin
  unfold lowerHost
  rw [← hpart]
  dsimp only
  intro he
  obtain ⟨hfront, hrest⟩ := String.append_eq_empty_iff.mp he
  have hfront' : front = [] := by
    by_contra hf
    refine hdoc.lower_ne (String.ofList front) (fun h0 => hf ?_) hfront
    simpa using h0
  rw [hfront', List.nil_append] at hjoin
  exact h (hjoin.symm.trans (by simpa using hrest))

end Lower

/-! ### From validation to the parent of the transport -/

theorem head_sorted_mem {addrs : List String} (hne : addrs ≠ []) :
    ∃ ip ∈ addrs, (addrs.insertionSort (· ≤ ·)).head? = some ip := by
  have hperm := List.perm_insertionSort (· ≤ ·) addrs
  cases hsorted : addrs.insertionSort (· ≤ ·) with
  | nil =>
    rw [hsorted] at hperm
    exact absurd hperm.symm.eq_nil hne
  | cons ip rest =>
    refine ⟨ip, hperm.subset ?_, rfl⟩
    rw [hsorted]
    exact List.mem_cons_self

/-- Looking up the only pin. -/
theorem pickPinnedIp_pinned (key host : String) (addrs : List String) :
    pickPinnedIp p (some (pinned p [(key, addrs)])) host =
      if p.lower host = p.lower key then (addrs.insertionSort (· ≤ ·)).head? else none := by
  by_cases h : p.lower host = p.lower key
  · simp [pickPinnedIp, pinned, Pins.get, h]
  · have hb : (p.lower host == p.lower key) = false := beq_eq_false_iff_ne.mpr h
    simp [pickPinnedIp, pinned, Pins.get, h, hb, List.lookup]

/-- The transport rewrites exactly when it finds the pin. -/
theorem handleAsyncRequest_pinned {key : String} {addrs : List String} {req₀ req : Request U}
    (hdoc : Documented p x d) (hsni : req₀.sniHostname = none) (hne : addrs ≠ [])
    (haddr : ∀ ip ∈ addrs, (p.ip_address ip).isSome = true)
    (h : handleAsyncRequest p x (some (pinned p [(key, addrs)])) req₀ = .ok req) :
    ∃ shown, x.host req₀.url = some shown ∧
      (Rewritten x addrs req ↔ p.lower shown = p.lower key) := by
  unfold handleAsyncRequest at h
  cases hx : x.host req₀.url with
  | none => simp [hx] at h
  | some shown =>
    refine ⟨shown, rfl, ?_⟩
    simp only [hx] at h
    rw [pickPinnedIp_pinned] at h
    by_cases hk : p.lower shown = p.lower key
    · obtain ⟨ip, hip, hhead⟩ := head_sorted_mem hne
      rw [if_pos hk, hhead] at h
      cases h
      exact ⟨fun _ => hk, fun _ => ⟨ip, hip, hdoc.host_copy _ _ (haddr ip hip), rfl⟩⟩
    · rw [if_neg hk] at h
      cases h
      constructor
      · rintro ⟨ip, -, -, hsome⟩
        simp [hsni] at hsome
      · exact fun he => absurd he hk

/-- The request of a validated URL goes to a pinned address if and only if the host is recoverable. -/
theorem pin_applies_iff (hdoc : Documented p x d) (u : AbsoluteUrl) (settings : SSRFSettings)
    (headers : List (String × String)) {addrs : List String} {req : Request U}
    (hvalid : resolveAndValidate p settings u.text true = .ok addrs) (hne : addrs ≠ [])
    (hreq : request p x settings true u.text headers = .ok req) :
    Rewritten x addrs req ↔ Recoverable p d u.host := by
  obtain ⟨parsed, host, hsplit, -, hhost, -, hpublic⟩ := resolveAndValidate_ok hvalid hne
  have haddr : ∀ ip ∈ addrs, (p.ip_address ip).isSome = true :=
    fun ip hip => ip_address_of_classify (hpublic ip hip)
  have hkey : requestHost p u.text = p.lower (lowerHost p.toUnicode u.host) := by
    rw [requestHost, hsplit, Option.bind_some, AbsoluteUrl.hostname_text hsplit, Option.getD_some]
  have hkey_ne : requestHost p u.text ≠ "" := by
    rw [hkey]
    exact hdoc.lower_ne _ (lowerHost_ne hdoc u.host_ne)
  unfold request at hreq
  rw [if_pos rfl, hvalid] at hreq
  dsimp only at hreq
  cases hallow : assertAllowedUrl p settings u.text with
  | error e => simp [hallow] at hreq
  | ok _ =>
    simp only [hallow] at hreq
    cases hurl : x.url u.text with
    | none => simp [hurl] at hreq
    | some v =>
      simp only [hurl] at hreq
      rw [if_pos ⟨hne, hkey_ne⟩] at hreq
      obtain ⟨shown, hshown, hiff⟩ := handleAsyncRequest_pinned hdoc rfl hne haddr hreq
      rw [hiff, hkey]
      exact found_iff hdoc ((hdoc.host_eq u v hurl).symm.trans hshown)

/-! ### Two URLs -/

/-- One public address for every name; right on ASCII and on the lower-case host below. -/
def samplePlatform : Platform where
  lower s := String.ofList (s.toList.map Char.toLower)
  netlocOk _ := true
  ip_address s := if s = "93.184.216.34" then some { text := s } else none
  getaddrinfo _ := .ok ["93.184.216.34"]

def sampleIdna : Idna where
  encode s := if s = "bücher.example" then some "xn--bcher-kva.example" else none
  decode s := if s = "xn--bcher-kva.example" then some "bücher.example" else none

/-- A URL by its host. -/
def sampleHttpx : Httpx String where
  url text := (urlsplit samplePlatform.toUnicode text).map fun r => String.ofList (hostinfo r.netloc).1
  host := presented samplePlatform sampleIdna
  copyWithHost _ ip := ip

theorem sample_documented : Documented samplePlatform sampleHttpx sampleIdna where
  lower_ne s hs := by
    simpa [samplePlatform] using hs
  lower_ascii _ _ := rfl
  host_eq u v hv := by
    unfold sampleHttpx at hv
    obtain ⟨r, hr, hshown⟩ := Option.map_eq_some_iff.mp hv
    have hhost : sampleHttpx.host = presented samplePlatform sampleIdna := rfl
    rw [hhost, ← hshown, (AbsoluteUrl.urlsplit_text hr).2, AbsoluteUrl.hostinfo_text]
  host_copy v ip hip := by
    have he : ip = "93.184.216.34" := by
      by_contra hne
      simp [samplePlatform, hne] at hip
    have hcopy : sampleHttpx.host (sampleHttpx.copyWithHost v ip) =
        presented samplePlatform sampleIdna ip := rfl
    rw [hcopy, he]
    decide +kernel
  decode_plain a w hw := by
    have he : w = "bücher.example" := by
      simp only [sampleIdna] at hw
      split_ifs at hw
      exact (Option.some.inj hw).symm
    rw [he]
    decide +kernel

def sampleUrl : AbsoluteUrl where
  scheme := "HTTPS".toList
  userinfo := none
  host := "Partner.Example".toList
  bracketed := false
  port := some "8443".toList
  tail := "/v1".toList
  scheme_alpha := by simp
  scheme_http := by simp
  userinfo_ok := by simp
  host_ne := by simp
  host_ok := by simp
  port_ok := by simp
  tail_ok := by simp
  tail_head := by simp [isDelim]

theorem pin_applies_sample_url :
    let req : Request String :=
      ⟨"93.184.216.34", [("Host", "partner.example:8443")], some "partner.example"⟩
    request samplePlatform sampleHttpx {} true sampleUrl.text req.headers = .ok req ∧
      Rewritten sampleHttpx ["93.184.216.34"] req := by
  intro req
  have hvalid : resolveAndValidate samplePlatform {} sampleUrl.text true =
      .ok ["93.184.216.34"] := by
    decide +kernel
  have hreq : request samplePlatform sampleHttpx {} true sampleUrl.text req.headers = .ok req := by
    decide +kernel
  refine ⟨hreq, (pin_applies_iff sample_documented sampleUrl {} _ hvalid (by simp) hreq).mpr ?_⟩
  unfold Recoverable
  rw [if_pos (by decide +kernel)]
  decide +kernel

/-- An internationalised name written in ASCII: the pin is stored under the ACE name and looked up under
the decoded one, so the validated request goes out unpinned. -/
theorem ace_host_unpinned :
    let req : Request String :=
      { url := "xn--bcher-kva.example", headers := [("Host", "xn--bcher-kva.example")] }
    resolveAndValidate samplePlatform {} "http://xn--bcher-kva.example/" true =
        .ok ["93.184.216.34"] ∧
      requestHost samplePlatform "http://xn--bcher-kva.example/" = "xn--bcher-kva.example" ∧
      sampleHttpx.host req.url = some "bücher.example" ∧
      request samplePlatform sampleHttpx {} true "http://xn--bcher-kva.example/" req.headers =
        .ok req ∧
      ¬ Rewritten sampleHttpx ["93.184.216.34"] req := by
  decide +kernel

end ResilienceKit.HttpClient

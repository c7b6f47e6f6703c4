import ResilienceKit.HttpClient.DnsPin
import ResilienceKit.Lib.UrlUnparse

/-!
# HttpClient.RequestsPin — `_PinnedAdapter.send`

The adapter writes the pinned address, and the port, where the netloc was, and restores the hostname in
the `Host` header.  An IPv6 address goes in without its brackets, so its first colon is read back as the
start of a port; and the header is given the hostname alone.  `pin_preserves_iff` says which requests come
through as they were.
-/

namespace ResilienceKit.HttpClient

open UrlParse Ssrf

variable (p : Platform)

/-- A `PreparedRequest`, as far as the adapter goes. -/
structure PreparedRequest where
  url : String
  headers : List (String × String) := []
  deriving DecidableEq

/-- `_PinnedAdapter.send`, up to the adapter of `requests`; no request is a `ValueError`. -/
def PreparedRequest.send (pins : Option Pins) (request : PreparedRequest) : Option PreparedRequest :=
  match urlparse p.toUnicode request.url with
  | none => none
  | some parsed =>
    let host := (hostname p.toUnicode parsed.toSplitResult).getD ""
    match pickPinnedIp p pins host with
    | none => some request
    | some pinnedIp =>
      match port parsed.netloc with
      | none => none
      | some none => some {
          url := urlunparse { parsed with netloc := pinnedIp.toList }
          headers := setdefault p "Host" host request.headers }
      | some (some n) => some {
          url := urlunparse { parsed with netloc := pinnedIp.toList ++ ':' :: Nat.toDigits 10 n }
          headers := setdefault p "Host" host request.headers }

/-! ### What the request should be -/

/-- The `Host` header that the caller has set. -/
def hostHeader (headers : List (String × String)) : Option String :=
  (headers.find? fun h => decide (p.lower h.1 = p.lower "Host")).map Prod.snd

def defaultPort (scheme : List Char) : ℕ := if scheme = "https".toList then 443 else 80

/-- The header of `http.client`: the host, in brackets if it is an IPv6 address, and a port that is not the
default one. -/
def defaultHost (scheme : List Char) (host : String) (portNumber : Option ℕ) : String :=
  (if ':' ∈ host.toList then "[" ++ host ++ "]" else host) ++
    match portNumber with
    | none => ""
    | some n => if n = defaultPort scheme then "" else ":" ++ String.ofList (Nat.toDigits 10 n)

/-- The text of an IPv4 address. -/
def IsV4Text (s : String) : Prop := s ≠ "" ∧ ∀ c ∈ s.toList, c.isDigit = true ∨ c = '.'

/-- The text of an IPv6 address, with or without a zone. -/
def IsV6Text (s : String) : Prop :=
  isAscii s = true ∧ ':' ∈ s.toList ∧ ∀ c ∈ s.toList, c ∉ "/?#@[]\t\r\n".toList

/-- What the Unicode tables do to ASCII. -/
structure AsciiTables : Prop where
  lower_ascii : ∀ s, isAscii s = true → p.lower s = String.ofList (s.toList.map Char.toLower)
  netlocOk_ascii : ∀ s, isAscii s = true → '[' ∉ s.toList → p.netlocOk s = true

/-- The request that is passed on goes to `least` instead, and is otherwise the one that was made. -/
structure Preserved (parsed : ParseResult) (host : String) (portNumber : Option ℕ) (least : String)
    (request sent : PreparedRequest) : Prop where
  url : ∃ parsed', urlparse p.toUnicode sent.url = some parsed' ∧ parsed'.scheme = parsed.scheme ∧
    port parsed'.netloc = some portNumber ∧ parsed'.path = parsed.path ∧
    parsed'.params = parsed.params ∧ parsed'.query = parsed.query ∧
    hostname p.toUnicode parsed'.toSplitResult = some least
  host : hostHeader p sent.headers =
    some ((hostHeader p request.headers).getD (defaultHost parsed.scheme host portNumber))

variable {p}

/-! ### The pinned address -/

theorem pickPinnedIp_least {d : Pins} {host : String} {ips : List String}
    (hd : d.get (p.lower host) = some ips) (hne : ips ≠ []) :
    ∃ least ∈ ips, (∀ ip ∈ ips, least ≤ ip) ∧ pickPinnedIp p (some d) host = some least := by
  obtain ⟨least, hmem, hhead⟩ := head_sorted_mem hne
  have hcons : d ≠ [] := by
    rintro rfl
    cases hd
  have hpick : pickPinnedIp p (some d) host = (ips.insertionSort (· ≤ ·)).head? := by
    obtain ⟨x, xs, rfl⟩ := List.exists_cons_of_ne_nil hcons
    simp [pickPinnedIp, hd]
  refine ⟨least, hmem, fun ip hip => ?_, hpick.trans hhead⟩
  have hsorted := List.pairwise_insertionSort (· ≤ ·) ips
  have hip' : ip ∈ ips.insertionSort (· ≤ ·) := (List.mem_insertionSort (· ≤ ·)).mpr hip
  cases hl : ips.insertionSort (· ≤ ·) with
  | nil =>
    rw [hl] at hhead
    cases hhead
  | cons a l =>
    rw [hl] at hhead hsorted hip'
    obtain rfl := Option.some.inj hhead
    rcases List.mem_cons.mp hip' with rfl | hmem'
    · exact le_rfl
    · exact List.rel_of_pairwise_cons hsorted hmem'

/-! ### The header -/

theorem hostHeader_setdefault (value : String) (headers : List (String × String)) :
    hostHeader p (setdefault p "Host" value headers) = some ((hostHeader p headers).getD value) := by
  unfold hostHeader setdefault
  split_ifs with h
  · obtain ⟨x, hx, hname⟩ := List.any_eq_true.mp h
    cases hf : headers.find? fun h => decide (p.lower h.1 = p.lower "Host") with
    | some y => rfl
    | none => exact absurd hname (List.find?_eq_none.mp hf x hx)
  · have hf : headers.find? (fun h => decide (p.lower h.1 = p.lower "Host")) = none := by
      rw [List.find?_eq_none]
      intro x hx hname
      exact h (List.any_eq_true.mpr ⟨x, hx, hname⟩)
    rw [List.find?_append, hf]
    simp

/-- The hostname alone is the whole header, unless brackets or a port belong to it. -/
theorem eq_defaultHost_iff {scheme : List Char} {host : String} {portNumber : Option ℕ} :
    host = defaultHost scheme host portNumber ↔
      ':' ∉ host.toList ∧ ∀ n ∈ portNumber, n = defaultPort scheme := by
  unfold defaultHost
  constructor
  · intro h
    have hlen := congrArg String.length h
    by_cases hc : ':' ∈ host.toList
    · rw [if_pos hc] at hlen
      simp only [String.length_append] at hlen
      have : "[".length = 1 := rfl
      omega
    · refine ⟨hc, fun n hn => ?_⟩
      rw [Option.mem_def.mp hn, if_neg hc] at hlen
      by_contra hne
      dsimp only at hlen
      rw [if_neg hne] at hlen
      simp only [String.length_append] at hlen
      have : ":".length = 1 := rfl
      omega
  · rintro ⟨hc, hport⟩
    rw [if_neg hc]
    cases portNumber with
    | none => exact String.append_empty.symm
    | some n =>
      dsimp only
      rw [if_pos (hport n rfl)]
      exact String.append_empty.symm

/-! ### The netloc -/

/-- The port behind the address. -/
def portText : Option ℕ → List Char
  | none => []
  | some n => ':' :: Nat.toDigits 10 n

theorem send_eq {pins : Option Pins} {request : PreparedRequest} {parsed : ParseResult} {host pinnedIp : String}
    {portNumber : Option ℕ} (hparsed : urlparse p.toUnicode request.url = some parsed)
    (hhost : hostname p.toUnicode parsed.toSplitResult = some host)
    (hport : port parsed.netloc = some portNumber) (hpick : pickPinnedIp p pins host = some pinnedIp) :
    request.send p pins = some ⟨urlunparse { parsed with netloc := pinnedIp.toList ++ portText portNumber },
      setdefault p "Host" host request.headers⟩ := by
  unfold PreparedRequest.send
  rw [hparsed]
  dsimp only
  rw [hhost, Option.getD_some, hpick]
  dsimp only
  rw [hport]
  cases portNumber with
  | none => rw [portText, List.append_nil]
  | some n => rfl

theorem mem_portText {portNumber : Option ℕ} {c : Char} (h : c ∈ portText portNumber) :
    c = ':' ∨ c.isDigit = true := by
  cases portNumber with
  | none => cases h
  | some n =>
    rcases List.mem_cons.mp h with h | h
    · exact .inl h
    · exact .inr (Nat.isDigit_of_mem_toDigits (by decide) (by decide) h)

theorem isDigit_toNat {c : Char} (h : c.isDigit = true) : 48 ≤ c.toNat ∧ c.toNat ≤ 57 := by
  have hval : (decide ('0'.val ≤ c.val) && decide (c.val ≤ '9'.val)) = true := h
  simpa [UInt32.le_iff_toNat_le] using hval

/-- No digit delimits a part of a URL. -/
theorem not_delimiter_of_isDigit {c : Char} (h : c.isDigit = true) : c ∉ ":/?#@[]\t\r\n".toList := by
  intro hmem
  simp only [String.reduceToList, List.mem_cons, List.not_mem_nil, or_false] at hmem
  rcases hmem with rfl | rfl | rfl | rfl | rfl | rfl | rfl | rfl | rfl | rfl <;> cases h

/-- What a netloc of an address and a port holds. -/
theorem netloc_plain (hp : AsciiTables p) {s : List Char} (hne : s ≠ []) (hascii : ∀ c ∈ s, c.toNat < 128)
    (hs : ∀ c ∈ s, c ∉ "/?#@[]\t\r\n".toList) (portNumber : Option ℕ) :
    PlainNetloc p.toUnicode (s ++ portText portNumber) ∧ '@' ∉ s ++ portText portNumber := by
  have hmem : ∀ c ∈ s ++ portText portNumber, c.toNat < 128 ∧ c ∉ "/?#@[]\t\r\n".toList := by
    intro c hc
    rcases List.mem_append.mp hc with hc | hc
    · exact ⟨hascii c hc, hs c hc⟩
    · rcases mem_portText hc with rfl | hd
      · decide
      · have hrange := isDigit_toNat hd
        exact ⟨by omega, fun hbad => not_delimiter_of_isDigit hd (List.mem_cons_of_mem _ hbad)⟩
  have hnot : ∀ c, c ∈ "/?#@[]\t\r\n".toList → c ∉ s ++ portText portNumber :=
    fun c hbad hc => (hmem c hc).2 hbad
  refine ⟨⟨by simp [hne], fun c hc => ?_, ?_, ?_⟩, hnot '@' (by decide)⟩
  · have hok := (hmem c hc).2
    simp only [String.reduceToList, List.mem_cons, List.not_mem_nil, or_false, not_or] at hok
    obtain ⟨h1, h2, h3, -, -, -, h4, h5, h6⟩ := hok
    simp [isDelim, isUnsafe, h1, h2, h3, h4, h5, h6]
  · exact iff_of_false (hnot '[' (by decide)) (hnot ']' (by decide))
  · refine hp.netlocOk_ascii _ (isAscii_ofList.mpr fun c hc => (hmem c hc).1) ?_
    rw [String.toList_ofList]
    exact hnot '[' (by decide)

theorem hostinfo_plain {s : List Char} (hat : '@' ∉ s) (hopen : '[' ∉ s) :
    hostinfo s = ((partition ':' s).1, (partition ':' s).2.2) := by
  unfold hostinfo
  rw [rpartition_absent hat]
  dsimp only
  rw [partition_absent hopen]

/-- An IPv4 address and its port are read back. -/
theorem hostinfo_v4 {s : List Char} {portNumber : Option ℕ} (hcolon : ':' ∉ s)
    (hat : '@' ∉ s ++ portText portNumber) (hopen : '[' ∉ s ++ portText portNumber) :
    hostinfo (s ++ portText portNumber) = (s, (portText portNumber).tail) := by
  rw [hostinfo_plain hat hopen]
  cases portNumber with
  | none =>
    rw [portText, List.append_nil, partition_absent hcolon]
    rfl
  | some n =>
    rw [portText, partition_append hcolon]
    rfl

theorem port_v4 {netloc s : List Char} {portNumber : Option ℕ}
    (h : hostinfo netloc = (s, (portText portNumber).tail)) (hle : ∀ n ∈ portNumber, n ≤ 65535) :
    port netloc = some portNumber := by
  unfold port
  rw [h]
  cases portNumber with
  | none => rfl
  | some n =>
    have hall : (Nat.toDigits 10 n).all Char.isDigit = true :=
      List.all_eq_true.mpr fun c hc => Nat.isDigit_of_mem_toDigits (by decide) (by decide) hc
    dsimp only [portText, List.tail_cons]
    rw [if_neg Nat.toDigits_ne_nil, if_pos hall, Nat.ofDigitChars_ten_toDigits, if_pos (hle n rfl)]

theorem port_le {netloc : List Char} {portNumber : Option ℕ} (h : port netloc = some portNumber) :
    ∀ n ∈ portNumber, n ≤ 65535 := by
  intro n hn
  obtain rfl := Option.mem_def.mp hn
  unfold port at h
  dsimp only at h
  split_ifs at h with h1 h2 h3
  · cases h
  · obtain rfl := Option.some.inj (Option.some.inj h)
    exact h3

/-! ### The hostname that is read back -/

theorem IsV4Text.plain {s : String} (h : IsV4Text s) : s.toList ≠ [] ∧ (∀ c ∈ s.toList, c.toNat < 128) ∧
    (∀ c ∈ s.toList, c ∉ "/?#@[]\t\r\n".toList) ∧ ':' ∉ s.toList := by
  have hchar : ∀ c ∈ s.toList, c.toNat < 128 ∧ c ∉ ":/?#@[]\t\r\n".toList := by
    intro c hc
    rcases h.2 c hc with hd | rfl
    · have hrange := isDigit_toNat hd
      exact ⟨by omega, not_delimiter_of_isDigit hd⟩
    · decide
  refine ⟨fun hnil => h.1 (String.toList_eq_nil_iff.mp hnil), fun c hc => (hchar c hc).1,
    fun c hc hbad => (hchar c hc).2 ?_, fun hc => (hchar _ hc).2 (by decide)⟩
  exact List.mem_cons_of_mem _ hbad

theorem toLower_v4 {c : Char} (h : c.isDigit = true ∨ c = '.') : c.toLower = c := by
  refine Char.toLower_eq_of_not_isUpper fun hu => ?_
  rcases h with hd | rfl
  · have hrange := isDigit_toNat hd
    simp only [Char.isUpper, ge_iff_le, decide_eq_true_eq, UInt32.le_iff_toNat_le] at hu
    have h65 : 65 ≤ c.toNat := hu.1
    omega
  · cases hu

theorem lowerHost_v4 (hp : AsciiTables p) {s : String} (h : IsV4Text s) :
    lowerHost p.toUnicode s.toList = s := by
  have hpercent : '%' ∉ s.toList := by
    intro hc
    rcases h.2 _ hc with hd | hd <;> cases hd
  have hlower : s.toList.map Char.toLower = s.toList := by
    conv_rhs => rw [← List.map_id s.toList]
    exact List.map_congr_left fun c hc => toLower_v4 (h.2 c hc)
  have hascii : isAscii s = true := by
    rw [← String.ofList_toList (s := s)]
    exact isAscii_ofList.mpr h.plain.2.1
  unfold lowerHost
  rw [partition_absent hpercent]
  dsimp only
  rw [String.ofList_toList, hp.lower_ascii s hascii, hlower, String.ofList_toList]
  exact String.append_empty

theorem toLower_ne_colon {c : Char} (h : c ≠ ':') : c.toLower ≠ ':' := by
  by_cases hu : c.isUpper = true
  · rw [Char.toLower_eq_of_isUpper hu]
    simp only [Char.isUpper, ge_iff_le, decide_eq_true_eq, UInt32.le_iff_toNat_le] at hu
    have h65 : 65 ≤ c.toNat := hu.1
    have h90 : c.toNat ≤ 90 := hu.2
    intro he
    have hn := congrArg Char.toNat he
    rw [Char.toNat_ofNat, if_pos (.inl (by omega))] at hn
    have : ':'.toNat = 58 := rfl
    omega
  · rwa [Char.toLower_eq_of_not_isUpper hu]

/-- Lowering a host brings no colon in. -/
theorem colon_notMem_lowerHost (hp : AsciiTables p) {host : List Char} (hascii : ∀ c ∈ host, c.toNat < 128)
    (hcolon : ':' ∉ host) : ':' ∉ (lowerHost p.toUnicode host).toList := by
  obtain ⟨-, hfront, hzone⟩ := partition_parts '%' host
  obtain ⟨⟨front, percent, zone⟩, hpart⟩ : ∃ parts, partition '%' host = parts := ⟨_, rfl⟩
  rw [hpart] at hfront hzone
  unfold lowerHost
  rw [hpart]
  dsimp only at hfront hzone ⊢
  have hfa : isAscii (String.ofList front) = true := isAscii_ofList.mpr fun c hc => hascii c (hfront c hc)
  rw [hp.lower_ascii _ hfa, String.toList_append, String.toList_ofList, String.toList_ofList,
    String.toList_ofList]
  intro hmem
  rcases List.mem_append.mp hmem with hm | hm
  · obtain ⟨c, hc, he⟩ := List.mem_map.mp hm
    exact toLower_ne_colon (fun h => hcolon (h ▸ hfront c hc)) he
  · split_ifs at hm
    · rcases List.mem_cons.mp hm with hm | hm
      · cases hm
      · exact hcolon (hzone _ hm)
    · cases hm

/-! ### The rewritten request -/

section Rewrite

variable {parsed : ParseResult} {least : String} {portNumber : Option ℕ}

/-- The rewritten URL reads back as the parsed one, with the new netloc. -/
theorem rewritten_parses (hp : AsciiTables p) {url : String} (hparsed : urlparse p.toUnicode url = some parsed)
    (hscheme : IsHttp parsed.scheme) (hne : parsed.netloc ≠ [])
    (hleast : IsV4Text least ∨ IsV6Text least) (portNumber : Option ℕ) :
    urlparse p.toUnicode (urlunparse { parsed with netloc := least.toList ++ portText portNumber }) =
        some { parsed with netloc := least.toList ++ portText portNumber } ∧
      '@' ∉ least.toList ++ portText portNumber ∧ '[' ∉ least.toList ++ portText portNumber := by
  have hchars : least.toList ≠ [] ∧ (∀ c ∈ least.toList, c.toNat < 128) ∧
      ∀ c ∈ least.toList, c ∉ "/?#@[]\t\r\n".toList := by
    rcases hleast with h4 | h6
    · exact ⟨h4.plain.1, h4.plain.2.1, h4.plain.2.2.1⟩
    · refine ⟨List.ne_nil_of_mem h6.2.1, isAscii_ofList.mp ?_, h6.2.2⟩
      rw [String.ofList_toList]
      exact h6.1
  obtain ⟨hplain, hat⟩ := netloc_plain hp hchars.1 hchars.2.1 hchars.2.2 portNumber
  refine ⟨urlparse_urlunparse hparsed hne hscheme hplain, hat, fun hopen => ?_⟩
  have hclose := hplain.brackets.mp hopen
  rcases List.mem_append.mp hclose with hc | hc
  · exact hchars.2.2 _ hc (by decide)
  · rcases mem_portText hc with hc | hc <;> cases hc

/-- An IPv6 address is not read back as the hostname. -/
theorem hostname_v6_ne (hp : AsciiTables p) (h : IsV6Text least) {r : SplitResult}
    (hnet : r.netloc = least.toList ++ portText portNumber) (hat : '@' ∉ least.toList ++ portText portNumber)
    (hopen : '[' ∉ least.toList ++ portText portNumber) : hostname p.toUnicode r ≠ some least := by
  obtain ⟨front, rest, hsplit, hfront⟩ := List.eq_append_cons_of_mem h.2.1
  have hleast : isAscii (String.ofList least.toList) = true := by
    rw [String.ofList_toList]
    exact h.1
  have hascii : ∀ c ∈ front, c.toNat < 128 := by
    intro c hc
    refine isAscii_ofList.mp hleast c ?_
    rw [hsplit]
    exact List.mem_append_left _ hc
  have hinfo : (hostinfo r.netloc).1 = front := by
    rw [hnet, hostinfo_plain hat hopen, hsplit, List.append_assoc, List.cons_append,
      partition_append hfront]
  unfold hostname
  dsimp only
  rw [hinfo]
  split_ifs
  · simp
  · intro he
    have hno := colon_notMem_lowerHost hp hascii hfront
    rw [Option.some.inj he] at hno
    exact hno h.2.1

theorem hostname_v4 (hp : AsciiTables p) (h : IsV4Text least) {r : SplitResult}
    (hinfo : (hostinfo r.netloc).1 = least.toList) : hostname p.toUnicode r = some least := by
  unfold hostname
  dsimp only
  rw [hinfo, if_neg h.plain.1, lowerHost_v4 hp h]

end Rewrite

/-- For every request to an HTTP URL with a hostname and a valid port, and every set of addresses pinned for
it: the request that is passed on goes to the lexically least of them and is otherwise the same, exactly
if that is an IPv4 address and, unless the caller has set the header, the hostname is no IPv6 literal and
the port is the default one. -/
theorem pin_preserves_iff (hp : AsciiTables p) {request : PreparedRequest} {parsed : ParseResult}
    {host : String} {portNumber : Option ℕ} {d : Pins} {ips : List String}
    (hparsed : urlparse p.toUnicode request.url = some parsed) (hscheme : IsHttp parsed.scheme)
    (hhost : hostname p.toUnicode parsed.toSplitResult = some host)
    (hport : port parsed.netloc = some portNumber) (hd : d.get (p.lower host) = some ips)
    (hne : ips ≠ []) (hips : ∀ ip ∈ ips, IsV4Text ip ∨ IsV6Text ip) :
    ∃ least ∈ ips, (∀ ip ∈ ips, least ≤ ip) ∧ ∃ sent, request.send p (some d) = some sent ∧
      (Preserved p parsed host portNumber least request sent ↔ IsV4Text least ∧
        (hostHeader p request.headers = none →
          ':' ∉ host.toList ∧ ∀ n ∈ portNumber, n = defaultPort parsed.scheme)) := by
  obtain ⟨least, hmem, hmin, hpick⟩ := pickPinnedIp_least hd hne
  have hnetloc : parsed.netloc ≠ [] := by
    intro hnil
    have hnone : hostname p.toUnicode parsed.toSplitResult = none := by
      unfold hostname
      rw [hnil]
      rfl
    rw [hnone] at hhost
    cases hhost
  obtain ⟨hback, hat, hopen⟩ := rewritten_parses hp hparsed hscheme hnetloc (hips least hmem) portNumber
  refine ⟨least, hmem, hmin, _, send_eq hparsed hhost hport hpick, ?_⟩
  have hheader : hostHeader p (setdefault p "Host" host request.headers) =
      some ((hostHeader p request.headers).getD (defaultHost parsed.scheme host portNumber)) ↔
        (hostHeader p request.headers = none →
          ':' ∉ host.toList ∧ ∀ n ∈ portNumber, n = defaultPort parsed.scheme) := by
    rw [hostHeader_setdefault, Option.some.injEq, ← eq_defaultHost_iff]
    cases hostHeader p request.headers with
    | none => simp
    | some value => simp
  constructor
  · rintro ⟨⟨parsed', hparsed', -, -, -, -, -, hleast⟩, hset⟩
    refine ⟨?_, hheader.mp hset⟩
    rw [hback] at hparsed'
    obtain rfl := Option.some.inj hparsed'
    refine (hips least hmem).resolve_right fun h6 => ?_
    exact hostname_v6_ne hp h6 rfl hat hopen hleast
  · rintro ⟨h4, hset⟩
    have hinfo := hostinfo_v4 h4.plain.2.2.2 hat hopen
    refine ⟨⟨_, hback, rfl, port_v4 hinfo (port_le hport), rfl, rfl, rfl, ?_⟩, hheader.mpr hset⟩
    exact hostname_v4 hp h4 (by rw [hinfo])

theorem isV4Text_of_all {s : String} (hne : s ≠ "")
    (hall : s.toList.all (fun c => c.isDigit || decide (c = '.')) = true) :
    IsV4Text s := ⟨hne, fun c hc => by simpa using List.all_eq_true.mp hall c hc⟩

/-- Two addresses, and the default port written out. -/
theorem pin_preserves_iff_example :
    let request : PreparedRequest := ⟨"https://example.com:443/a?b=1", []⟩
    let parsed : ParseResult := ⟨⟨"https".toList, "example.com:443".toList, "/a".toList, "b=1".toList, []⟩, []⟩
    ∃ sent, request.send samplePlatform (some [("example.com", ["93.184.216.34", "93.184.215.14"])]) = some sent ∧
      Preserved samplePlatform parsed "example.com" (some 443) "93.184.215.14" request sent := by
  intro request parsed
  have hparsed : urlparse samplePlatform.toUnicode request.url = some parsed := by decide +kernel
  have hhost : hostname samplePlatform.toUnicode parsed.toSplitResult = some "example.com" := by decide +kernel
  have hport : port parsed.netloc = some (some 443) := by decide +kernel
  have h34 : IsV4Text "93.184.216.34" := isV4Text_of_all (by decide) (by decide +kernel)
  have h14 : IsV4Text "93.184.215.14" := isV4Text_of_all (by decide) (by decide +kernel)
  have hips : ∀ ip ∈ ["93.184.216.34", "93.184.215.14"], IsV4Text ip ∨ IsV6Text ip := by
    intro ip hip
    rcases List.mem_pair.mp hip with rfl | rfl
    · exact .inl h34
    · exact .inl h14
  have hd : Pins.get [("example.com", ["93.184.216.34", "93.184.215.14"])] (samplePlatform.lower "example.com") =
      some ["93.184.216.34", "93.184.215.14"] := by decide +kernel
  obtain ⟨least, hmem, hmin, sent, hsent, hiff⟩ :=
    pin_preserves_iff ⟨fun s _ => rfl, fun s _ _ => rfl⟩ hparsed (.inr rfl) hhost hport hd (by decide) hips
  obtain rfl : least = "93.184.215.14" := by
    rcases List.mem_pair.mp hmem with rfl | rfl
    · exact absurd (hmin "93.184.215.14" (by simp)) (by decide +kernel)
    · rfl
  exact ⟨sent, hsent, hiff.mpr ⟨h14, fun _ => by decide⟩⟩

/-- The least of the two addresses is the IPv6 one: its first group is read back as the host, and the rest is
no port.  Of the IPv4 address alone the header has lost the port. -/
theorem ipv6_pin_breaks_url :
    (PreparedRequest.mk "http://example.com:8080/a?b=1" []).send samplePlatform
        (some [("example.com", ["93.184.216.34", "2606:2800::1"])]) =
      some ⟨"http://2606:2800::1:8080/a?b=1", [("Host", "example.com")]⟩ ∧
    (urlparse samplePlatform.toUnicode "http://2606:2800::1:8080/a?b=1").map (fun r =>
        (hostname samplePlatform.toUnicode r.toSplitResult, port r.netloc)) = some (some "2606", none) ∧
    (PreparedRequest.mk "http://example.com:8080/a?b=1" []).send samplePlatform
        (some [("example.com", ["93.184.216.34"])]) =
      some ⟨"http://93.184.216.34:8080/a?b=1", [("Host", "example.com")]⟩ ∧
    defaultHost "http".toList "example.com" (some 8080) = "example.com:8080" := by
  decide +kernel

end ResilienceKit.HttpClient

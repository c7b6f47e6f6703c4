import Mathlib.Data.List.TakeWhile

/-!
# urllib.parse — splitting a URL, and its hostname

`urlsplit` and `hostname` follow CPython's `urllib.parse`; what they take from the Unicode tables is a
parameter.  `AbsoluteUrl` is an absolute `http`/`https` URL by its components, `AbsoluteUrl.text` writes
it out, and `urlsplit_text` and `hostinfo_text` read the components back.
-/

namespace UrlParse

/-- What the parser asks of the Unicode tables. -/
structure Unicode where
  /-- `str.lower` -/
  lower : String → String
  /-- The NFKC check of the netloc and the check of a bracketed host pass. -/
  netlocOk : String → Bool

def partition (c : Char) (s : List Char) : List Char × Bool × List Char :=
  match s.dropWhile (· ≠ c) with
  | [] => (s, false, [])
  | _ :: rest => (s.takeWhile (· ≠ c), true, rest)

def rpartition (c : Char) (s : List Char) : List Char × Bool × List Char :=
  match partition c s.reverse with
  | (_, false, _) => ([], false, s)
  | (rest, true, front) => (front.reverse, true, rest.reverse)

structure SplitResult where
  scheme : List Char
  netloc : List Char
  path : List Char
  query : List Char
  fragment : List Char
  deriving DecidableEq, Repr

def isC0OrSpace (c : Char) : Bool := c.toNat ≤ 0x20

def isUnsafe (c : Char) : Bool := c = '\t' || c = '\r' || c = '\n'

def isSchemeChar (c : Char) : Bool := c.isAlphanum || c = '+' || c = '-' || c = '.'

def isDelim (c : Char) : Bool := c = '/' || c = '?' || c = '#'

/-- The scheme, if the text up to the first colon is one, and what follows. -/
def splitScheme (url : List Char) : List Char × List Char :=
  match partition ':' url with
  | (c :: cs, true, rest) =>
    if c.isAlpha && (c :: cs).all isSchemeChar then ((c :: cs).map Char.toLower, rest) else ([], url)
  | _ => ([], url)

def splitnetloc (url : List Char) : List Char × List Char :=
  (url.takeWhile fun c => !isDelim c, url.dropWhile fun c => !isDelim c)

/-- No result is a `ValueError`. -/
def urlsplit (p : Unicode) (url : String) : Option SplitResult :=
  let url := (url.toList.dropWhile isC0OrSpace).filter fun c => !isUnsafe c
  let (scheme, url) := splitScheme url
  let (netloc, url) :=
    match url with
    | '/' :: '/' :: rest => splitnetloc rest
    | _ => ([], url)
  if decide ('[' ∈ netloc) != decide (']' ∈ netloc) then none
  else if !p.netlocOk (String.ofList netloc) then none
  else
    let (url, _, fragment) := partition '#' url
    let (path, _, query) := partition '?' url
    some ⟨scheme, netloc, path, query, fragment⟩

/-- Host and port as they stand in the netloc. -/
def hostinfo (netloc : List Char) : List Char × List Char :=
  let (_, _, info) := rpartition '@' netloc
  match partition '[' info with
  | (_, true, bracketed) =>
    let (host, _, port) := partition ']' bracketed
    (host, (partition ':' port).2.2)
  | _ =>
    let (host, _, port) := partition ':' info
    (host, port)

/-- The host is lower-cased, the zone of a scoped address is not. -/
def lowerHost (p : Unicode) (host : List Char) : String :=
  let (host, percent, zone) := partition '%' host
  p.lower (String.ofList host) ++ String.ofList (if percent then '%' :: zone else [])

def hostname (p : Unicode) (r : SplitResult) : Option String :=
  let host := (hostinfo r.netloc).1
  if host = [] then none else some (lowerHost p host)

/-- The netloc of a URL, whether it is accepted or not. -/
def authority (url : String) : List Char :=
  match (splitScheme ((url.toList.dropWhile isC0OrSpace).filter fun c => !isUnsafe c)).2 with
  | '/' :: '/' :: rest => (splitnetloc rest).1
  | _ => []

/-- The brackets of the authority balance, and its other checks pass. -/
def Accepts (p : Unicode) (url : String) : Prop :=
  ('[' ∈ authority url ↔ ']' ∈ authority url) ∧ p.netlocOk (String.ofList (authority url)) = true

theorem checks_eq_none_iff {p : Unicode} {netloc : List Char} {r : SplitResult} :
    (if decide ('[' ∈ netloc) != decide (']' ∈ netloc) then none
      else if !p.netlocOk (String.ofList netloc) then none else some r) = none ↔
    ¬ (('[' ∈ netloc ↔ ']' ∈ netloc) ∧ p.netlocOk (String.ofList netloc) = true) := by
  split_ifs with hb hn
  · exact iff_of_true rfl fun h => by simp [h.1] at hb
  · exact iff_of_true rfl fun h => by simp [h.2] at hn
  · exact iff_of_false (by simp) fun h => h ⟨by simpa using hb, by simpa using hn⟩

/-- **Spec of the failures**: `urlsplit` raises `ValueError` over the authority only. -/
theorem urlsplit_eq_none_iff {p : Unicode} {url : String} : urlsplit p url = none ↔ ¬ Accepts p url := by
  unfold Accepts authority urlsplit
  dsimp only
  split <;> exact checks_eq_none_iff

/-! ### Partitions -/

section Partition

variable {c : Char} {s t : List Char}

theorem partition_absent (h : c ∉ s) : partition c s = (s, false, []) := by
  have hall : ∀ x ∈ s, (decide (x ≠ c)) = true := by
    intro x hx
    exact decide_eq_true fun he => h (he ▸ hx)
  unfold partition
  rw [List.dropWhile_eq_nil_iff.mpr hall]

theorem partition_append (h : c ∉ s) : partition c (s ++ c :: t) = (s, true, t) := by
  have hall : ∀ x ∈ s, (decide (x ≠ c)) = true := by
    intro x hx
    exact decide_eq_true fun he => h (he ▸ hx)
  unfold partition
  rw [List.dropWhile_append_of_pos hall, List.takeWhile_append_of_pos hall]
  simp

/-- The parts of a partition put together again. -/
theorem partition_join (c : Char) (s : List Char) : (partition c s).1 ++
    (if (partition c s).2.1 then c :: (partition c s).2.2 else []) = s := by
  by_cases h : c ∈ s
  · obtain ⟨front, rest, rfl, hfront⟩ := List.eq_append_cons_of_mem h
    rw [partition_append hfront]
    rfl
  · rw [partition_absent h]
    simp

theorem rpartition_absent (h : c ∉ s) : rpartition c s = ([], false, s) := by
  unfold rpartition
  rw [partition_absent (by simpa using h)]

theorem rpartition_append (h : c ∉ t) : rpartition c (s ++ c :: t) = (s, true, t) := by
  have hrev : (s ++ c :: t).reverse = t.reverse ++ c :: s.reverse := by simp
  unfold rpartition
  rw [hrev, partition_append (by simpa using h)]
  simp

end Partition

/-! ### The query -/

section Query

variable {front rest : List Char}

/-- A question mark ends the scheme. -/
theorem splitScheme_query : splitScheme (front ++ '?' :: rest) =
    ((splitScheme front).1, (splitScheme front).2 ++ '?' :: rest) := by
  unfold splitScheme
  by_cases hcolon : ':' ∈ front
  · obtain ⟨a, b, rfl, ha⟩ := List.eq_append_cons_of_mem hcolon
    rw [List.append_assoc, List.cons_append, partition_append ha, partition_append ha]
    cases a with
    | nil => rfl
    | cons c cs =>
      dsimp only
      split_ifs
      · rfl
      · simp
  · rw [partition_absent hcolon]
    by_cases hlater : ':' ∈ rest
    · obtain ⟨a, b, rfl, ha⟩ := List.eq_append_cons_of_mem hlater
      have hfront : ':' ∉ front ++ '?' :: a := by simp [hcolon, ha]
      rw [show front ++ '?' :: (a ++ ':' :: b) = (front ++ '?' :: a) ++ ':' :: b by simp,
        partition_append hfront]
      have hno : (front ++ '?' :: a).all isSchemeChar = false := by
        simp [isSchemeChar]
      cases front with
      | nil => simp [isSchemeChar]
      | cons c cs =>
        rw [List.cons_append] at hno ⊢
        simp [hno]
    · rw [partition_absent (by simp [hcolon, hlater])]
      simp

/-- And the authority. -/
theorem splitnetloc_query : splitnetloc (front ++ '?' :: rest) =
    ((splitnetloc front).1, (splitnetloc front).2 ++ '?' :: rest) := by
  unfold splitnetloc
  induction front with
  | nil => simp [isDelim]
  | cons c cs ih =>
    cases hc : isDelim c with
    | true => simp [hc]
    | false => simpa [hc] using ih

/-- And the path. -/
theorem partition_query (rest : List Char) (h : ∀ c ∈ front, c ≠ '?' ∧ c ≠ '#') : ∃ query more fragment,
    partition '#' (front ++ '?' :: rest) = (front ++ '?' :: query, more, fragment) ∧
      partition '?' (front ++ '?' :: query) = (front, true, query) := by
  have hq : '?' ∉ front := fun hc => (h _ hc).1 rfl
  have hh : '#' ∉ front := fun hc => (h _ hc).2 rfl
  by_cases hrest : '#' ∈ rest
  · obtain ⟨a, b, rfl, ha⟩ := List.eq_append_cons_of_mem hrest
    refine ⟨a, true, b, ?_, partition_append hq⟩
    rw [show front ++ '?' :: (a ++ '#' :: b) = (front ++ '?' :: a) ++ '#' :: b by simp]
    exact partition_append (by simp [hh, ha])
  · exact ⟨rest, false, [], partition_absent (by simp [hh, hrest]), partition_append hq⟩

/-- Stripping leaves the question mark where it is. -/
theorem stripped_query : ((front ++ '?' :: rest).dropWhile isC0OrSpace).filter (fun c => !isUnsafe c) =
    (front.dropWhile isC0OrSpace).filter (fun c => !isUnsafe c) ++ '?' :: rest.filter (fun c => !isUnsafe c) := by
  have hmark : isC0OrSpace '?' = false ∧ isUnsafe '?' = false := by decide
  rw [List.dropWhile_append]
  split_ifs with hempty
  · rw [List.isEmpty_iff.mp hempty]
    simp [hmark.1, hmark.2]
  · simp [hmark.2]

/-- The authority in front of a query, and what follows it. -/
theorem authority_query :
    (match front ++ '?' :: rest with
      | '/' :: '/' :: rest => splitnetloc rest
      | _ => ([], front ++ '?' :: rest)) =
    ((match front with
        | '/' :: '/' :: rest => splitnetloc rest
        | _ => ([], front)).1,
      (match front with
        | '/' :: '/' :: rest => splitnetloc rest
        | _ => ([], front)).2 ++ '?' :: rest) := by
  match front with
  | [] => rfl
  | [c] => simp
  | c :: d :: front =>
    rw [List.cons_append, List.cons_append]
    by_cases hc : c = '/'
    · subst hc
      by_cases hd : d = '/'
      · subst hd
        exact splitnetloc_query
      · simp [hd]
    · simp [hc]

theorem mem_of_mem_splitScheme {c : Char} (h : c ∈ (splitScheme front).2) : c ∈ front := by
  unfold splitScheme at h
  by_cases hcolon : ':' ∈ front
  · obtain ⟨a, b, rfl, ha⟩ := List.eq_append_cons_of_mem hcolon
    rw [partition_append ha] at h
    cases a with
    | nil => exact h
    | cons x xs =>
      dsimp only at h
      split_ifs at h
      · exact List.mem_append_right _ (List.mem_cons_of_mem _ h)
      · exact h
  · rw [partition_absent hcolon] at h
    simpa using h

end Query

/-- **What stands before the query** is read the same whatever the query is. -/
theorem urlsplit_query (p : Unicode) {front : List Char} (h : ∀ c ∈ front, c ≠ '?' ∧ c ≠ '#')
    (rest : List Char) : ∃ query fragment, urlsplit p (String.ofList (front ++ '?' :: rest)) =
      (urlsplit p (String.ofList front)).map fun r => { r with query, fragment } := by
  unfold urlsplit
  dsimp only
  rw [String.toList_ofList, String.toList_ofList, stripped_query, splitScheme_query]
  have hplain : ∀ c ∈ (splitScheme ((front.dropWhile isC0OrSpace).filter fun c => !isUnsafe c)).2,
      c ≠ '?' ∧ c ≠ '#' := by
    intro c hc
    refine h c ?_
    exact (List.dropWhile_suffix _).subset (List.mem_filter.mp (mem_of_mem_splitScheme hc)).1
  generalize (splitScheme ((front.dropWhile isC0OrSpace).filter fun c => !isUnsafe c)).1 = scheme
  generalize (splitScheme ((front.dropWhile isC0OrSpace).filter fun c => !isUnsafe c)).2 = s at hplain ⊢
  generalize rest.filter (fun c => !isUnsafe c) = t
  dsimp only
  rw [authority_query]
  have hpath : ∀ c ∈ (match s with
      | '/' :: '/' :: rest => splitnetloc rest
      | _ => ([], s)).2, c ≠ '?' ∧ c ≠ '#' := by
    intro c hc
    refine hplain c ?_
    split at hc
    · exact List.mem_cons_of_mem _ (List.mem_cons_of_mem _ ((List.dropWhile_suffix _).subset hc))
    · exact hc
  generalize (match s with
      | '/' :: '/' :: rest => splitnetloc rest
      | _ => ([], s)) = split at hpath ⊢
  obtain ⟨netloc, path⟩ := split
  obtain ⟨query, more, fragment, hfragment, hquery⟩ := partition_query t hpath
  refine ⟨query, fragment, ?_⟩
  dsimp only at hfragment hquery hpath ⊢
  rw [hfragment, partition_absent (fun hc => (hpath _ hc).2 rfl)]
  dsimp only
  rw [hquery, partition_absent (fun hc => (hpath _ hc).1 rfl)]
  split_ifs <;> rfl

/-! ### Absolute URLs -/

structure AbsoluteUrl where
  scheme : List Char
  userinfo : Option (List Char)
  host : List Char
  /-- The host is written in brackets, as IPv6 literals are. -/
  bracketed : Bool
  port : Option (List Char)
  /-- Path, query and fragment. -/
  tail : List Char
  scheme_alpha : ∀ c ∈ scheme, c.isAlpha = true
  scheme_http : scheme.map Char.toLower = "http".toList ∨ scheme.map Char.toLower = "https".toList
  userinfo_ok : ∀ s ∈ userinfo, ∀ c ∈ s, c ∉ "/?#@[]\t\r\n".toList
  host_ne : host ≠ []
  host_ok : ∀ c ∈ host, c ∉ "/?#@[]\t\r\n".toList ∧ (bracketed = false → c ≠ ':')
  port_ok : ∀ s ∈ port, ∀ c ∈ s, c.isDigit = true
  tail_ok : ∀ c ∈ tail, c ∉ "\t\r\n".toList
  tail_head : ∀ c ∈ tail.head?, isDelim c = true

namespace AbsoluteUrl

variable (u : AbsoluteUrl)

def hostText : List Char := if u.bracketed then '[' :: u.host ++ [']'] else u.host

def hostport : List Char :=
  u.hostText ++ match u.port with
    | none => []
    | some s => ':' :: s

def netloc : List Char :=
  match u.userinfo with
  | none => u.hostport
  | some s => s ++ '@' :: u.hostport

def text : String := String.ofList (u.scheme ++ ':' :: '/' :: '/' :: (u.netloc ++ u.tail))

variable {u}

theorem scheme_ne : u.scheme ≠ [] := by
  intro h
  have hhttp := u.scheme_http
  rw [h] at hhttp
  simp at hhttp

theorem isSafe_of_isAlpha {c : Char} (h : c.isAlpha = true) :
    isUnsafe c = false ∧ isC0OrSpace c = false ∧ c ≠ ':' := by
  have hrange : (65 ≤ c.toNat ∧ c.toNat ≤ 90) ∨ (97 ≤ c.toNat ∧ c.toNat ≤ 122) := by
    have hval : (decide ('A'.val ≤ c.val ∧ c.val ≤ 'Z'.val) ||
        decide ('a'.val ≤ c.val) && decide (c.val ≤ 'z'.val)) = true := h
    simpa [UInt32.le_iff_toNat_le] using hval
  have hne : ∀ d : Char, d.toNat < 65 → c ≠ d := by
    rintro d hd rfl
    omega
  refine ⟨?_, ?_, hne _ (by decide)⟩
  · simp [isUnsafe, hne '\t' (by decide), hne '\r' (by decide), hne '\n' (by decide)]
  · simp only [isC0OrSpace, decide_eq_false_iff_not]
    omega

/-- Every character of host and port, brackets and colon apart. -/
theorem hostport_mem {c : Char} (hc : c ∈ u.hostport) :
    c ∈ u.host ∨ (u.bracketed = true ∧ (c = '[' ∨ c = ']')) ∨ c = ':' ∨ c.isDigit = true := by
  unfold hostport hostText at hc
  rcases List.mem_append.mp hc with hc | hc
  · split_ifs at hc with hb
    · simp only [List.cons_append, List.mem_cons, List.mem_append, List.not_mem_nil, or_false] at hc
      rcases hc with hc | hc | hc
      · exact .inr (.inl ⟨hb, .inl hc⟩)
      · exact .inl hc
      · exact .inr (.inl ⟨hb, .inr hc⟩)
    · exact .inl hc
  · cases hp : u.port with
    | none => simp [hp] at hc
    | some s =>
      rw [hp] at hc
      rcases List.mem_cons.mp hc with hc | hc
      · exact .inr (.inr (.inl hc))
      · exact .inr (.inr (.inr (u.port_ok s (by simp [hp]) c hc)))

/-- Characters that stand in host and port at most as brackets. -/
theorem notMem_hostport {c : Char} (hhost : c ∈ "/?#@\t\r\n".toList) : c ∉ u.hostport := by
  have hcases : c = '/' ∨ c = '?' ∨ c = '#' ∨ c = '@' ∨ c = '\t' ∨ c = '\r' ∨ c = '\n' := by
    simpa using hhost
  intro hc
  rcases hostport_mem hc with hc | ⟨-, hc⟩ | hc | hc
  · have hok := (u.host_ok c hc).1
    rcases hcases with rfl | rfl | rfl | rfl | rfl | rfl | rfl <;> simp at hok
  · rcases hcases with rfl | rfl | rfl | rfl | rfl | rfl | rfl <;> simp at hc
  · rcases hcases with rfl | rfl | rfl | rfl | rfl | rfl | rfl <;> simp at hc
  · rcases hcases with rfl | rfl | rfl | rfl | rfl | rfl | rfl <;> cases hc

/-- The authority ends where the path starts and holds nothing that is stripped. -/
theorem netloc_ok {c : Char} (hc : c ∈ u.netloc) : isDelim c = false ∧ isUnsafe c = false := by
  have hmain : c ∉ "/?#\t\r\n".toList := by
    intro hbad
    have hcases : c = '/' ∨ c = '?' ∨ c = '#' ∨ c = '\t' ∨ c = '\r' ∨ c = '\n' := by simpa using hbad
    have hport : c ∉ u.hostport := notMem_hostport (by
      rcases hcases with rfl | rfl | rfl | rfl | rfl | rfl <;> decide)
    unfold netloc at hc
    cases hu : u.userinfo with
    | none =>
      rw [hu] at hc
      exact hport hc
    | some s =>
      rw [hu] at hc
      rcases List.mem_append.mp hc with hc | hc
      · have hok := u.userinfo_ok s (by simp [hu]) c hc
        rcases hcases with rfl | rfl | rfl | rfl | rfl | rfl <;> simp at hok
      · rcases List.mem_cons.mp hc with hc | hc
        · rcases hcases with rfl | rfl | rfl | rfl | rfl | rfl <;> simp at hc
        · exact hport hc
  simp only [String.reduceToList, List.mem_cons, List.not_mem_nil, or_false, not_or] at hmain
  obtain ⟨h1, h2, h3, h4, h5, h6⟩ := hmain
  simp [isDelim, isUnsafe, h1, h2, h3, h4, h5, h6]

theorem tail_plain {c : Char} (hc : c ∈ u.tail) : isUnsafe c = false := by
  have hok := u.tail_ok c hc
  simp only [String.reduceToList, List.mem_cons, List.not_mem_nil, or_false, not_or] at hok
  obtain ⟨h1, h2, h3⟩ := hok
  simp [isUnsafe, h1, h2, h3]

/-- Nothing is stripped from the text of a URL. -/
theorem text_stripped :
    (u.text.toList.dropWhile isC0OrSpace).filter (fun c => !isUnsafe c) =
      u.scheme ++ ':' :: '/' :: '/' :: (u.netloc ++ u.tail) := by
  obtain ⟨c, cs, hcs⟩ := List.exists_cons_of_ne_nil u.scheme_ne
  have hc := isSafe_of_isAlpha (u.scheme_alpha c (by simp [hcs]))
  rw [text, String.toList_ofList, hcs, List.cons_append, List.dropWhile_cons_of_neg (by simp [hc.2.1]),
    ← List.cons_append, ← hcs]
  refine List.filter_eq_self.mpr fun x hx => ?_
  rcases List.mem_append.mp hx with hx | hx
  · simp [(isSafe_of_isAlpha (u.scheme_alpha x hx)).1]
  · simp only [List.mem_cons, List.mem_append] at hx
    rcases hx with rfl | rfl | rfl | hx | hx
    · rfl
    · rfl
    · rfl
    · simp [(netloc_ok hx).2]
    · simp [tail_plain hx]

theorem splitScheme_text (rest : List Char) :
    splitScheme (u.scheme ++ ':' :: rest) = (u.scheme.map Char.toLower, rest) := by
  have hcolon : ':' ∉ u.scheme := fun hc => (isSafe_of_isAlpha (u.scheme_alpha _ hc)).2.2 rfl
  obtain ⟨c, cs, hcs⟩ := List.exists_cons_of_ne_nil u.scheme_ne
  have halpha : c.isAlpha = true := u.scheme_alpha c (by simp [hcs])
  have hall : (c :: cs).all isSchemeChar = true := by
    rw [← hcs, List.all_eq_true]
    intro x hx
    simp [isSchemeChar, Char.isAlphanum, u.scheme_alpha x hx]
  unfold splitScheme
  rw [partition_append hcolon, hcs]
  simp only [halpha, hall, Bool.and_self, if_true]

theorem splitnetloc_text : splitnetloc (u.netloc ++ u.tail) = (u.netloc, u.tail) := by
  have hall : ∀ c ∈ u.netloc, (!isDelim c) = true := by
    intro c hc
    simp [(netloc_ok hc).1]
  unfold splitnetloc
  rw [List.takeWhile_append_of_pos hall, List.dropWhile_append_of_pos hall]
  cases ht : u.tail with
  | nil => simp
  | cons c cs =>
    have hd : isDelim c = true := u.tail_head c (by simp [ht])
    simp [hd]

/-- **Parsing a written URL** gives scheme and netloc back. -/
theorem urlsplit_text {p : Unicode} {r : SplitResult} (h : urlsplit p u.text = some r) :
    r.scheme = u.scheme.map Char.toLower ∧ r.netloc = u.netloc := by
  unfold urlsplit at h
  rw [text_stripped] at h
  simp only [splitScheme_text, splitnetloc_text] at h
  split_ifs at h
  cases h
  exact ⟨rfl, rfl⟩

/-- **The host of a written URL** is read back, whatever userinfo and port are. -/
theorem hostinfo_text : (hostinfo u.netloc).1 = u.host := by
  have hat : '@' ∉ u.hostport := notMem_hostport (by decide)
  have hinfo : (rpartition '@' u.netloc).2.2 = u.hostport := by
    unfold netloc
    cases u.userinfo with
    | none => rw [rpartition_absent hat]
    | some s => rw [rpartition_append hat]
  have hbr : ∀ c, c = '[' ∨ c = ']' → c ∉ u.host := by
    rintro c hc hmem
    have hok := (u.host_ok c hmem).1
    rcases hc with rfl | rfl <;> simp at hok
  unfold hostinfo
  rw [show rpartition '@' u.netloc = ((rpartition '@' u.netloc).1, (rpartition '@' u.netloc).2.1,
    u.hostport) by rw [← hinfo]]
  cases hb : u.bracketed with
  | true =>
    have htext : u.hostport = [] ++ '[' :: (u.host ++ ']' :: match u.port with
        | none => []
        | some s => ':' :: s) := by
      simp [hostport, hostText, hb]
    dsimp only
    rw [htext, partition_append (by simp)]
    dsimp only
    rw [partition_append (hbr _ (.inr rfl))]
  | false =>
    have hopen : '[' ∉ u.hostport := by
      intro hc
      rcases hostport_mem hc with hc | ⟨hc, -⟩ | hc | hc
      · exact hbr _ (.inl rfl) hc
      · simp [hb] at hc
      · simp at hc
      · cases hc
    have hcolon : ':' ∉ u.host := fun hc => (u.host_ok _ hc).2 hb rfl
    dsimp only
    rw [partition_absent hopen]
    dsimp only
    unfold hostport hostText
    rw [if_neg (by simp [hb])]
    cases u.port with
    | none =>
      rw [List.append_nil, partition_absent hcolon]
    | some s => rw [partition_append hcolon]

/-- The hostname of a written URL. -/
theorem hostname_text {p : Unicode} {r : SplitResult} (h : urlsplit p u.text = some r) :
    hostname p r = some (lowerHost p u.host) := by
  unfold hostname
  rw [(urlsplit_text h).2, hostinfo_text, if_neg u.host_ne]

end AbsoluteUrl

end UrlParse

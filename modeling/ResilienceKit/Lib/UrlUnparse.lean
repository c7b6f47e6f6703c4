import Mathlib.Data.List.Basic
import ResilienceKit.Lib.UrlParse

/-!
# urllib.parse — ports, parameters, and writing a URL

`urlparse` splits the parameters off the last segment of the path, `urlunparse` writes the components
again.  What `urlsplit` gives back is `Shaped`, and components of that shape are read back from the text
that is written of them (`urlsplit_urlunsplit`, `urlparse_urlunparse`), whatever netloc they are given.
-/

namespace UrlParse

/-- `.port`; no result is a `ValueError`. -/
def port (netloc : List Char) : Option (Option ℕ) :=
  let digits := (hostinfo netloc).2
  if digits = [] then some none
  else if digits.all Char.isDigit then
    let n := Nat.ofDigitChars 10 digits 0
    if n ≤ 65535 then some (some n) else none
  else none

def usesParams : List String :=
  ["", "ftp", "hdl", "prospero", "http", "https", "shttp", "rtsp", "rtsps", "rtspu", "sip", "sips", "mms",
    "sftp", "tel"]

def usesNetloc : List String :=
  ["", "ftp", "http", "gopher", "nntp", "telnet", "imap", "wais", "file", "mms", "https", "shttp", "snews",
    "prospero", "rtsp", "rtsps", "rtspu", "rsync", "svn", "svn+ssh", "sftp", "nfs", "git", "git+ssh", "ws",
    "wss"]

/-- `_splitparams`: the parameters stand behind the first semicolon of the last segment. -/
def splitparams (path : List Char) : List Char × List Char :=
  match rpartition '/' path with
  | (dirs, true, segment) => (dirs ++ '/' :: (partition ';' segment).1, (partition ';' segment).2.2)
  | (_, false, segment) => ((partition ';' segment).1, (partition ';' segment).2.2)

structure ParseResult extends SplitResult where
  params : List Char
  deriving DecidableEq, Repr

def urlparse (p : Unicode) (url : String) : Option ParseResult :=
  (urlsplit p url).map fun r =>
    if String.ofList r.scheme ∈ usesParams then
      { r with path := (splitparams r.path).1, params := (splitparams r.path).2 }
    else { r with params := [] }

/-- A component behind its separator, if there is one. -/
def behind (c : Char) (s : List Char) : List Char := if s = [] then [] else c :: s

def urlunsplit (r : SplitResult) : String :=
  let url := r.path
  let url :=
    if r.netloc ≠ [] ∨ (r.scheme ≠ [] ∧ String.ofList r.scheme ∈ usesNetloc ∧ url.take 2 ≠ ['/', '/']) then
      '/' :: '/' :: (r.netloc ++ if url ≠ [] ∧ url.head? ≠ some '/' then '/' :: url else url)
    else url
  let url := if r.scheme = [] then url else r.scheme ++ ':' :: url
  String.ofList (url ++ behind '?' r.query ++ behind '#' r.fragment)

def urlunparse (r : ParseResult) : String :=
  urlunsplit { r.toSplitResult with path := r.path ++ behind ';' r.params }

/-! ### Partitions put together again -/

variable {c : Char} {s t : List Char}

theorem mem_behind {x : Char} (h : x ∈ behind c s) : x = c ∨ x ∈ s := by
  unfold behind at h
  split_ifs at h
  · cases h
  · exact List.mem_cons.mp h

theorem partition_behind (h : c ∉ s) :
    (partition c (s ++ behind c t)).1 = s ∧ (partition c (s ++ behind c t)).2.2 = t := by
  unfold behind
  split_ifs with ht
  · rw [List.append_nil, partition_absent h, ht]
    exact ⟨rfl, rfl⟩
  · rw [partition_append h]
    exact ⟨rfl, rfl⟩

/-- The front of a partition does not hold the separator, and both parts are parts of the text. -/
theorem partition_parts (c : Char) (s : List Char) : c ∉ (partition c s).1 ∧
    (∀ x ∈ (partition c s).1, x ∈ s) ∧ ∀ x ∈ (partition c s).2.2, x ∈ s := by
  by_cases h : c ∈ s
  · obtain ⟨front, rest, rfl, hfront⟩ := List.eq_append_cons_of_mem h
    rw [partition_append hfront]
    exact ⟨hfront, fun x hx => by simp [show x ∈ front from hx], fun x hx => by simp [show x ∈ rest from hx]⟩
  · rw [partition_absent h]
    exact ⟨h, fun x hx => hx, fun x hx => by cases hx⟩

/-- A character of a text has a last place in it. -/
theorem exists_last (h : c ∈ s) : ∃ front rest, s = front ++ c :: rest ∧ c ∉ rest := by
  obtain ⟨rev, rrest, hrev, hlast⟩ := List.eq_append_cons_of_mem (List.mem_reverse.mpr h)
  refine ⟨rrest.reverse, rev.reverse, ?_, by simpa using hlast⟩
  rw [← List.reverse_reverse s, hrev]
  simp

/-- Splitting the parameters off again gives the same. -/
theorem splitparams_join (path : List Char) :
    splitparams ((splitparams path).1 ++ behind ';' (splitparams path).2) = splitparams path := by
  have hsegment : ∀ segment, '/' ∉ segment →
      '/' ∉ (partition ';' segment).1 ++ behind ';' (partition ';' segment).2.2 := by
    intro segment hs hmem
    obtain ⟨-, hfront, hrest⟩ := partition_parts ';' segment
    rcases List.mem_append.mp hmem with hm | hm
    · exact hs (hfront _ hm)
    · rcases mem_behind hm with hm | hm
      · cases hm
      · exact hs (hrest _ hm)
  have hagain (segment : List Char) := partition_behind (t := (partition ';' segment).2.2)
    (partition_parts ';' segment).1
  by_cases h : '/' ∈ path
  · -- the last slash stays the last one
    obtain ⟨dirs, segment, rfl, hs⟩ := exists_last h
    have hsplit : splitparams (dirs ++ '/' :: segment) =
        (dirs ++ '/' :: (partition ';' segment).1, (partition ';' segment).2.2) := by
      rw [splitparams, rpartition_append hs]
    rw [hsplit]
    dsimp only
    rw [List.append_assoc, List.cons_append, splitparams, rpartition_append (hsegment _ hs)]
    dsimp only
    rw [(hagain _).1, (hagain _).2]
  · have hsplit : splitparams path = ((partition ';' path).1, (partition ';' path).2.2) := by
      rw [splitparams, rpartition_absent h]
    rw [hsplit]
    dsimp only
    rw [splitparams, rpartition_absent (hsegment _ h)]
    dsimp only
    rw [(hagain _).1, (hagain _).2]

theorem partition_initial (c : Char) (s : List Char) :
    (partition c s).1 ++ behind c (partition c s).2.2 <+: s := by
  by_cases h : c ∈ s
  · obtain ⟨front, rest, rfl, hfront⟩ := List.eq_append_cons_of_mem h
    rw [partition_append hfront]
    refine List.prefix_append_right_inj _ |>.mpr ?_
    unfold behind
    split_ifs
    · exact List.nil_prefix
    · exact List.prefix_refl _
  · rw [partition_absent h]
    simp [behind]

/-- The parameters are split off the end of a path. -/
theorem splitparams_initial (path : List Char) :
    (splitparams path).1 ++ behind ';' (splitparams path).2 <+: path := by
  by_cases h : '/' ∈ path
  · obtain ⟨dirs, segment, rfl, hs⟩ := exists_last h
    rw [splitparams, rpartition_append hs]
    dsimp only
    rw [List.append_assoc, List.cons_append]
    exact (List.prefix_append_right_inj _).mpr (List.cons_prefix_cons.mpr ⟨rfl, partition_initial _ _⟩)
  · rw [splitparams, rpartition_absent h]
    exact partition_initial _ _

/-! ### What a parsed URL is like -/

/-- Components as `urlsplit` gives them back. -/
structure Shaped (r : SplitResult) : Prop where
  path_head : ∀ c ∈ r.path.head?, c = '/'
  path_ok : ∀ c ∈ r.path, c ≠ '?' ∧ c ≠ '#' ∧ isUnsafe c = false
  query_ok : ∀ c ∈ r.query, c ≠ '#' ∧ isUnsafe c = false
  fragment_ok : ∀ c ∈ r.fragment, isUnsafe c = false

/-- A part of the path in its place keeps the shape. -/
theorem Shaped.of_initial {r : SplitResult} (h : Shaped r) {path : List Char} (hp : path <+: r.path) :
    Shaped { r with path } := by
  refine ⟨fun c hc => ?_, fun c hc => h.path_ok c (hp.subset hc), h.query_ok, h.fragment_ok⟩
  obtain ⟨rest, hrest⟩ := hp
  refine h.path_head c ?_
  cases path with
  | nil => cases hc
  | cons d ds =>
    rw [← hrest]
    exact hc

theorem head_dropWhile_isDelim (l : List Char) :
    ∀ c ∈ (l.dropWhile fun c => !isDelim c).head?, isDelim c = true := by
  intro c hc
  have := List.head?_dropWhile_not (fun c => !isDelim c) l
  rw [Option.mem_def.mp hc] at this
  simpa using this

/-- The tail of a URL behind its netloc. -/
theorem tail_shaped {scheme netloc tail : List Char} (hhead : ∀ c ∈ tail.head?, isDelim c = true)
    (hplain : ∀ c ∈ tail, isUnsafe c = false) :
    Shaped ⟨scheme, netloc, (partition '?' (partition '#' tail).1).1,
      (partition '?' (partition '#' tail).1).2.2, (partition '#' tail).2.2⟩ := by
  obtain ⟨hno, hsub, hfrag⟩ := partition_parts '#' tail
  obtain ⟨hno', hsub', hquery⟩ := partition_parts '?' (partition '#' tail).1
  refine ⟨fun c hc => ?_, fun c hc => ?_, fun c hc => ?_, fun c hc => hplain c (hfrag c hc)⟩
  · have hpre : (partition '?' (partition '#' tail).1).1 <+: tail :=
      ((List.prefix_append _ _).trans (partition_initial '?' _)).trans
        ((List.prefix_append _ _).trans (partition_initial '#' _))
    obtain ⟨rest, hrest⟩ := hpre
    have hd : isDelim c = true := by
      refine hhead c ?_
      dsimp only at hc
      cases hp : (partition '?' (partition '#' tail).1).1 with
      | nil =>
        rw [hp] at hc
        cases hc
      | cons d ds =>
        rw [hp] at hc hrest
        rw [← hrest]
        exact hc
    have hmem : c ∈ (partition '?' (partition '#' tail).1).1 := List.mem_of_mem_head? hc
    have h1 : c ≠ '?' := fun h => hno' (h ▸ hmem)
    have h2 : c ≠ '#' := fun h => hno (h ▸ hsub' c hmem)
    simpa [isDelim, h1, h2] using hd
  · exact ⟨fun h => hno' (h ▸ hc), fun h => hno (h ▸ hsub' c hc), hplain c (hsub c (hsub' c hc))⟩
  · exact ⟨fun h => hno (h ▸ hquery c hc), hplain c (hsub c (hquery c hc))⟩

theorem splitScheme_subset (url : List Char) : ∀ c ∈ (splitScheme url).2, c ∈ url := by
  intro c hc
  have hparts := (partition_parts ':' url).2.2
  unfold splitScheme at hc
  split at hc
  · rename_i d ds rest heq
    rw [heq] at hparts
    split_ifs at hc
    · exact hparts c hc
    · exact hc
  · exact hc

theorem urlsplit_shaped {p : Unicode} {url : String} {r : SplitResult} (h : urlsplit p url = some r)
    (hne : r.netloc ≠ []) : Shaped r := by
  unfold urlsplit at h
  dsimp only at h
  split at h
  · rename_i rest hrest
    have hplain : ∀ c ∈ rest, isUnsafe c = false := by
      intro c hc
      have hmem := splitScheme_subset _ c (by rw [hrest]; exact List.mem_cons_of_mem _ (List.mem_cons_of_mem _ hc))
      simpa using (List.mem_filter.mp hmem).2
    split_ifs at h
    cases h
    exact tail_shaped (head_dropWhile_isDelim rest) fun c hc =>
      hplain c ((List.dropWhile_sublist _).subset hc)
  · split_ifs at h
    cases h
    exact absurd rfl hne

/-! ### Reading a written URL back -/

/-- The scheme of a URL that is requested over HTTP. -/
def IsHttp (scheme : List Char) : Prop := scheme = "http".toList ∨ scheme = "https".toList

/-- A netloc that ends where it should and passes the checks. -/
structure PlainNetloc (p : Unicode) (netloc : List Char) : Prop where
  ne : netloc ≠ []
  ok : ∀ c ∈ netloc, isDelim c = false ∧ isUnsafe c = false
  brackets : '[' ∈ netloc ↔ ']' ∈ netloc
  netlocOk : p.netlocOk (String.ofList netloc) = true

variable {p : Unicode} {r : SplitResult}

theorem urlunsplit_toList (hs : Shaped r) (hscheme : IsHttp r.scheme) (hne : r.netloc ≠ []) :
    (urlunsplit r).toList = r.scheme ++ ':' :: '/' :: '/' ::
      (r.netloc ++ (r.path ++ behind '?' r.query ++ behind '#' r.fragment)) := by
  have hpath : (if r.path ≠ [] ∧ r.path.head? ≠ some '/' then '/' :: r.path else r.path) = r.path := by
    refine if_neg fun h => ?_
    obtain ⟨c, cs, hc⟩ := List.exists_cons_of_ne_nil h.1
    have hhead := hs.path_head c (by rw [hc]; rfl)
    rw [hc, hhead] at h
    exact h.2 rfl
  have hsne : r.scheme ≠ [] := by
    rcases hscheme with h | h <;> simp [h]
  unfold urlunsplit
  dsimp only
  rw [hpath, if_neg hsne, if_pos (Or.inl hne), String.toList_ofList]
  simp

/-- **Round trip**: what is written of shaped components is read back. -/
theorem urlsplit_urlunsplit (hs : Shaped r) (hscheme : IsHttp r.scheme) (hn : PlainNetloc p r.netloc) :
    urlsplit p (urlunsplit r) = some r := by
  obtain ⟨tail, htail⟩ : ∃ tail, r.path ++ behind '?' r.query ++ behind '#' r.fragment = tail := ⟨_, rfl⟩
  have htext := urlunsplit_toList hs hscheme hn.ne
  rw [htail] at htext
  have hplain : ∀ c ∈ tail, isUnsafe c = false := by
    intro c hc
    rw [← htail] at hc
    rcases List.mem_append.mp hc with hc | hc
    · rcases List.mem_append.mp hc with hc | hc
      · exact (hs.path_ok c hc).2.2
      · rcases mem_behind hc with rfl | hc
        · rfl
        · exact (hs.query_ok c hc).2
    · rcases mem_behind hc with rfl | hc
      · rfl
      · exact hs.fragment_ok c hc
  have hhead : ∀ c ∈ tail.head?, isDelim c = true := by
    intro c hc
    rw [← htail, List.append_assoc] at hc
    cases hp : r.path with
    | cons d ds =>
      rw [hp] at hc
      have hslash := hs.path_head d (by rw [hp]; rfl)
      obtain rfl : d = c := by simpa using hc
      rw [hslash]
      rfl
    | nil =>
      rw [hp, List.nil_append] at hc
      unfold behind at hc
      split_ifs at hc with hq hf hf
      · cases hc
      · obtain rfl : '#' = c := by simpa using hc
        rfl
      · obtain rfl : '?' = c := by simpa using hc
        rfl
      · obtain rfl : '?' = c := by simpa using hc
        rfl
  have hstrip : ((urlunsplit r).toList.dropWhile isC0OrSpace).filter (fun c => !isUnsafe c) =
      r.scheme ++ ':' :: '/' :: '/' :: (r.netloc ++ tail) := by
    have hkeep : ∀ rest, (r.scheme ++ ':' :: rest).dropWhile isC0OrSpace = r.scheme ++ ':' :: rest := by
      intro rest
      rcases hscheme with h | h <;> rw [h] <;> rfl
    rw [htext, hkeep, List.filter_eq_self]
    intro c hc
    rcases List.mem_append.mp hc with hc | hc
    · rcases hscheme with h | h <;> rw [h] at hc
      · exact List.all_eq_true.mp (show "http".toList.all (fun c => !isUnsafe c) = true by decide) c hc
      · exact List.all_eq_true.mp (show "https".toList.all (fun c => !isUnsafe c) = true by decide) c hc
    · simp only [List.mem_cons, List.mem_append] at hc
      rcases hc with rfl | rfl | rfl | hc | hc
      · rfl
      · rfl
      · rfl
      · simp [(hn.ok c hc).2]
      · simp [hplain c hc]
  have hsplit : ∀ rest, splitScheme (r.scheme ++ ':' :: rest) = (r.scheme, rest) := by
    intro rest
    unfold splitScheme
    rcases hscheme with h | h <;> rw [h, partition_append (by decide)] <;> rfl
  have hnet : splitnetloc (r.netloc ++ tail) = (r.netloc, tail) := by
    have hall : ∀ c ∈ r.netloc, (!isDelim c) = true := fun c hc => by simp [(hn.ok c hc).1]
    unfold splitnetloc
    rw [List.takeWhile_append_of_pos hall, List.dropWhile_append_of_pos hall]
    cases tail with
    | nil => simp
    | cons c cs =>
      have hd : isDelim c = true := hhead c rfl
      simp [hd]
  have hfragment : '#' ∉ r.path ++ behind '?' r.query := by
    intro hmem
    rcases List.mem_append.mp hmem with hm | hm
    · exact (hs.path_ok _ hm).2.1 rfl
    · rcases mem_behind hm with hm | hm
      · cases hm
      · exact (hs.query_ok _ hm).1 rfl
  have hquery : '?' ∉ r.path := fun hm => (hs.path_ok _ hm).1 rfl
  unfold urlsplit
  rw [hstrip]
  simp only [hsplit, hnet]
  rw [if_neg (by simp [hn.brackets]), if_neg (by simp [hn.netlocOk]), ← htail,
    (partition_behind hfragment).1, (partition_behind hfragment).2, (partition_behind hquery).1,
    (partition_behind hquery).2]

/-- The same with parameters: whatever netloc takes the place of the one that was read. -/
theorem urlparse_urlunparse {url : String} {parsed : ParseResult} (h : urlparse p url = some parsed)
    (hne : parsed.netloc ≠ []) (hscheme : IsHttp parsed.scheme) {netloc : List Char}
    (hn : PlainNetloc p netloc) :
    urlparse p (urlunparse { parsed with netloc }) = some { parsed with netloc } := by
  unfold urlparse at h
  rw [Option.map_eq_some_iff] at h
  obtain ⟨r, hr, hparsed⟩ := h
  have hsame : parsed.scheme = r.scheme ∧ parsed.netloc = r.netloc := by
    rw [← hparsed]
    split_ifs <;> exact ⟨rfl, rfl⟩
  rw [hsame.1] at hscheme
  have huses : String.ofList r.scheme ∈ usesParams := by
    rcases hscheme with h | h <;> rw [h] <;> decide
  rw [if_pos huses] at hparsed
  subst hparsed
  have hshaped : Shaped r := urlsplit_shaped hr hne
  have hpre := hshaped.of_initial (splitparams_initial r.path)
  have hback := urlsplit_urlunsplit (p := p) (r := { r with
    netloc, path := (splitparams r.path).1 ++ behind ';' (splitparams r.path).2 })
    ⟨hpre.path_head, hpre.path_ok, hpre.query_ok, hpre.fragment_ok⟩ hscheme hn
  unfold urlparse urlunparse
  rw [hback, Option.map_some, if_pos huses, splitparams_join]

end UrlParse

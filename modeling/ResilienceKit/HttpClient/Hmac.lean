import Mathlib
import ResilienceKit.Lib.Codec
import ResilienceKit.Lib.Traverse
import ResilienceKit.Middleware.Errors

/-!
# HttpClient.Hmac — `HMACAuth.auth_flow`

The bytes that are signed are method, path, timestamp and body, joined by newlines.  Only the body can contain a
newline, and it comes last, so the fields can be read off the join: `signatures_bind` says that two requests that
are signed over the same bytes are the same.
-/

namespace ResilienceKit.HttpClient

open Codec
open Middleware (int lowerBytes)
open Traverse (bind_eq_ok)

inductive Secret
  | text (s : String)
  | bytes (b : Bytes)

namespace Secret

/-- `not secret` -/
def isEmpty : Secret → Bool
  | text s => s = ""
  | bytes b => b = []

def encode : Secret → Bytes
  | text s => utf8Encode s
  | bytes b => b

theorem encode_ne_nil {secret : Secret} (h : secret.isEmpty = false) : secret.encode ≠ [] := by
  cases secret with
  | text s =>
    intro hnil
    have hempty : some s = some "" := by
      rw [← utf8Decode_utf8Encode s, ← utf8Decode_utf8Encode "", show utf8Encode s = [] from hnil]
      rfl
    exact absurd (Option.some.inj hempty) (of_decide_eq_false h)
  | bytes b => exact of_decide_eq_false h

end Secret

structure HMACAuth where
  secret : Bytes
  keyId : Option String := none
  nonempty : secret ≠ []

/-- What `auth_flow` reads and writes of an `httpx.Request`; `content` has been read. -/
structure Outgoing where
  method : String
  rawPath : Bytes
  headers : List (String × String) := []
  content : Bytes
  deriving DecidableEq, Repr

/-- `headers[name] = value`, as `httpx.Headers` documents it: names are compared without case, and duplicates go. -/
def setHeader (name value : String) : List (String × String) → List (String × String)
  | [] => [(name, value)]
  | h :: hs =>
    if lowerBytes h.1 = lowerBytes name then
      (name, value) :: hs.filter fun h => lowerBytes h.1 ≠ lowerBytes name
    else h :: setHeader name value hs

/-- The values of a header. -/
def valuesOf (name : String) (headers : List (String × String)) : List String :=
  (headers.filter fun h => lowerBytes h.1 = lowerBytes name).map Prod.snd

/-- `str` of an integer; the interpreter refuses more than 4300 digits. -/
def strInt (n : ℤ) : Except PyExc String :=
  if 4300 < (Nat.toDigits 10 n.natAbs).length then .error ⟨.valueError, 0⟩ else .ok n.repr

def encodeAscii (s : String) : Except PyExc Bytes := (asciiEncode s).elim (.error ⟨.unicodeEncodeError, 0⟩) .ok

def decodeAscii (b : Bytes) : Except PyExc String := (asciiDecode b).elim (.error ⟨.unicodeDecodeError, 0⟩) .ok

namespace HMACAuth

/-- The constructor; the error is the message of a `ValidationError`. -/
def init (secret : Secret) (keyId : Option String) : Except String HMACAuth :=
  match h : secret.isEmpty with
  | true => .error "HMACAuth requires a non-empty secret."
  | false => .ok ⟨secret.encode, keyId, Secret.encode_ne_nil h⟩

/-- The bytes that are signed. -/
def canonical (timestamp : String) (request : Outgoing) : Except PyExc Bytes := do
  let path ← decodeAscii request.rawPath
  return [10].intercalate
    [← encodeAscii request.method, ← encodeAscii path, ← encodeAscii timestamp, request.content]

/-- `auth_flow`: the request that is yielded.  `time` is what the clock says, where no finite number raises, and
`hmacSha256` the digest of a message under a secret. -/
def authFlow (auth : HMACAuth) (hmacSha256 : Bytes → Bytes → Bytes) (time : Except PyExc ℚ)
    (request : Outgoing) : Except PyExc Outgoing := do
  let timestamp ← strInt (int (← time))
  let digest := hmacSha256 auth.secret (← canonical timestamp request)
  let headers := setHeader "X-Signature" (← decodeAscii (b64encode digest)) request.headers
  let headers := setHeader "X-Signature-Timestamp" timestamp headers
  match auth.keyId with
  | none => return { request with headers := headers }
  | some keyId => return { request with headers := setHeader "X-Signature-Key-Id" keyId headers }

end HMACAuth

/-! ### Headers -/

section Headers

variable {name other value : String} {headers : List (String × String)}

theorem valuesOf_cons (h : String × String) : valuesOf name (h :: headers) =
    if lowerBytes h.1 = lowerBytes name then h.2 :: valuesOf name headers else valuesOf name headers := by
  unfold valuesOf
  rw [List.filter_cons]
  split_ifs <;> simp_all

/-- Headers under another name are left alone. -/
theorem valuesOf_filter (h : lowerBytes other ≠ lowerBytes name) :
    valuesOf name (headers.filter fun x => lowerBytes x.1 ≠ lowerBytes other) = valuesOf name headers := by
  unfold valuesOf
  rw [List.filter_filter]
  refine congrArg (List.map Prod.snd) (List.filter_congr fun x _ => ?_)
  by_cases hx : lowerBytes x.1 = lowerBytes name
  · simp [hx, h.symm]
  · simp [hx]

theorem valuesOf_setHeader : valuesOf name (setHeader name value headers) = [value] := by
  induction headers with
  | nil => rw [setHeader, valuesOf_cons, if_pos rfl]; rfl
  | cons x headers ih =>
    rw [setHeader]
    split_ifs with hx
    · have hnone : valuesOf name (headers.filter fun h => lowerBytes h.1 ≠ lowerBytes name) = [] := by
        rw [valuesOf, List.map_eq_nil_iff, List.filter_eq_nil_iff]
        exact fun h hmem => by simpa using (List.mem_filter.mp hmem).2
      rw [valuesOf_cons, if_pos rfl, hnone]
    · rw [valuesOf_cons, if_neg hx, ih]

theorem valuesOf_setHeader_of_ne (h : lowerBytes other ≠ lowerBytes name) :
    valuesOf name (setHeader other value headers) = valuesOf name headers := by
  induction headers with
  | nil => rw [setHeader, valuesOf_cons, if_neg h]
  | cons x headers ih =>
    rw [setHeader]
    split_ifs with hx
    · rw [valuesOf_cons, if_neg h, valuesOf_filter h, valuesOf_cons, if_neg (hx ▸ h)]
    · rw [valuesOf_cons, valuesOf_cons, ih]

end Headers

/-! ### The fields of the join -/

theorem mem_repr {n : ℤ} {c : Char} (h : c ∈ n.repr.toList) : c = '-' ∨ c.isDigit = true := by
  have hnat : ∀ m : ℕ, c ∈ m.repr.toList → c.isDigit = true := by
    intro m hm
    rw [Nat.repr, String.toList_ofList] at hm
    exact Nat.isDigit_of_mem_toDigits (by decide) (by decide) hm
  cases n with
  | ofNat m => exact .inr (hnat m h)
  | negSucc m =>
    rw [Int.repr, String.toList_append] at h
    rcases List.mem_append.mp h with h | h
    · exact .inl (by simpa using h)
    · exact .inr (hnat _ h)

/-- The text of an integer is in one line. -/
theorem newline_notMem_repr (n : ℤ) : '\n' ∉ n.repr.toList := by
  intro h
  rcases mem_repr h with h | h
  · exact absurd h (by decide)
  · exact absurd h (by decide)

theorem exists_asciiEncode_repr (n : ℤ) : ∃ text, asciiEncode n.repr = some text := by
  refine ⟨_, if_pos (List.all_eq_true.mpr fun c hc => decide_eq_true ?_)⟩
  rcases mem_repr hc with rfl | hc
  · decide
  · have hle := (Char.isDigit_iff_toNat.mp hc).2
    exact lt_of_le_of_lt hle (by decide)

theorem strInt_eq_ok {n : ℤ} {s : String} (h : strInt n = .ok s) : s = n.repr := by
  rw [strInt] at h
  split_ifs at h
  exact (Except.ok.inj h).symm

theorem encodeAscii_eq_ok {s : String} {b : Bytes} : encodeAscii s = .ok b ↔ asciiEncode s = some b := by
  unfold encodeAscii
  cases asciiEncode s <;> simp

theorem decodeAscii_eq_ok {s : String} {b : Bytes} : decodeAscii b = .ok s ↔ asciiDecode b = some s := by
  unfold decodeAscii
  cases asciiDecode b <;> simp

/-- A text without a newline has none in its bytes. -/
theorem newline_notMem_encode {s : String} {b : Bytes} (h : asciiEncode s = some b) (hs : '\n' ∉ s.toList) :
    (10 : UInt8) ∉ b := fun hb => hs (mem_of_asciiEncode h hb)

namespace HMACAuth

variable {hmacSha256 : Bytes → Bytes → Bytes} {auth : HMACAuth} {time : Except PyExc ℚ} {timestamp : String}
  {request signed : Outgoing} {c : Bytes}

theorem canonical_eq_ok (h : canonical timestamp request = .ok c) : ∃ method text,
    asciiEncode request.method = some method ∧ asciiEncode timestamp = some text ∧
      c = [10].intercalate ([method, request.rawPath, text] ++ [request.content]) := by
  obtain ⟨path, hpath, h⟩ := bind_eq_ok h
  obtain ⟨method, hmethod, h⟩ := bind_eq_ok h
  obtain ⟨raw, hraw, h⟩ := bind_eq_ok h
  obtain ⟨text, htext, h⟩ := bind_eq_ok h
  rw [encodeAscii_eq_ok] at hmethod hraw htext
  -- the path is encoded back to what it was decoded from
  rw [decodeAscii_eq_ok] at hpath
  obtain rfl : request.rawPath = raw := Option.some.inj ((asciiEncode_of_decode hpath).symm.trans hraw)
  exact ⟨method, text, hmethod, htext, (Except.ok.inj h).symm⟩

/-- The fields before the body are in one line each. -/
theorem canonical_fields {n : ℤ} (hmethod : '\n' ∉ request.method.toList) (hpath : 10 ∉ request.rawPath)
    (h : canonical n.repr request = .ok c) : ∃ method text,
    asciiEncode request.method = some method ∧ asciiEncode n.repr = some text ∧
      (∀ f ∈ [method, request.rawPath, text], (10 : UInt8) ∉ f) ∧
      c = [10].intercalate ([method, request.rawPath, text] ++ [request.content]) := by
  obtain ⟨method, text, hm, ht, hc⟩ := canonical_eq_ok h
  refine ⟨method, text, hm, ht, ?_, hc⟩
  simp only [List.forall_mem_cons, List.not_mem_nil, false_imp_iff, implies_true, and_true]
  exact ⟨newline_notMem_encode hm hmethod, hpath, newline_notMem_encode ht (newline_notMem_repr n)⟩

/-- Equal bytes are the bytes of one request, at one time. -/
theorem canonical_inj {n n' : ℤ} {request request' : Outgoing}
    (hmethod : '\n' ∉ request.method.toList) (hmethod' : '\n' ∉ request'.method.toList)
    (hpath : 10 ∉ request.rawPath) (hpath' : 10 ∉ request'.rawPath)
    (h : canonical n.repr request = .ok c) (h' : canonical n'.repr request' = .ok c) :
    request.method = request'.method ∧ request.rawPath = request'.rawPath ∧ n = n' ∧
      request.content = request'.content := by
  obtain ⟨method, text, hm, ht, hfields, hc⟩ := canonical_fields hmethod hpath h
  obtain ⟨method', text', hm', ht', hfields', hc'⟩ := canonical_fields hmethod' hpath' h'
  have hlength : [method, request.rawPath, text].length = [method', request'.rawPath, text'].length := rfl
  obtain ⟨hinit, hcontent⟩ := intercalate_inj hlength hfields hfields' (hc.symm.trans hc')
  obtain ⟨rfl, hrest⟩ := List.cons.inj hinit
  obtain ⟨hraw, hrest⟩ := List.cons.inj hrest
  obtain ⟨rfl, -⟩ := List.cons.inj hrest
  have hmethods := (asciiDecode_of_encode hm).symm.trans (asciiDecode_of_encode hm')
  have htexts := (asciiDecode_of_encode ht).symm.trans (asciiDecode_of_encode ht')
  exact ⟨Option.some.inj hmethods, hraw, Int.repr_injective (Option.some.inj htexts), hcontent⟩

/-- The request carries the signature of `c`. -/
def Signed (auth : HMACAuth) (hmacSha256 : Bytes → Bytes → Bytes) (c : Bytes) (signed : Outgoing) : Prop :=
  ∃ signature, asciiDecode (b64encode (hmacSha256 auth.secret c)) = some signature ∧
    valuesOf "X-Signature" signed.headers = [signature]

/-- What `auth_flow` yields is the request with a signature and a timestamp. -/
theorem authFlow_eq_ok (h : auth.authFlow hmacSha256 time request = .ok signed) : ∃ t c, time = .ok t ∧
    canonical (int t).repr request = .ok c ∧ auth.Signed hmacSha256 c signed ∧
    valuesOf "X-Signature-Timestamp" signed.headers = [(int t).repr] ∧
    signed = { request with headers := signed.headers } := by
  obtain ⟨t, htime, h⟩ := bind_eq_ok h
  obtain ⟨timestamp, htext, h⟩ := bind_eq_ok h
  obtain rfl := strInt_eq_ok htext
  obtain ⟨c, hc, h⟩ := bind_eq_ok h
  obtain ⟨signature, hsignature, h⟩ := bind_eq_ok h
  rw [decodeAscii_eq_ok] at hsignature
  have hnames : lowerBytes "X-Signature-Timestamp" ≠ lowerBytes "X-Signature" ∧
      lowerBytes "X-Signature-Key-Id" ≠ lowerBytes "X-Signature" ∧
      lowerBytes "X-Signature-Key-Id" ≠ lowerBytes "X-Signature-Timestamp" := by decide +kernel
  refine ⟨t, c, htime, hc, ?_⟩
  cases hkey : auth.keyId with
  | none =>
    rw [hkey] at h
    obtain rfl := Except.ok.inj h
    refine ⟨⟨signature, hsignature, ?_⟩, valuesOf_setHeader, rfl⟩
    rw [valuesOf_setHeader_of_ne hnames.1, valuesOf_setHeader]
  | some keyId =>
    rw [hkey] at h
    obtain rfl := Except.ok.inj h
    refine ⟨⟨signature, hsignature, ?_⟩, ?_, rfl⟩
    · rw [valuesOf_setHeader_of_ne hnames.2.1, valuesOf_setHeader_of_ne hnames.1, valuesOf_setHeader]
    · rw [valuesOf_setHeader_of_ne hnames.2.2, valuesOf_setHeader]

/-- Requests with equal signatures are signed over equal digests. -/
theorem Signed.digest_eq {c' : Bytes} {signed' : Outgoing} (h : auth.Signed hmacSha256 c signed)
    (h' : auth.Signed hmacSha256 c' signed')
    (heq : valuesOf "X-Signature" signed.headers = valuesOf "X-Signature" signed'.headers) :
    hmacSha256 auth.secret c = hmacSha256 auth.secret c' := by
  obtain ⟨signature, hdecode, hvalues⟩ := h
  obtain ⟨signature', hdecode', hvalues'⟩ := h'
  obtain rfl : signature = signature' := by
    rw [hvalues, hvalues'] at heq
    exact List.singleton_inj.mp heq
  exact b64encode_injective (Option.some.inj
    ((asciiEncode_of_decode hdecode).symm.trans (asciiEncode_of_decode hdecode')))

/-- ASCII requests are signed at every time whose text is not too long. -/
theorem exists_authFlow {t : ℚ} {path : String} {method : Bytes} (hmethod : asciiEncode request.method = some method)
    (hpath : asciiDecode request.rawPath = some path) (ht : (Nat.toDigits 10 (int t).natAbs).length ≤ 4300) :
    ∃ signed, auth.authFlow hmacSha256 (.ok t) request = .ok signed := by
  have htime : strInt (int t) = .ok (int t).repr := if_neg (by omega)
  obtain ⟨text, htext⟩ := exists_asciiEncode_repr (int t)
  have hcanonical : canonical (int t).repr request =
      .ok ([10].intercalate [method, request.rawPath, text, request.content]) := by
    rw [canonical, decodeAscii_eq_ok.mpr hpath, encodeAscii_eq_ok.mpr hmethod, encodeAscii_eq_ok.mpr htext]
    simp only [Except.bind, bind, encodeAscii_eq_ok.mpr (asciiEncode_of_decode hpath)]
    rfl
  have hsignature : ∀ d : Bytes, ∃ signature, decodeAscii (b64encode d) = .ok signature := fun d =>
    ⟨_, decodeAscii_eq_ok.mpr (asciiDecode_of_ascii fun x hx => ascii_b64encode hx)⟩
  obtain ⟨signature, hsignature⟩ := hsignature (hmacSha256 auth.secret
    ([10].intercalate [method, request.rawPath, text, request.content]))
  simp only [authFlow, bind, Except.bind, htime, hcanonical, hsignature]
  cases auth.keyId with
  | none => exact ⟨_, rfl⟩
  | some keyId => exact ⟨_, rfl⟩

end HMACAuth

/-- **A signature covers one request.**  `auth_flow` signs the canonical bytes of the request at the time of the
clock, and two requests that give it the same bytes are the same, signed at the same second; requests with equal
signatures have equal digests. -/
theorem signatures_bind (hmacSha256 : Bytes → Bytes → Bytes) (auth : HMACAuth) {time time' : Except PyExc ℚ}
    {request request' signed signed' : Outgoing}
    (hmethod : '\n' ∉ request.method.toList) (hmethod' : '\n' ∉ request'.method.toList)
    (hpath : 10 ∉ request.rawPath) (hpath' : 10 ∉ request'.rawPath)
    (h : auth.authFlow hmacSha256 time request = .ok signed)
    (h' : auth.authFlow hmacSha256 time' request' = .ok signed') :
    ∃ t t' c c', time = .ok t ∧ time' = .ok t' ∧
      HMACAuth.canonical (int t).repr request = .ok c ∧ HMACAuth.canonical (int t').repr request' = .ok c' ∧
      auth.Signed hmacSha256 c signed ∧ auth.Signed hmacSha256 c' signed' ∧
      (c = c' → request.method = request'.method ∧ request.rawPath = request'.rawPath ∧ int t = int t' ∧
        request.content = request'.content) ∧
      (valuesOf "X-Signature" signed.headers = valuesOf "X-Signature" signed'.headers →
        hmacSha256 auth.secret c = hmacSha256 auth.secret c') := by
  obtain ⟨t, c, htime, hc, hsigned, -⟩ := HMACAuth.authFlow_eq_ok h
  obtain ⟨t', c', htime', hc', hsigned', -⟩ := HMACAuth.authFlow_eq_ok h'
  refine ⟨t, t', c, c', htime, htime', hc, hc', hsigned, hsigned', ?_, hsigned.digest_eq hsigned'⟩
  rintro rfl
  exact HMACAuth.canonical_inj hmethod hmethod' hpath hpath' hc hc'

/-- `HMACAuth(b"shhh")` -/
def partner : HMACAuth where
  secret := [115, 104, 104, 104]
  nonempty := List.cons_ne_nil _ _

/-- `POST /v1/sign?a=1` with the body `{"k":"v"}` -/
def order : Outgoing where
  method := "POST"
  rawPath := [47, 118, 49, 47, 115, 105, 103, 110, 63, 97, 61, 49]
  content := [123, 34, 107, 34, 58, 34, 118, 34, 125]

/-- The digest of that request at 1700000000. -/
def orderDigest : Bytes :=
  [131, 247, 64, 67, 136, 101, 166, 148, 245, 30, 252, 5, 114, 210, 195, 46, 242, 221, 252, 1, 204, 97, 188, 123, 16,
    62, 11, 178, 42, 197, 224, 10]

def signedOrder : Outgoing :=
  { order with headers := [("X-Signature", "g/dAQ4hlppT1HvwFctLDLvLd/AHMYbx7ED4LsirF4Ao="),
    ("X-Signature-Timestamp", "1700000000")] }

/-- The same order twice within a second. -/
theorem signatures_bind_order : ∃ c c', HMACAuth.canonical (int (17000000001 / 10)).repr order = .ok c ∧
    HMACAuth.canonical (int (17000000009 / 10)).repr order = .ok c' ∧
    (c = c' → int (17000000001 / 10) = int (17000000009 / 10)) ∧
    partner.Signed (fun _ _ => orderDigest) c signedOrder := by
  have hmethod : '\n' ∉ order.method.toList := by decide
  have hpath : 10 ∉ order.rawPath := by decide
  have h : partner.authFlow (fun _ _ => orderDigest) (.ok (17000000001 / 10)) order = .ok signedOrder := by
    decide +kernel
  have h' : partner.authFlow (fun _ _ => orderDigest) (.ok (17000000009 / 10)) order = .ok signedOrder := by
    decide +kernel
  obtain ⟨t, t', c, c', ht, ht', hc, hc', hsigned, -, hbind, -⟩ :=
    signatures_bind (fun _ _ => orderDigest) partner hmethod hmethod hpath hpath h h'
  obtain rfl := Except.ok.inj ht
  obtain rfl := Except.ok.inj ht'
  exact ⟨c, c', hc, hc', fun heq => (hbind heq).2.2.1, hsigned⟩

end ResilienceKit.HttpClient

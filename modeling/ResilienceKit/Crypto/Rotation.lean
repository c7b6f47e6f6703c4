import Mathlib.Tactic.Linarith
import ResilienceKit.Crypto.Fernet
import ResilienceKit.Lib.Mealy

/-!
# Crypto.Rotation — stored tokens under changing keys

A table of encrypted columns and the process that works on it: values are stored, the keys are replaced by a
redeployment, tokens are rotated one by one and read in between.  A row is `Kept` under the settings if the
source of its key is still among them; a kept row is readable, and every step keeps the rows.
-/

namespace ResilienceKit

open Codec
open Mealy (exec_append exec_cons exec_nil exec_concat log_concat)

variable {Key Nonce : Type}

/-- The key sources that the cipher uses. -/
def CryptoSettings.keySources (s : CryptoSettings) : List String :=
  if s.orderedKeys ≠ [] then s.orderedKeys
  else if s.environment = .prod then []
  else [DEV_FALLBACK_KEY]

namespace KeyRotation

/-- A stored value: what was stored, the column, and the key source under which it was last written. -/
structure Row where
  value : Option String
  column : Option String
  source : Option String
  deriving DecidableEq

structure Table (Key : Type) where
  process : Process Key := {}
  rows : List Row := []

inductive Field
  | encryptedString
  | encryptedCharField
  deriving DecidableEq

inductive Ev (Nonce : Type)
  | encrypt (plaintext : String) (nonce : Nonce)
  | bind (field : Field) (value : Option String) (nonce : Nonce)
  | configure (settings : CryptoSettings)
  | rotate (i : ℕ) (nonce : Nonce)
  | decrypt (i : ℕ)
  | result (field : Field) (i : ℕ) (asBytes : Bool)

inductive Out
  | done
  | value (v : Option String)
  | raised (exc : PyExc)
  deriving DecidableEq

/-- What the driver hands back of a column. -/
def present (asBytes : Bool) : Option String → Option DbValue
  | none => none
  | some c =>
    if asBytes then
      match asciiEncode c with
      | some b => some (.bytes b)
      | none => some (.text c)
    else some (.text c)

section Machine

variable (F : Cryptography Key Nonce) (sha256 : Bytes → Bytes)

def Field.bind (nonce : Nonce) (value : Option String) : Field → PyM Key (Option String)
  | .encryptedString => EncryptedString.processBindParam F sha256 nonce value
  | .encryptedCharField => EncryptedCharField.getPrepValue F sha256 nonce value

def Field.result (raw : Option DbValue) : Field → PyM Key (Option String)
  | .encryptedString => EncryptedString.processResultValue F sha256 raw
  | .encryptedCharField => EncryptedCharField.fromDbValue F sha256 raw

/-- The source of what is written under the settings; nothing encrypts a missing or an empty value. -/
def writtenUnder (s : CryptoSettings) (value : Option String) : Option String :=
  if value = none ∨ value = some "" then none else s.keySources.head?

/-- Adds a row if the column was computed. -/
def stored (w : Table Key) (value : Option String) : EStateM.Result PyExc (Process Key) (Option String) →
    Table Key × Out
  | .ok column p => (⟨p, w.rows ++ [⟨value, column, writtenUnder w.process.settings value⟩]⟩, .done)
  | .error exc p => (⟨p, w.rows⟩, .raised exc)

def table (settings : CryptoSettings) : Mealy (Table Key) (Ev Nonce) Out where
  init := { process := { settings } }
  step w e :=
    match e with
    | .encrypt plaintext nonce =>
      stored w (some plaintext) ((do return some (← FernetCipher.encrypt F sha256 nonce plaintext)).run w.process)
    | .bind field value nonce => stored w value ((field.bind F sha256 nonce value).run w.process)
    | .configure settings => (⟨{ settings }, w.rows⟩, .done)
    | .rotate i nonce =>
      match w.rows[i]? with
      | some ⟨value, some token, _⟩ =>
        match (FernetCipher.rotate F sha256 nonce token).run w.process with
        | .ok token p =>
          (⟨p, w.rows.set i ⟨value, some token, writtenUnder w.process.settings value⟩⟩, .done)
        | .error exc p => (⟨p, w.rows⟩, .raised exc)
      | _ => (w, .done)
    | .decrypt i =>
      match w.rows[i]? with
      | some ⟨_, some token, _⟩ =>
        match (FernetCipher.decrypt F sha256 token).run w.process with
        | .ok v p => (⟨p, w.rows⟩, .value (some v))
        | .error exc p => (⟨p, w.rows⟩, .raised exc)
      | _ => (w, .done)
    | .result field i asBytes =>
      match w.rows[i]? with
      | some row =>
        match (field.result F sha256 (present asBytes row.column)).run w.process with
        | .ok v p => (⟨p, w.rows⟩, .value v)
        | .error exc p => (⟨p, w.rows⟩, .raised exc)
      | none => (w, .done)

end Machine

end KeyRotation

/-! ### One use of the cipher -/

section Cipher

variable {F : Cryptography Key Nonce} {sha256 : Bytes → Bytes}

theorem PyM.bind_ok {α β : Type} {x : PyM Key α} {f : α → PyM Key β} {p p' : Process Key} {a : α}
    (h : x.run p = .ok a p') : (x >>= f).run p = (f a).run p' := by
  rw [EStateM.run_bind, h]

theorem PyM.bind_error {α β : Type} {x : PyM Key α} {f : α → PyM Key β} {p p' : Process Key} {exc : PyExc}
    (h : x.run p = .error exc p') : (x >>= f).run p = .error exc p' := by
  rw [EStateM.run_bind, h]

/-- Every key source gives a key. -/
theorem fernetOf_ok (hF : F.Lawful) (hsha : ∀ b, (sha256 b).length = 32) (k : String) :
    ∃ key, fernetOf F sha256 k = .ok key := by
  unfold fernetOf resolveFernetKey
  cases hk : F.Fernet (utf8Encode k) with
  | ok key =>
    refine ⟨key, ?_⟩
    show F.Fernet (utf8Encode k) = .ok key
    exact hk
  | error exc =>
    obtain ⟨key, hkey⟩ := hF.accepts (sha256 (utf8Encode k)) (hsha _)
    refine ⟨key, ?_⟩
    simp only [hF.refuses _ _ hk, if_true]
    exact hkey

theorem mapM_fernetOf (hF : F.Lawful) (hsha : ∀ b, (sha256 b).length = 32) (ks : List String) :
    ∃ keys, ks.mapM (fernetOf F sha256) = .ok keys ∧
      ∀ k ∈ ks, ∃ key ∈ keys, fernetOf F sha256 k = .ok key := by
  induction ks with
  | nil => exact ⟨[], rfl, by simp⟩
  | cons k ks ih =>
    obtain ⟨keys, hkeys, hall⟩ := ih
    obtain ⟨key, hkey⟩ := fernetOf_ok hF hsha k
    refine ⟨key :: keys, ?_, fun k' hk' => ?_⟩
    · rw [List.mapM_cons, hkey, hkeys]
      rfl
    · rcases List.mem_cons.mp hk' with rfl | hk'
      · exact ⟨key, by simp, hkey⟩
      · obtain ⟨key', hmem, hkey'⟩ := hall k' hk'
        exact ⟨key', List.mem_cons_of_mem _ hmem, hkey'⟩

/-- The `MultiFernet` has the keys of the sources, its primary first. -/
theorem buildFernet_ok (hF : F.Lawful) (hsha : ∀ b, (sha256 b).length = 32) {s : CryptoSettings} {k : String}
    {ks : List String} (hs : s.keySources = k :: ks) : ∃ f, buildFernet F sha256 s = .ok f ∧
      fernetOf F sha256 k = .ok f.primary ∧
      ∀ k' ∈ s.keySources, ∃ key ∈ f.primary :: f.others, fernetOf F sha256 k' = .ok key := by
  obtain ⟨key, hkey⟩ := fernetOf_ok hF hsha k
  obtain ⟨keys, hkeys, hall⟩ := mapM_fernetOf hF hsha ks
  refine ⟨⟨key, keys⟩, ?_, hkey, fun k' hk' => ?_⟩
  · unfold CryptoSettings.keySources at hs
    unfold buildFernet
    cases ho : s.orderedKeys with
    | nil =>
      rw [ho] at hs
      split_ifs at hs with hcontra hprod
      obtain ⟨rfl, rfl⟩ := List.cons.inj hs
      obtain rfl : [] = keys := Except.ok.inj hkeys
      simp only [if_neg hprod, hkey]
      rfl
    | cons k₀ ks₀ =>
      rw [ho, if_pos (by simp)] at hs
      obtain ⟨rfl, rfl⟩ := List.cons.inj hs
      simp only [hkey, hkeys]
      rfl
  · rw [hs] at hk'
    rcases List.mem_cons.mp hk' with rfl | hk'
    · exact ⟨key, by simp, hkey⟩
    · obtain ⟨key', hmem, hkey'⟩ := hall k' hk'
      exact ⟨key', List.mem_cons_of_mem _ hmem, hkey'⟩

/-- Without a source there is no cipher. -/
theorem buildFernet_nil {s : CryptoSettings} (hs : s.keySources = []) :
    buildFernet F sha256 s = .error ⟨.encryptionConfigError, 0⟩ := by
  unfold CryptoSettings.keySources at hs
  split_ifs at hs with ho hprod
  · exact absurd hs ho
  · rw [buildFernet, not_not.mp ho]
    exact if_pos hprod

theorem tryKeys_ok (hF : F.Lawful) {key : Key} {keys : List Key} (hk : key ∈ keys) (n : Nonce) (m : Bytes) :
    MultiFernet.tryKeys F keys (F.encrypt key n m) = .ok m := by
  induction keys with
  | nil => cases hk
  | cons k keys ih =>
    unfold MultiFernet.tryKeys
    by_cases heq : k = key
    · subst heq
      rw [hF.decrypts]
    · obtain ⟨exc, hexc, hinvalid⟩ := hF.rejects key k n m heq
      rw [hexc]
      simp only [hinvalid, if_true]
      exact ih ((List.mem_cons.mp hk).resolve_left fun h => heq h.symm)

theorem MultiFernet.decrypt_ok (hF : F.Lawful) {f : MultiFernet Key} {key : Key} (hk : key ∈ f.primary :: f.others)
    (n : Nonce) (m : Bytes) : f.decrypt F (F.encrypt key n m) = .ok m := tryKeys_ok hF hk n m

theorem MultiFernet.rotate_eq (f : MultiFernet Key) (n : Nonce) (token : Bytes) :
    f.rotate F n token = (f.decrypt F token).map (f.encrypt F n) := by
  rw [rotate]
  cases f.decrypt F token <;> rfl

/-- The cache holds what the settings stand for. -/
def Process.Fresh (F : Cryptography Key Nonce) (sha256 : Bytes → Bytes) (p : Process Key) : Prop :=
  ∀ f, p.cached = some f → buildFernet F sha256 p.settings = .ok f

theorem fresh_filled {p : Process Key} {f : MultiFernet Key} (h : buildFernet F sha256 p.settings = .ok f) :
    Process.Fresh F sha256 { p with cached := some f } := by
  rintro f' hf
  obtain rfl := Option.some.inj hf
  exact h

/-- The first use fills the cache, the others read it. -/
theorem fernet_eq {p : Process Key} (hp : p.Fresh F sha256) : (fernet F sha256).run p =
    match buildFernet F sha256 p.settings with
    | .ok f => .ok f { p with cached := some f }
    | .error exc => .error exc p := by
  obtain ⟨settings, cached⟩ := p
  cases cached with
  | none =>
    have hmiss : (fernet F sha256).run ⟨settings, none⟩ = (PyM.ofExcept (buildFernet F sha256 settings) >>= fun f =>
        (do
          set (⟨settings, some f⟩ : Process Key)
          return f : PyM Key (MultiFernet Key))).run ⟨settings, none⟩ := rfl
    rw [hmiss]
    cases buildFernet F sha256 settings with
    | ok f => rfl
    | error exc => rfl
  | some f =>
    have hbuild : buildFernet F sha256 settings = .ok f := hp f rfl
    simp only [hbuild]
    rfl

theorem fernet_run {p : Process Key} {f : MultiFernet Key} (hp : p.Fresh F sha256)
    (h : buildFernet F sha256 p.settings = .ok f) :
    (fernet F sha256).run p = .ok f { p with cached := some f } := by
  rw [fernet_eq hp, h]

theorem fernet_error {p : Process Key} {exc : PyExc} (hp : p.Fresh F sha256)
    (h : buildFernet F sha256 p.settings = .error exc) : (fernet F sha256).run p = .error exc p := by
  rw [fernet_eq hp, h]

/-- The use of the cipher leaves the settings alone and the cache right. -/
structure Process.Steady (F : Cryptography Key Nonce) (sha256 : Bytes → Bytes) (p p' : Process Key) : Prop where
  fresh : p'.Fresh F sha256
  settings : p'.settings = p.settings

theorem PyM.ofOption_run {α : Type} {cls : PyClass} {x : Option α} {a : α} (h : x = some a)
    (p : Process Key) : (PyM.ofOption cls x : PyM Key α).run p = .ok a p := by
  subst h
  rfl

theorem PyM.ofExcept_run {α : Type} {x : Except PyExc α} {a : α} (h : x = .ok a) (p : Process Key) :
    (PyM.ofExcept x : PyM Key α).run p = .ok a p := by
  subst h
  rfl

namespace FernetCipher

theorem decrypting_run {body : PyM Key String} {p p' : Process Key} {s : String} (h : body.run p = .ok s p') :
    (decrypting body).run p = .ok s p' := by
  have hbody : body p = .ok s p' := h
  simp [decrypting, EStateM.run, tryCatch, tryCatchThe, MonadExceptOf.tryCatch, EStateM.tryCatch, hbody]

variable {p : Process Key} {f : MultiFernet Key}

theorem encrypt_run (hF : F.Lawful) (hp : p.Fresh F sha256) (hf : buildFernet F sha256 p.settings = .ok f)
    {v : String} (hv : v ≠ "") (n : Nonce) : ∃ c, (encrypt F sha256 n v).run p = .ok c { p with cached := some f } ∧
      asciiDecode (F.encrypt f.primary n (utf8Encode v)) = some c := by
  refine ⟨_, ?_, asciiDecode_of_ascii (hF.ascii _ _ _)⟩
  rw [encrypt, if_neg hv, PyM.bind_ok (fernet_run hp hf)]
  exact PyM.ofOption_run (asciiDecode_of_ascii (hF.ascii _ _ _)) _

variable {key : Key} {v c : String} {n : Nonce}

theorem decrypt_run (hF : F.Lawful) (hp : p.Fresh F sha256) (hf : buildFernet F sha256 p.settings = .ok f)
    (hkey : key ∈ f.primary :: f.others) (hc : c ≠ "")
    (htoken : asciiEncode c = some (F.encrypt key n (utf8Encode v))) :
    (decrypt F sha256 c).run p = .ok v { p with cached := some f } := by
  rw [decrypt, if_neg hc]
  refine decrypting_run ?_
  rw [PyM.bind_ok (fernet_run hp hf), PyM.bind_ok (PyM.ofOption_run htoken _),
    PyM.bind_ok (PyM.ofExcept_run (MultiFernet.decrypt_ok hF hkey n _) _)]
  exact PyM.ofOption_run (utf8Decode_utf8Encode v) _

theorem rotate_run (hF : F.Lawful) (hp : p.Fresh F sha256) (hf : buildFernet F sha256 p.settings = .ok f)
    (hkey : key ∈ f.primary :: f.others) (hc : c ≠ "")
    (htoken : asciiEncode c = some (F.encrypt key n (utf8Encode v)))
    (n' : Nonce) : ∃ c', (rotate F sha256 n' c).run p = .ok c' { p with cached := some f } ∧
      asciiDecode (F.encrypt f.primary n' (utf8Encode v)) = some c' := by
  refine ⟨_, ?_, asciiDecode_of_ascii (hF.ascii _ _ _)⟩
  have hrotate : f.rotate F n' (F.encrypt key n (utf8Encode v)) = .ok (F.encrypt f.primary n' (utf8Encode v)) := by
    rw [MultiFernet.rotate_eq, MultiFernet.decrypt_ok hF hkey]
    rfl
  rw [rotate, if_neg hc]
  refine decrypting_run ?_
  rw [PyM.bind_ok (fernet_run hp hf), PyM.bind_ok (PyM.ofOption_run htoken _),
    PyM.bind_ok (PyM.ofExcept_run hrotate _)]
  exact PyM.ofOption_run (asciiDecode_of_ascii (hF.ascii _ _ _)) _

end FernetCipher

end Cipher

namespace KeyRotation

section Rows

variable (F : Cryptography Key Nonce) (sha256 : Bytes → Bytes)

/-- The source of the row's key is among those of the settings. -/
inductive Kept (s : CryptoSettings) : Row → Prop
  | null : Kept s ⟨none, none, none⟩
  | empty : Kept s ⟨some "", some "", none⟩
  | token {v c k : String} {key : Key} {n : Nonce} (hv : v ≠ "") (hkey : fernetOf F sha256 k = .ok key)
      (hc : asciiDecode (F.encrypt key n (utf8Encode v)) = some c) (hk : k ∈ s.keySources) :
      Kept s ⟨some v, some c, some k⟩

/-- However it is read, the row gives back what was stored. -/
structure Readable (p : Process Key) (row : Row) : Prop where
  cipher : ∀ c, row.column = some c →
    ∃ v p', row.value = some v ∧ (FernetCipher.decrypt F sha256 c).run p = .ok v p'
  field : ∀ (field : Field) (asBytes : Bool),
    ∃ p', (field.result F sha256 (present asBytes row.column)).run p = .ok row.value p'

variable {F} {sha256} {s s' : CryptoSettings} {row : Row} {p : Process Key}

/-- Only the source of the row matters. -/
theorem Kept.change (h : Kept F sha256 s row) (hk : ∀ k, row.source = some k → k ∈ s'.keySources) :
    Kept F sha256 s' row := by
  cases h with
  | null => exact .null
  | empty => exact .empty
  | token hv hkey hc _ => exact .token hv hkey hc (hk _ rfl)

theorem Kept.source (h : Kept F sha256 s row) {k : String} (hk : row.source = some k) : k ∈ s.keySources := by
  cases h with
  | null => cases hk
  | empty => cases hk
  | token hv hkey hc hmem =>
    obtain rfl := Option.some.inj hk
    exact hmem

/-- The key that a source among those of the settings stands for. -/
theorem exists_key (hF : F.Lawful) (hsha : ∀ b, (sha256 b).length = 32) {k : String} {key : Key}
    (hkey : fernetOf F sha256 k = .ok key) (hk : k ∈ s.keySources) :
    ∃ f, buildFernet F sha256 s = .ok f ∧ key ∈ f.primary :: f.others := by
  cases hs : s.keySources with
  | nil =>
    rw [hs] at hk
    cases hk
  | cons k₀ ks =>
    obtain ⟨f, hf, -, hall⟩ := buildFernet_ok hF hsha hs
    obtain ⟨key', hmem, hkey'⟩ := hall k hk
    obtain rfl : key = key' := Except.ok.inj (hkey.symm.trans hkey')
    exact ⟨f, hf, hmem⟩

/-- A read of a kept token. -/
theorem decrypt_token (hF : F.Lawful) (hsha : ∀ b, (sha256 b).length = 32) (hp : p.Fresh F sha256) {v c k : String}
    {key : Key} {n : Nonce} (hkey : fernetOf F sha256 k = .ok key)
    (hc : asciiDecode (F.encrypt key n (utf8Encode v)) = some c) (hk : k ∈ p.settings.keySources) :
    ∃ p', (FernetCipher.decrypt F sha256 c).run p = .ok v p' ∧ p.Steady F sha256 p' := by
  obtain ⟨f, hf, hmem⟩ := exists_key hF hsha hkey hk
  exact ⟨_, FernetCipher.decrypt_run hF hp hf hmem (ne_empty_of_asciiDecode hc (hF.nonempty _ _ _))
    (asciiEncode_of_decode hc), fresh_filled hf, rfl⟩

/-- What comes out of a column is decrypted, as text or as bytes. -/
theorem result_run {c : String} {b : Bytes} (hb : asciiEncode c = some b) (hc : asciiDecode b = some c) {v : String}
    {p' : Process Key} (h : (FernetCipher.decrypt F sha256 c).run p = .ok v p') (field : Field) (asBytes : Bool) :
    (field.result F sha256 (present asBytes (some c))).run p = .ok (some v) p' := by
  have hcolumn : (fromColumn F sha256 (present asBytes (some c))).run p = .ok (some v) p' := by
    cases asBytes with
    | false =>
      show ((FernetCipher.decrypt F sha256 c) >>= fun v => pure (some v)).run p = _
      rw [PyM.bind_ok h]
      rfl
    | true =>
      have hraw : present true (some c) = some (.bytes b) := by simp [present, hb]
      rw [hraw]
      show (PyM.ofOption .unicodeDecodeError (asciiDecode b) >>= fun s =>
        FernetCipher.decrypt F sha256 s >>= fun v => pure (some v)).run p = _
      rw [PyM.bind_ok (PyM.ofOption_run hc p), PyM.bind_ok h]
      rfl
  cases field with
  | encryptedString => exact hcolumn
  | encryptedCharField => exact hcolumn

theorem Kept.decrypts (hF : F.Lawful) (hsha : ∀ b, (sha256 b).length = 32) (hp : p.Fresh F sha256)
    (h : Kept F sha256 p.settings row) {c : String} (hc : row.column = some c) :
    ∃ v p', row.value = some v ∧ (FernetCipher.decrypt F sha256 c).run p = .ok v p' ∧ p.Steady F sha256 p' := by
  cases h with
  | null => cases hc
  | empty =>
    obtain rfl := Option.some.inj hc
    exact ⟨"", p, rfl, rfl, hp, rfl⟩
  | token hv hkey hdec hk =>
    obtain rfl := Option.some.inj hc
    obtain ⟨p', hrun, hsteady⟩ := decrypt_token hF hsha hp hkey hdec hk
    exact ⟨_, p', rfl, hrun, hsteady⟩

theorem Kept.results (hF : F.Lawful) (hsha : ∀ b, (sha256 b).length = 32) (hp : p.Fresh F sha256)
    (h : Kept F sha256 p.settings row) (field : Field) (asBytes : Bool) :
    ∃ p', (field.result F sha256 (present asBytes row.column)).run p = .ok row.value p' ∧
      p.Steady F sha256 p' := by
  cases h with
  | null =>
    refine ⟨p, ?_, hp, rfl⟩
    cases field <;> rfl
  | empty => exact ⟨p, result_run (b := []) rfl rfl rfl field asBytes, hp, rfl⟩
  | token hv hkey hdec hk =>
    obtain ⟨p', hrun, hsteady⟩ := decrypt_token hF hsha hp hkey hdec hk
    exact ⟨p', result_run (asciiEncode_of_decode hdec) hdec hrun field asBytes, hsteady⟩

theorem Kept.readable (hF : F.Lawful) (hsha : ∀ b, (sha256 b).length = 32) (hp : p.Fresh F sha256)
    (h : Kept F sha256 p.settings row) : Readable F sha256 p row := by
  refine ⟨fun c hc => ?_, fun field asBytes => ?_⟩
  · obtain ⟨v, p', hv, hrun, -⟩ := h.decrypts hF hsha hp hc
    exact ⟨v, p', hv, hrun⟩
  · obtain ⟨p', hrun, -⟩ := h.results hF hsha hp field asBytes
    exact ⟨p', hrun⟩

/-! ### What one step does -/

/-- The row was last written under the first of the sources. -/
def UnderPrimary (s : CryptoSettings) (row : Row) : Prop :=
  ∀ k, row.source = some k → s.keySources.head? = some k

/-- Every row is kept. -/
structure Sound (F : Cryptography Key Nonce) (sha256 : Bytes → Bytes) (w : Table Key) : Prop where
  fresh : w.process.Fresh F sha256
  rows : ∀ row ∈ w.rows, Kept F sha256 w.process.settings row

/-- What one step does to a table whose rows are kept. -/
inductive Turn (F : Cryptography Key Nonce) (sha256 : Bytes → Bytes) (w w' : Table Key) : Ev Nonce → Prop
  | configured (s : CryptoSettings) (h : w' = ⟨{ settings := s }, w.rows⟩) : Turn F sha256 w w' (.configure s)
  | idle (e : Ev Nonce) (hp : w.process.Steady F sha256 w'.process) (hrows : w'.rows = w.rows)
      (he : ∀ s, e ≠ .configure s) (hr : ∀ i n, e = .rotate i n → ∀ row, w.rows[i]? = some row → row.source = none) :
      Turn F sha256 w w' e
  | added (e : Ev Nonce) (row : Row) (hp : w.process.Steady F sha256 w'.process) (hrows : w'.rows = w.rows ++ [row])
      (hrow : Kept F sha256 w.process.settings row) (hu : UnderPrimary w.process.settings row)
      (he : ∀ s, e ≠ .configure s) (hr : ∀ i n, e ≠ .rotate i n) : Turn F sha256 w w' e
  | rotated (i : ℕ) (n : Nonce) (row row' : Row) (hp : w.process.Steady F sha256 w'.process)
      (hat : w.rows[i]? = some row) (hrows : w'.rows = w.rows.set i row') (hvalue : row'.value = row.value)
      (hrow : Kept F sha256 w.process.settings row') (hu : UnderPrimary w.process.settings row') :
      Turn F sha256 w w' (.rotate i n)

variable {w : Table Key}

theorem writtenUnder_token {v k : String} {ks : List String} (hv : v ≠ "") (hs : s.keySources = k :: ks) :
    writtenUnder s (some v) = some k := by
  simp [writtenUnder, hv, hs]

/-- What is written under the settings is kept. -/
theorem kept_written {v k c : String} {ks : List String} {key : Key} {n : Nonce} (hv : v ≠ "")
    (hs : s.keySources = k :: ks) (hkey : fernetOf F sha256 k = .ok key)
    (hc : asciiDecode (F.encrypt key n (utf8Encode v)) = some c) :
    Kept F sha256 s ⟨some v, some c, writtenUnder s (some v)⟩ := by
  rw [writtenUnder_token hv hs]
  exact .token hv hkey hc (by simp [hs])

theorem underPrimary_written (value column : Option String) :
    UnderPrimary s ⟨value, column, writtenUnder s value⟩ := by
  intro k hk
  simp only [writtenUnder] at hk
  split_ifs at hk
  exact hk

/-- A store: the table has one more row, or the process has no key. -/
theorem stored_turn (hF : F.Lawful) (hsha : ∀ b, (sha256 b).length = 32) (hw : Sound F sha256 w)
    (value : Option String) (n : Nonce) {e : Ev Nonce} (he : ∀ s, e ≠ .configure s) (hr : ∀ i n, e ≠ .rotate i n) :
    Turn F sha256 w (stored w value ((toColumn F sha256 n value).run w.process)).1 e := by
  have hsteady : w.process.Steady F sha256 w.process := ⟨hw.fresh, rfl⟩
  cases value with
  | none => exact .added e ⟨none, none, none⟩ hsteady rfl .null (underPrimary_written none none) he hr
  | some v =>
    by_cases hv : v = ""
    · subst hv
      exact .added e ⟨some "", some "", none⟩ hsteady rfl .empty (underPrimary_written (some "") (some "")) he hr
    · cases hs : w.process.settings.keySources with
      | nil =>
        have hrun : (toColumn F sha256 n (some v)).run w.process = .error ⟨.encryptionConfigError, 0⟩ w.process := by
          show (FernetCipher.encrypt F sha256 n v >>= fun c => pure (some c)).run w.process = _
          rw [FernetCipher.encrypt, if_neg hv]
          exact PyM.bind_error (PyM.bind_error (fernet_error hw.fresh (buildFernet_nil hs)))
        rw [hrun]
        exact .idle e hsteady rfl he fun i n h => absurd h (hr i n)
      | cons k ks =>
        obtain ⟨f, hf, hkey, -⟩ := buildFernet_ok hF hsha hs
        obtain ⟨c, hrun, hc⟩ := FernetCipher.encrypt_run hF hw.fresh hf hv n
        have hcolumn : (toColumn F sha256 n (some v)).run w.process =
            .ok (some c) { w.process with cached := some f } := by
          show (FernetCipher.encrypt F sha256 n v >>= fun c => pure (some c)).run w.process = _
          rw [PyM.bind_ok hrun]
          rfl
        rw [hcolumn]
        exact .added e _ ⟨fresh_filled hf, rfl⟩ rfl (kept_written hv hs hkey hc) (underPrimary_written _ _) he hr

theorem turn (hF : F.Lawful) (hsha : ∀ b, (sha256 b).length = 32) (hw : Sound F sha256 w) (settings : CryptoSettings)
    (e : Ev Nonce) : Turn F sha256 w ((table F sha256 settings).next w e) e := by
  have hsteady : w.process.Steady F sha256 w.process := ⟨hw.fresh, rfl⟩
  cases e with
  | encrypt plaintext n => exact stored_turn hF hsha hw (some plaintext) n (by simp) (by simp)
  | bind field value n =>
    cases field with
    | encryptedString => exact stored_turn hF hsha hw value n (by simp) (by simp)
    | encryptedCharField => exact stored_turn hF hsha hw value n (by simp) (by simp)
  | configure s => exact .configured s rfl
  | rotate i n =>
    unfold Mealy.next
    cases hat : w.rows[i]? with
    | none =>
      simp only [table, hat]
      exact .idle _ hsteady rfl (by simp) fun i' n' heq row hrow => by
        obtain ⟨rfl, rfl⟩ := Ev.rotate.inj heq
        cases hat.symm.trans hrow
    | some row =>
      cases hw.rows row (List.mem_of_getElem? hat) with
      | null =>
        simp only [table, hat]
        exact .idle _ hsteady rfl (by simp) fun i' n' heq row hrow => by
          obtain ⟨rfl, rfl⟩ := Ev.rotate.inj heq
          obtain rfl := Option.some.inj (hat.symm.trans hrow)
          rfl
      | empty =>
        have hrun : (FernetCipher.rotate F sha256 n "").run w.process = .ok "" w.process := rfl
        simp only [table, hat, hrun]
        exact .rotated i n _ _ hsteady hat rfl rfl .empty (underPrimary_written _ _)
      | token hv hkey hc hk =>
        obtain ⟨f, hf, hmem⟩ := exists_key hF hsha hkey hk
        obtain ⟨c', hrun, hc'⟩ := FernetCipher.rotate_run hF hw.fresh hf hmem
          (ne_empty_of_asciiDecode hc (hF.nonempty _ _ _)) (asciiEncode_of_decode hc) n
        simp only [table, hat, hrun]
        cases hs : w.process.settings.keySources with
        | nil =>
          rw [hs] at hk
          cases hk
        | cons k₀ ks =>
          obtain ⟨f', hf', hprimary, -⟩ := buildFernet_ok hF hsha hs
          obtain rfl : f = f' := Except.ok.inj (hf.symm.trans hf')
          exact .rotated i n _ _ ⟨fresh_filled hf, rfl⟩ hat rfl rfl (kept_written hv hs hprimary hc')
            (underPrimary_written _ _)
  | decrypt i =>
    unfold Mealy.next
    cases hat : w.rows[i]? with
    | none =>
      simp only [table, hat]
      exact .idle _ hsteady rfl (by simp) (by simp)
    | some row =>
      have hkept := hw.rows row (List.mem_of_getElem? hat)
      obtain ⟨value, _ | token, source⟩ := row
      · simp only [table, hat]
        exact .idle _ hsteady rfl (by simp) (by simp)
      · obtain ⟨v, p', -, hrun, hsteady'⟩ := hkept.decrypts hF hsha hw.fresh rfl
        simp only [table, hat, hrun]
        exact .idle _ hsteady' rfl (by simp) (by simp)
  | result field i asBytes =>
    unfold Mealy.next
    cases hat : w.rows[i]? with
    | none =>
      simp only [table, hat]
      exact .idle _ hsteady rfl (by simp) (by simp)
    | some row =>
      obtain ⟨p', hrun, hsteady'⟩ := (hw.rows row (List.mem_of_getElem? hat)).results hF hsha hw.fresh field asBytes
      simp only [table, hat, hrun]
      exact .idle _ hsteady' rfl (by simp) (by simp)

/-- A configuration keeps the sources under which the rows were last written. -/
def KeepsSources (w : Table Key) (e : Ev Nonce) : Prop :=
  ∀ s, e = .configure s → ∀ row ∈ w.rows, ∀ k, row.source = some k → k ∈ s.keySources

theorem keepsSources_configure {sources : List (Option String)} (hrows : w.rows.map Row.source = sources)
    (h : ∀ k, some k ∈ sources → k ∈ s.keySources) : KeepsSources w (.configure s : Ev Nonce) := by
  rintro s' heq row hrow k hk
  obtain rfl := Ev.configure.inj heq
  refine h k ?_
  rw [← hrows, ← hk]
  exact List.mem_map_of_mem hrow

/-- **Step lemma**. -/
theorem Sound.next {w' : Table Key} {e : Ev Nonce} (hw : Sound F sha256 w) (h : Turn F sha256 w w' e)
    (hk : KeepsSources w e) : Sound F sha256 w' := by
  cases h with
  | configured s h =>
    subst h
    refine ⟨fun f hf => ?_, fun row hrow => ?_⟩
    · cases hf
    · exact (hw.rows row hrow).change (hk s rfl row hrow)
  | idle _ hp hrows he hr =>
    refine ⟨hp.fresh, fun row hrow => ?_⟩
    rw [hp.settings]
    exact hw.rows row (hrows ▸ hrow)
  | added _ row' hp hrows hrow' hu he hr =>
    refine ⟨hp.fresh, fun row hrow => ?_⟩
    rw [hp.settings]
    rw [hrows] at hrow
    rcases List.mem_append.mp hrow with hrow | hrow
    · exact hw.rows row hrow
    · rw [List.mem_singleton.mp hrow]
      exact hrow'
  | rotated i n row₀ row' hp hat hrows hvalue hrow' hu =>
    refine ⟨hp.fresh, fun row hrow => ?_⟩
    rw [hp.settings]
    rw [hrows] at hrow
    rcases List.mem_or_eq_of_mem_set hrow with hrow | rfl
    · exact hw.rows row hrow
    · exact hrow'

/-! ### Whole runs -/

/-- The row was brought up to date in the run: it is new or was rotated. -/
structure Migrated (w₀ w : Table Key) (mid : List (Ev Nonce)) : Prop where
  settings : w.process.settings = w₀.process.settings
  length : w₀.rows.length ≤ w.rows.length
  under : ∀ i row, w.rows[i]? = some row → (w₀.rows.length ≤ i ∨ ∃ n, .rotate i n ∈ mid) →
    UnderPrimary w₀.process.settings row

theorem Migrated.next {w₀ w' : Table Key} {mid : List (Ev Nonce)} {e : Ev Nonce} (h : Migrated w₀ w mid)
    (ht : Turn F sha256 w w' e) (he : ∀ s, e ≠ .configure s) : Migrated w₀ w' (mid ++ [e]) := by
  obtain ⟨hsettings, hlength, hunder⟩ := h
  cases ht with
  | configured s h => exact absurd rfl (he s)
  | idle _ hp hrows _ hr =>
    refine ⟨hp.settings.trans hsettings, by rw [hrows]; exact hlength, fun i row hat hdue => ?_⟩
    rw [hrows] at hat
    rcases hdue with hnew | ⟨n, hmem⟩
    · exact hunder i row hat (.inl hnew)
    · rcases List.mem_append.mp hmem with hmem | hmem
      · exact hunder i row hat (.inr ⟨n, hmem⟩)
      · intro k hk
        rw [hr i n (List.mem_singleton.mp hmem).symm row hat] at hk
        cases hk
  | added _ row' hp hrows hrow hu _ hr =>
    refine ⟨hp.settings.trans hsettings, by rw [hrows, List.length_append]; omega, fun i row hat hdue => ?_⟩
    rw [hrows] at hat
    rcases lt_or_ge i w.rows.length with hlt | hge
    · rw [List.getElem?_append_left hlt] at hat
      refine hunder i row hat (hdue.imp_right fun ⟨n, hmem⟩ => ⟨n, ?_⟩)
      rcases List.mem_append.mp hmem with hmem | hmem
      · exact hmem
      · exact absurd (List.mem_singleton.mp hmem).symm (hr i n)
    · rw [List.getElem?_append_right hge] at hat
      obtain rfl := List.mem_singleton.mp (List.mem_of_getElem? hat)
      rw [← hsettings]
      exact hu
  | rotated j n row₀ row' hp hat₀ hrows hvalue hrow hu =>
    refine ⟨hp.settings.trans hsettings, by rw [hrows, List.length_set]; exact hlength, fun i row hat hdue => ?_⟩
    rw [hrows] at hat
    by_cases hij : j = i
    · subst hij
      rw [List.getElem?_set_self (List.getElem?_eq_some_iff.mp hat₀).1] at hat
      obtain rfl := Option.some.inj hat
      rw [← hsettings]
      exact hu
    · rw [List.getElem?_set_ne hij] at hat
      refine hunder i row hat (hdue.imp_right fun ⟨n', hmem⟩ => ⟨n', ?_⟩)
      rcases List.mem_append.mp hmem with hmem | hmem
      · exact hmem
      · exact absurd (Ev.rotate.inj (List.mem_singleton.mp hmem)).1.symm hij

/-- What is stored stays stored. -/
theorem Turn.values {w' : Table Key} {e : Ev Nonce} (h : Turn F sha256 w w' e) :
    w.rows.map Row.value <+: w'.rows.map Row.value := by
  cases h with
  | configured s h => exact h ▸ List.prefix_refl _
  | idle _ hp hrows _ hr => exact hrows ▸ List.prefix_refl _
  | added _ row hp hrows _ _ _ _ =>
    rw [hrows, List.map_append]
    exact List.prefix_append _ _
  | rotated i n row row' hp hat hrows hvalue _ _ =>
    rw [hrows, List.map_set, hvalue]
    obtain ⟨hlt, rfl⟩ := List.getElem?_eq_some_iff.mp hat
    have hself : (w.rows.map Row.value).set i w.rows[i].value = w.rows.map Row.value := by
      rw [← List.getElem_map Row.value (h := by simpa using hlt), List.set_getElem_self]
    exact ⟨[], by rw [List.append_nil, hself]⟩

end Rows

section Run

variable (F : Cryptography Key Nonce) (sha256 : Bytes → Bytes) (settings : CryptoSettings)

/-- The table after a run. -/
abbrev after (es : List (Ev Nonce)) : Table Key := (table F sha256 settings).exec (table F sha256 settings).init es

/-- Only the primary key is left. -/
def single (s : CryptoSettings) (k : String) : CryptoSettings := { s with fieldEncryptionKeys := [k] }

theorem keySources_single (s : CryptoSettings) (k : String) : (single s k).keySources = [k] := by
  simp [single, CryptoSettings.keySources, CryptoSettings.orderedKeys]

/-- Nothing is lost in a run: every row reads as it was stored; a rotated row reads under the first key alone;
and once all rows are rotated the other keys can go. -/
structure Lossless (es : List (Ev Nonce)) : Prop where
  readable : ∀ row ∈ (after F sha256 settings es).rows, Readable F sha256 (after F sha256 settings es).process row
  values : ∀ p q, es = p ++ q →
    (after F sha256 settings p).rows.map Row.value <+: (after F sha256 settings es).rows.map Row.value
  rotated : ∀ p i n q, es = p ++ .rotate i n :: q → ∀ row, (after F sha256 settings p).rows[i]? = some row →
    ∀ k ks, (after F sha256 settings p).process.settings.keySources = k :: ks →
      ∃ row', (after F sha256 settings (p ++ [.rotate i n])).rows[i]? = some row' ∧ row'.value = row.value ∧
        Readable F sha256 { settings := single (after F sha256 settings p).process.settings k } row'
  retired : ∀ p mid, es = p ++ mid → (∀ e ∈ mid, ∀ s, e ≠ .configure s) →
    (∀ i < (after F sha256 settings p).rows.length, ∃ n, .rotate i n ∈ mid) →
    ∀ k ks, (after F sha256 settings p).process.settings.keySources = k :: ks →
      KeepsSources (after F sha256 settings es)
        (.configure (single (after F sha256 settings p).process.settings k) : Ev Nonce) ∧
      ∀ row ∈ (after F sha256 settings es).rows,
        Readable F sha256 { settings := single (after F sha256 settings p).process.settings k } row

variable {F} {sha256} {settings} {es : List (Ev Nonce)}

theorem sound_init : Sound F sha256 (table F sha256 settings).init := by
  refine ⟨fun f hf => ?_, fun row hrow => ?_⟩
  · cases hf
  · cases hrow

theorem sound_run (hF : F.Lawful) (hsha : ∀ b, (sha256 b).length = 32)
    (hg : (table F sha256 settings).Along (fun _ w e => KeepsSources w e) (table F sha256 settings).init es) :
    Sound F sha256 (after F sha256 settings es) :=
  hg.induct (P := fun _ w => Sound F sha256 w) sound_init
    fun _ _ e hw hk => hw.next (turn hF hsha hw settings e) hk

/-- A row under the primary key reads without the others. -/
theorem readable_single (hF : F.Lawful) (hsha : ∀ b, (sha256 b).length = 32) {s : CryptoSettings} {k : String}
    {ks : List String} (hs : s.keySources = k :: ks) {row : Row} (hrow : Kept F sha256 s row)
    (hu : UnderPrimary s row) : Readable F sha256 { settings := single s k } row := by
  have hkept : Kept F sha256 (single s k) row := by
    refine hrow.change fun k' hk' => ?_
    have hhead := hu k' hk'
    rw [hs] at hhead
    obtain rfl : k = k' := Option.some.inj hhead
    simp [keySources_single]
  exact Kept.readable hF hsha (p := { settings := single s k }) (fun f hf => by cases hf) hkept

/-- The rows after a rotation, or a run of them. -/
theorem migrated_run (settings : CryptoSettings) (hF : F.Lawful) (hsha : ∀ b, (sha256 b).length = 32)
    {w₀ : Table Key} (hw : Sound F sha256 w₀) {mid : List (Ev Nonce)} (hmid : ∀ e ∈ mid, ∀ s, e ≠ .configure s) :
    Migrated w₀ ((table F sha256 settings).exec w₀ mid) mid ∧
      Sound F sha256 ((table F sha256 settings).exec w₀ mid) := by
  induction mid using List.reverseRecOn with
  | nil =>
    refine ⟨⟨rfl, le_rfl, fun i row hat hdue => ?_⟩, hw⟩
    rcases hdue with hnew | ⟨n, hmem⟩
    · rw [exec_nil] at hat
      exact absurd (List.getElem?_eq_some_iff.mp hat).1 (not_lt.mpr hnew)
    · cases hmem
  | append_singleton mid e ih =>
    obtain ⟨hmig, hsound⟩ := ih fun e' he' => hmid e' (List.mem_append_left _ he')
    have he : ∀ s, e ≠ .configure s := hmid e (by simp)
    rw [exec_concat]
    have hturn := turn hF hsha hsound settings e
    exact ⟨hmig.next hturn he, hsound.next hturn fun s heq => absurd heq (he s)⟩

theorem rotation_loses_nothing (F : Cryptography Key Nonce) (sha256 : Bytes → Bytes) (hF : F.Lawful)
    (hsha : ∀ b, (sha256 b).length = 32) (settings : CryptoSettings) (es : List (Ev Nonce))
    (hg : (table F sha256 settings).Along (fun _ w e => KeepsSources w e) (table F sha256 settings).init es) :
    Lossless F sha256 settings es := by
  have hsound := sound_run hF hsha hg
  refine ⟨fun row hrow => (hsound.rows row hrow).readable hF hsha hsound.fresh, ?_, ?_, ?_⟩
  · rintro p q rfl
    induction q using List.reverseRecOn with
    | nil => simp
    | append_singleton q e ih =>
      have hg' : (table F sha256 settings).Along (fun _ w e => KeepsSources w e) (table F sha256 settings).init
          (p ++ q) := by
        rw [← List.append_assoc] at hg
        exact hg.of_append
      have hstep := (turn hF hsha (sound_run hF hsha hg') settings e).values
      have hlast : after F sha256 settings (p ++ (q ++ [e])) =
          (table F sha256 settings).next (after F sha256 settings (p ++ q)) e := by
        rw [← List.append_assoc]
        exact exec_concat _ _ _ _
      rw [hlast]
      exact (ih hg' (sound_run hF hsha hg')).trans hstep
  · rintro p i n q rfl row hat k ks hs
    have hp := sound_run hF hsha hg.of_append
    have hone : ∀ e ∈ [(.rotate i n : Ev Nonce)], ∀ s, e ≠ .configure s := by simp
    obtain ⟨hmig, hnext⟩ := migrated_run settings hF hsha hp hone
    obtain ⟨t, ht⟩ := (turn hF hsha hp settings (.rotate i n)).values
    have hvalue : ((after F sha256 settings (p ++ [.rotate i n])).rows.map Row.value)[i]? = some row.value := by
      have hlt := (List.getElem?_eq_some_iff.mp hat).1
      rw [after, exec_concat, ← ht, List.getElem?_append_left (by simpa using hlt), List.getElem?_map, hat]
      rfl
    rw [List.getElem?_map] at hvalue
    obtain ⟨row', hat', hv⟩ := Option.map_eq_some_iff.mp hvalue
    refine ⟨row', hat', hv, ?_⟩
    rw [after, exec_append] at hat'
    have hkept := hnext.rows row' (List.mem_of_getElem? hat')
    rw [hmig.settings] at hkept
    exact readable_single hF hsha hs hkept (hmig.under i row' hat' (.inr ⟨n, by simp⟩))
  · rintro p mid rfl hmid hall k ks hs
    have hp := sound_run hF hsha hg.of_append
    obtain ⟨hmig, -⟩ := migrated_run settings hF hsha hp hmid
    rw [← exec_append] at hmig
    have hunder : ∀ row ∈ (after F sha256 settings (p ++ mid)).rows,
        UnderPrimary (after F sha256 settings p).process.settings row := by
      intro row hrow
      obtain ⟨i, hat⟩ := List.mem_iff_getElem?.mp hrow
      refine hmig.under i row hat ?_
      rcases lt_or_ge i (after F sha256 settings p).rows.length with hlt | hge
      · exact .inr (hall i hlt)
      · exact .inl hge
    refine ⟨?_, fun row hrow => ?_⟩
    · rintro s heq row hrow k' hk'
      obtain rfl := Ev.configure.inj heq
      have hhead := hunder row hrow k' hk'
      rw [hs] at hhead
      obtain rfl : k = k' := Option.some.inj hhead
      simp [keySources_single]
    · have hkept := hsound.rows row hrow
      rw [hmig.settings] at hkept
      exact readable_single hF hsha hs hkept (hunder row hrow)

end Run

/-- Two letters for a byte. -/
def hex (b : Bytes) : Bytes :=
  b.flatMap fun x => [UInt8.ofNat (97 + x.toNat / 16), UInt8.ofNat (97 + x.toNat % 16)]

def unhex : Bytes → Bytes
  | hi :: lo :: rest => UInt8.ofNat ((hi.toNat - 97) * 16 + (lo.toNat - 97)) :: unhex rest
  | _ => []

theorem unhex_hex (b : Bytes) : unhex (hex b) = b := by
  induction b with
  | nil => rfl
  | cons x b ih =>
    have hx : x.toNat < 256 := x.toNat_lt
    show UInt8.ofNat _ :: unhex (hex b) = x :: b
    rw [ih]
    refine congrArg (· :: b) ?_
    apply UInt8.toNat_inj.mp
    simp only [UInt8.toNat_ofNat']
    omega

theorem hex_ascii (b : Bytes) : ∀ x ∈ hex b, x < 128 := by
  intro x hx
  obtain ⟨y, -, hy⟩ := List.mem_flatMap.mp hx
  have hlt : y.toNat < 256 := y.toNat_lt
  have hbound : ∀ n < 128, UInt8.ofNat n < 128 := by
    intro n hn
    have h128 : (128 : UInt8).toNat = 128 := rfl
    rw [UInt8.lt_iff_toNat_lt, UInt8.toNat_ofNat', h128]
    omega
  simp only [List.mem_cons, List.not_mem_nil, or_false] at hy
  rcases hy with rfl | rfl
  · exact hbound _ (by omega)
  · exact hbound _ (by omega)

/-- A package whose tokens are the key and the message, spelled out. -/
def spelledOut : Cryptography {raw : Bytes // raw.length = 44} Unit where
  Fernet raw := if h : raw.length = 44 then .ok ⟨raw, h⟩ else .error ⟨.valueError, 0⟩
  encrypt k _ m := hex (k.val ++ m)
  decrypt k token :=
    if (unhex token).take 44 = k.val then .ok ((unhex token).drop 44) else .error ⟨.invalidToken, 0⟩

theorem take_key (k : {raw : Bytes // raw.length = 44}) (m : Bytes) : (k.val ++ m).take 44 = k.val :=
  List.take_left' k.property

theorem spelledOut_lawful : spelledOut.Lawful where
  accepts digest h := by
    have hlength : (urlsafeB64encode digest).length = 44 := by rw [length_urlsafeB64encode, h]
    exact ⟨⟨_, hlength⟩, dif_pos hlength⟩
  refuses raw exc h := by
    unfold spelledOut at h
    simp only at h
    split_ifs at h
    cases h
    rfl
  decrypts k n m := by
    show (if (unhex (hex (k.val ++ m))).take 44 = k.val then Except.ok ((unhex (hex (k.val ++ m))).drop 44)
      else Except.error (⟨.invalidToken, 0⟩ : PyExc)) = _
    rw [unhex_hex, if_pos (take_key k m), List.drop_left' k.property]
  rejects k k' n m hne := by
    refine ⟨⟨.invalidToken, 0⟩, ?_, rfl⟩
    show (if (unhex (hex (k.val ++ m))).take 44 = k'.val then _ else _) = _
    rw [unhex_hex, take_key, if_neg fun h => hne (Subtype.ext h.symm)]
  ascii k n m := hex_ascii _
  nonempty k n m h := by
    have hback := unhex_hex (k.val ++ m)
    have hempty : hex (k.val ++ m) = [] := h
    rw [hempty] at hback
    have hlength := congrArg List.length hback
    rw [List.length_append, k.property] at hlength
    simp [unhex] at hlength
    omega

/-- The digest of `a-real-secret`. -/
def digest : Bytes :=
  [230, 85, 129, 124, 87, 243, 60, 146, 187, 123, 132, 148, 211, 61, 211, 128, 202, 162, 110, 53, 2, 97, 234, 187,
    251, 175, 132, 5, 250, 58, 30, 171]

/-- From a passphrase to a real key. -/
def offThePassphrase : List (Ev Unit) :=
  [.bind .encryptedString (some "hello") (),
    .configure { fieldEncryptionKeys := ["cw_0x689RpI-jtRR7oE8h_eQsKImvJapLeSbXpwF4e4=", "a-real-secret"] },
    .rotate 0 (),
    .configure { fieldEncryptionKeys := ["cw_0x689RpI-jtRR7oE8h_eQsKImvJapLeSbXpwF4e4="] }]

theorem rotation_loses_nothing_off_the_passphrase :
    Lossless spelledOut (fun _ => digest) { fieldEncryptionKey := some "a-real-secret" } offThePassphrase := by
  refine rotation_loses_nothing spelledOut (fun _ => digest) spelledOut_lawful (fun _ => rfl) _ _ ?_
  have hbound : (after spelledOut (fun _ => digest) { fieldEncryptionKey := some "a-real-secret" }
      (offThePassphrase.take 1)).rows.map Row.source = [some "a-real-secret"] := by
    decide +kernel
  have hrotated : (after spelledOut (fun _ => digest) { fieldEncryptionKey := some "a-real-secret" }
      (offThePassphrase.take 3)).rows.map Row.source =
        [some "cw_0x689RpI-jtRR7oE8h_eQsKImvJapLeSbXpwF4e4="] := by
    decide +kernel
  refine Mealy.Along.concat (Mealy.Along.concat (Mealy.Along.concat (Mealy.Along.concat Mealy.Along.nil
    ?_) ?_) ?_) ?_
  · rintro s ⟨⟩
  · exact keepsSources_configure hbound fun k hk => by
      obtain rfl : k = "a-real-secret" := by simpa using hk
      simp [CryptoSettings.keySources, CryptoSettings.orderedKeys]
  · rintro s ⟨⟩
  · exact keepsSources_configure hrotated fun k hk => by
      obtain rfl : k = "cw_0x689RpI-jtRR7oE8h_eQsKImvJapLeSbXpwF4e4=" := by simpa using hk
      simp [CryptoSettings.keySources, CryptoSettings.orderedKeys]

end KeyRotation

end ResilienceKit

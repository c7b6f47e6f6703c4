import ResilienceKit.Exceptions
import ResilienceKit.Lib.Codec

/-!
# Crypto.Fernet — `FernetCipher`

The package `cryptography` is a parameter (`Cryptography`): a constructor of keys, and encryption and
decryption under one key.  `MultiFernet` encrypts under its first key and tries its keys in order.  The cipher
works on a process, which holds the settings and the cached `MultiFernet`.
-/

namespace ResilienceKit

open Codec

/-- What the cipher uses of the package; a nonce is the time and the random bytes of one encryption. -/
structure Cryptography (Key Nonce : Type) where
  Fernet : Bytes → Except PyExc Key
  encrypt : Key → Nonce → Bytes → Bytes
  decrypt : Key → Bytes → Except PyExc Bytes

variable {Key Nonce : Type}

/-- A key decrypts the tokens it produced and rejects those of the other keys; tokens are ASCII text; `Fernet`
takes 32 url-safe base64-encoded bytes and refuses what it does not take with a `ValueError` or
`TypeError`. -/
structure Cryptography.Lawful (F : Cryptography Key Nonce) : Prop where
  accepts : ∀ digest : Bytes, digest.length = 32 → ∃ k, F.Fernet (urlsafeB64encode digest) = .ok k
  refuses : ∀ raw exc, F.Fernet raw = .error exc → catches [.valueError, .typeError] exc = true
  decrypts : ∀ k n m, F.decrypt k (F.encrypt k n m) = .ok m
  rejects : ∀ k k' n m, k' ≠ k → ∃ exc, F.decrypt k' (F.encrypt k n m) = .error exc ∧
    isinstance exc .invalidToken = true
  ascii : ∀ k n m, ∀ x ∈ F.encrypt k n m, x < 128
  nonempty : ∀ k n m, F.encrypt k n m ≠ []

/-! ### Settings -/

inductive Environment
  | prod | dev | test
  deriving DecidableEq, Repr

structure CryptoSettings where
  fieldEncryptionKeys : List String := []
  fieldEncryptionKey : Option String := none
  environment : Environment := .prod
  deriving DecidableEq, Repr

def CryptoSettings.orderedKeys (s : CryptoSettings) : List String :=
  if s.fieldEncryptionKeys ≠ [] then s.fieldEncryptionKeys
  else
    match s.fieldEncryptionKey with
    | some k => [k]
    | none => []

def DEV_FALLBACK_KEY : String := "resilience-kit::dev-only-insecure::do-not-use-in-prod"

/-! ### `MultiFernet` -/

structure MultiFernet (Key : Type) where
  primary : Key
  others : List Key

namespace MultiFernet

variable (F : Cryptography Key Nonce)

/-- The keys in order. -/
def tryKeys : List Key → Bytes → Except PyExc Bytes
  | [], _ => .error ⟨.invalidToken, 0⟩
  | k :: ks, token =>
    match F.decrypt k token with
    | .ok m => .ok m
    | .error exc => if isinstance exc .invalidToken then tryKeys ks token else .error exc

def encrypt (f : MultiFernet Key) (nonce : Nonce) (m : Bytes) : Bytes := F.encrypt f.primary nonce m

def decrypt (f : MultiFernet Key) (token : Bytes) : Except PyExc Bytes :=
  tryKeys F (f.primary :: f.others) token

def rotate (f : MultiFernet Key) (nonce : Nonce) (token : Bytes) : Except PyExc Bytes := do
  let m ← f.decrypt F token
  return f.encrypt F nonce m

end MultiFernet

/-! ### The cached `MultiFernet` of a process -/

/-- What a process holds of the cipher. -/
structure Process (Key : Type) where
  settings : CryptoSettings := {}
  cached : Option (MultiFernet Key) := none

abbrev PyM (Key α : Type) := EStateM PyExc (Process Key) α

def PyM.ofExcept {α : Type} : Except PyExc α → PyM Key α
  | .ok a => pure a
  | .error exc => throw exc

/-- `bytes.decode` and `str.encode`: no result stands for an error of the class. -/
def PyM.ofOption {α : Type} (cls : PyClass) : Option α → PyM Key α
  | some a => pure a
  | none => throw ⟨cls, 0⟩

section Cipher

variable (F : Cryptography Key Nonce) (sha256 : Bytes → Bytes)

/-- `_resolve_fernet_key`: a real key stands for itself, a passphrase for its digest. -/
def resolveFernetKey (keySource : String) : Except PyExc Bytes :=
  match F.Fernet (utf8Encode keySource) with
  | .ok _ => .ok (utf8Encode keySource)
  | .error exc =>
    if catches [.valueError, .typeError] exc then .ok (urlsafeB64encode (sha256 (utf8Encode keySource)))
    else .error exc

/-- `Fernet(_resolve_fernet_key(k))`. -/
def fernetOf (keySource : String) : Except PyExc Key := do F.Fernet (← resolveFernetKey F sha256 keySource)

/-- The body of `_fernet`. -/
def buildFernet (s : CryptoSettings) : Except PyExc (MultiFernet Key) :=
  match s.orderedKeys with
  | k :: ks => do return ⟨← fernetOf F sha256 k, ← ks.mapM (fernetOf F sha256)⟩
  | [] =>
    if s.environment = .prod then .error ⟨.encryptionConfigError, 0⟩
    else do return ⟨← fernetOf F sha256 DEV_FALLBACK_KEY, []⟩

/-- `_fernet`, with its `lru_cache`. -/
def fernet : PyM Key (MultiFernet Key) := do
  let p ← get
  match p.cached with
  | some f => return f
  | none =>
    let f ← PyM.ofExcept (buildFernet F sha256 p.settings)
    set { p with cached := some f }
    return f

namespace FernetCipher

def encrypt (nonce : Nonce) (plaintext : String) : PyM Key String :=
  if plaintext = "" then return plaintext
  else do
    let f ← fernet F sha256
    PyM.ofOption .unicodeDecodeError (asciiDecode (f.encrypt F nonce (utf8Encode plaintext)))

/-- `except InvalidToken as exc: raise DecryptionError(…) from exc`. -/
def decrypting (body : PyM Key String) : PyM Key String :=
  tryCatch body fun exc => if isinstance exc .invalidToken then throw ⟨.decryptionError, 0⟩ else throw exc

def decrypt (ciphertext : String) : PyM Key String :=
  if ciphertext = "" then return ciphertext
  else decrypting do
    let f ← fernet F sha256
    let token ← PyM.ofOption .unicodeEncodeError (asciiEncode ciphertext)
    let m ← PyM.ofExcept (f.decrypt F token)
    PyM.ofOption .unicodeDecodeError (utf8Decode m)

def rotate (nonce : Nonce) (token : String) : PyM Key String :=
  if token = "" then return token
  else decrypting do
    let f ← fernet F sha256
    let token ← PyM.ofOption .unicodeEncodeError (asciiEncode token)
    let rotated ← PyM.ofExcept (f.rotate F nonce token)
    PyM.ofOption .unicodeDecodeError (asciiDecode rotated)

end FernetCipher

/-! ### Columns -/

/-- What a driver hands back. -/
inductive DbValue
  | text (s : String)
  | bytes (b : Bytes)
  deriving DecidableEq

/-- A value on its way into an encrypted column. -/
def toColumn (nonce : Nonce) : Option String → PyM Key (Option String)
  | none => return none
  | some value => do return some (← FernetCipher.encrypt F sha256 nonce value)

/-- A value on its way out. -/
def fromColumn : Option DbValue → PyM Key (Option String)
  | none => return none
  | some (.text s) => do return some (← FernetCipher.decrypt F sha256 s)
  | some (.bytes b) => do
    let s ← PyM.ofOption .unicodeDecodeError (asciiDecode b)
    return some (← FernetCipher.decrypt F sha256 s)

def EncryptedString.processBindParam (nonce : Nonce) (value : Option String) : PyM Key (Option String) :=
  toColumn F sha256 nonce value

def EncryptedString.processResultValue (value : Option DbValue) : PyM Key (Option String) :=
  fromColumn F sha256 value

/-- `str(value)` of a text is the text. -/
def EncryptedCharField.getPrepValue (nonce : Nonce) (value : Option String) : PyM Key (Option String) :=
  toColumn F sha256 nonce value

def EncryptedCharField.fromDbValue (value : Option DbValue) : PyM Key (Option String) :=
  fromColumn F sha256 value

end Cipher

end ResilienceKit

import ResilienceKit.Crypto.Rotation

/-!
# Crypto.Corrupt — what a stored value that is no token raises

`decrypt` and `rotate` turn an `InvalidToken` into a `DecryptionError`.  The text is encoded and the result
decoded around it, so the promise is kept for ASCII text, and where the keys do decrypt it, for UTF-8 inside;
`contract_iff` says that it is kept nowhere else.
-/

namespace ResilienceKit

open Codec

variable {Key Nonce : Type} {F : Cryptography Key Nonce} {sha256 : Bytes → Bytes}

/-- It returns, or raises a `DecryptionError`. -/
def Contained {α : Type} : EStateM.Result PyExc (Process Key) α → Prop
  | .ok _ _ => True
  | .error exc _ => isinstance exc .decryptionError = true

/-- What is no token of a key raises an `InvalidToken`. -/
def Cryptography.Rejects (F : Cryptography Key Nonce) : Prop :=
  ∀ key token exc, F.decrypt key token = .error exc → isinstance exc .invalidToken = true

/-- ASCII, and UTF-8 inside if the keys decrypt it. -/
def Decodable (F : Cryptography Key Nonce) (f : MultiFernet Key) (c : String) : Prop :=
  c = "" ∨ ∃ token, asciiEncode c = some token ∧ ∀ m, f.decrypt F token = .ok m → (utf8Decode m).isSome = true

/-- What a driver hands back is decodable, as ASCII text if it is bytes. -/
def DecodableColumn (F : Cryptography Key Nonce) (f : MultiFernet Key) : Option DbValue → Prop
  | none => True
  | some (.text s) => Decodable F f s
  | some (.bytes b) => ∃ s, asciiDecode b = some s ∧ Decodable F f s

theorem tryKeys_rejects (hF : F.Rejects) {keys : List Key} {token : Bytes} {exc : PyExc}
    (h : MultiFernet.tryKeys F keys token = .error exc) : isinstance exc .invalidToken = true := by
  induction keys with
  | nil =>
    obtain rfl := Except.error.inj h
    rfl
  | cons key keys ih =>
    unfold MultiFernet.tryKeys at h
    cases hk : F.decrypt key token with
    | ok m =>
      rw [hk] at h
      cases h
    | error exc' =>
      rw [hk] at h
      simp only [hF key token exc' hk, if_true] at h
      exact ih h

/-- With key material there is a cipher. -/
theorem fernet_available (hF : F.Lawful) (hsha : ∀ b, (sha256 b).length = 32) {p : Process Key}
    (hkeys : p.settings.orderedKeys ≠ []) :
    ∃ f, (fernet F sha256).run p = .ok f { p with cached := some f } := by
  obtain ⟨settings, cached⟩ := p
  cases cached with
  | some f => exact ⟨f, rfl⟩
  | none =>
    obtain ⟨k, ks, hs⟩ := List.exists_cons_of_ne_nil hkeys
    have hsources : settings.keySources = k :: ks := by
      rw [CryptoSettings.keySources, if_pos hkeys, hs]
    obtain ⟨f, hf, -⟩ := buildFernet_ok hF hsha hsources
    exact ⟨f, fernet_run (fun f hf => by cases hf) hf⟩

namespace FernetCipher

variable {f : MultiFernet Key} {p q : Process Key} {c : String}

variable {α : Type}

/-- The handler sees how the body ends. -/
theorem decrypting_congr {body body' : PyM Key String} (h : body.run p = body'.run q) :
    (decrypting body).run p = (decrypting body').run q := by
  have hbody : body p = body' q := h
  unfold decrypting
  simp only [EStateM.run, tryCatch, tryCatchThe, MonadExceptOf.tryCatch, EStateM.tryCatch, hbody]

theorem contained_ok {body : PyM Key String} {s : String} (h : body.run p = .ok s q) :
    Contained ((decrypting body).run p) := by
  rw [decrypting_run h]
  trivial

/-- The handler turns an `InvalidToken` into a `DecryptionError`, and lets the rest through. -/
theorem contained_error {body : PyM Key String} {exc : PyExc} (h : body.run p = .error exc q) :
    Contained ((decrypting body).run p) ↔
      isinstance exc .invalidToken = true ∨ isinstance exc .decryptionError = true := by
  have hbody : body p = .error exc q := h
  have hrun : (decrypting body).run p =
      .error (if isinstance exc .invalidToken then ⟨.decryptionError, 0⟩ else exc) q := by
    unfold decrypting
    simp only [EStateM.run, tryCatch, tryCatchThe, MonadExceptOf.tryCatch, EStateM.tryCatch, hbody]
    split_ifs <;> rfl
  rw [hrun]
  by_cases hi : isinstance exc .invalidToken = true
  · rw [if_pos hi]
    exact iff_of_true rfl (.inl hi)
  · rw [if_neg hi]
    exact (or_iff_right hi).symm

/-- What the body does first, if it goes well. -/
theorem contained_bind_ok {x : PyM Key α} {k : α → PyM Key String} {a : α} (h : x.run p = .ok a q) :
    Contained ((decrypting (x >>= k)).run p) ↔ Contained ((decrypting (k a)).run q) := by
  rw [decrypting_congr (PyM.bind_ok h)]

theorem contained_bind_error {x : PyM Key α} {k : α → PyM Key String} {exc : PyExc} (h : x.run p = .error exc q) :
    Contained ((decrypting (x >>= k)).run p) ↔
      isinstance exc .invalidToken = true ∨ isinstance exc .decryptionError = true :=
  contained_error (PyM.bind_error h)

/-- No `UnicodeError` is caught. -/
theorem unicode_escapes {cls : PyClass} (hcls : cls = .unicodeEncodeError ∨ cls = .unicodeDecodeError) :
    ¬ (isinstance ⟨cls, 0⟩ .invalidToken = true ∨ isinstance ⟨cls, 0⟩ .decryptionError = true) := by
  rcases hcls with rfl | rfl <;> decide

theorem contained_decode_iff {o : Option String} :
    Contained ((decrypting (PyM.ofOption .unicodeDecodeError o : PyM Key String)).run p) ↔ o.isSome = true := by
  cases o with
  | none => exact (contained_error (q := p) rfl).trans (iff_of_false (unicode_escapes (.inr rfl)) (by simp))
  | some s => exact iff_of_true (contained_ok (q := p) rfl) rfl

theorem contained_decrypt_iff (hr : F.Rejects) (hf : (fernet F sha256).run p = .ok f q) :
    Contained ((decrypt F sha256 c).run p) ↔ Decodable F f c := by
  unfold decrypt Decodable
  split_ifs with hc
  · exact iff_of_true trivial (.inl hc)
  rw [contained_bind_ok hf]
  cases htoken : asciiEncode c with
  | none =>
    refine (contained_bind_error (q := q) rfl).trans (iff_of_false (unicode_escapes (.inl rfl)) ?_)
    simp [hc]
  | some token =>
    rw [contained_bind_ok (PyM.ofOption_run rfl q)]
    cases hm : f.decrypt F token with
    | error exc =>
      refine (contained_bind_error (q := q) rfl).trans (iff_of_true (.inl (tryKeys_rejects hr hm)) ?_)
      exact .inr ⟨token, rfl, fun m hm' => by rw [hm] at hm'; cases hm'⟩
    | ok m =>
      rw [contained_bind_ok (PyM.ofExcept_run rfl q), contained_decode_iff]
      simp [hc, hm]

/-- A rotation decodes nothing but the new token, which is ASCII. -/
theorem contained_rotate_iff (hF : F.Lawful) (hr : F.Rejects) (hf : (fernet F sha256).run p = .ok f q)
    (n : Nonce) : Contained ((rotate F sha256 n c).run p) ↔ (asciiEncode c).isSome = true := by
  unfold rotate
  split_ifs with hc
  · subst hc
    exact iff_of_true trivial rfl
  rw [contained_bind_ok hf]
  cases htoken : asciiEncode c with
  | none =>
    exact (contained_bind_error (q := q) rfl).trans (iff_of_false (unicode_escapes (.inl rfl)) (by simp))
  | some token =>
    rw [contained_bind_ok (PyM.ofOption_run rfl q), MultiFernet.rotate_eq]
    cases hm : f.decrypt F token with
    | error exc =>
      exact (contained_bind_error (q := q) rfl).trans (iff_of_true (.inl (tryKeys_rejects hr hm)) rfl)
    | ok m =>
      have hmap : (Except.ok m).map (f.encrypt F n) = (.ok (f.encrypt F n m) : Except PyExc Bytes) := rfl
      rw [contained_bind_ok (PyM.ofExcept_run hmap q)]
      have hascii := asciiDecode_of_ascii (hF.ascii f.primary n m)
      exact iff_of_true (contained_ok (PyM.ofOption_run hascii q)) rfl

/-- A column hands on what the cipher returns. -/
theorem contained_some_iff (hr : F.Rejects) (hf : (fernet F sha256).run p = .ok f q) :
    Contained ((do return some (← decrypt F sha256 c) : PyM Key (Option String)).run p) ↔ Decodable F f c := by
  rw [← contained_decrypt_iff hr hf]
  cases hd : (decrypt F sha256 c).run p with
  | ok s r => rw [PyM.bind_ok hd]; exact Iff.rfl
  | error exc r => rw [PyM.bind_error hd]; exact Iff.rfl

end FernetCipher

/-- A column adds to the cipher that bytes are read as ASCII. -/
theorem contained_fromColumn_iff (hr : F.Rejects) {f : MultiFernet Key} {p q : Process Key}
    (hf : (fernet F sha256).run p = .ok f q) (raw : Option DbValue) :
    Contained ((fromColumn F sha256 raw).run p) ↔ DecodableColumn F f raw := by
  cases raw with
  | none => exact iff_of_true trivial trivial
  | some raw =>
    cases raw with
    | text s => exact FernetCipher.contained_some_iff hr hf
    | bytes b =>
      cases hb : asciiDecode b with
      | none =>
        have hrun : (fromColumn F sha256 (some (.bytes b))).run p = .error ⟨.unicodeDecodeError, 0⟩ p := by
          refine PyM.bind_error ?_
          rw [hb]
          rfl
        rw [hrun]
        refine iff_of_false Bool.false_ne_true ?_
        rintro ⟨s, hs, -⟩
        rw [hb] at hs
        cases hs
      | some s =>
        have hrun : (fromColumn F sha256 (some (.bytes b))).run p =
            (do return some (← FernetCipher.decrypt F sha256 s) : PyM Key (Option String)).run p :=
          PyM.bind_ok (PyM.ofOption_run hb p)
        rw [hrun, FernetCipher.contained_some_iff hr hf]
        constructor
        · exact fun h => ⟨s, hb, h⟩
        · rintro ⟨s', hs', h⟩
          rw [hb] at hs'
          obtain rfl := Option.some.inj hs'
          exact h

/-- **The error contract.**  With key material there is a cipher, and each function returns or raises a
`DecryptionError` exactly where the stored value can be decoded around it. -/
theorem contract_iff (hF : F.Lawful) (hr : F.Rejects) (hsha : ∀ b, (sha256 b).length = 32) {p : Process Key}
    (hkeys : p.settings.orderedKeys ≠ []) : ∃ f, (fernet F sha256).run p = .ok f { p with cached := some f } ∧
      (∀ c, Contained ((FernetCipher.decrypt F sha256 c).run p) ↔ Decodable F f c) ∧
      (∀ n c, Contained ((FernetCipher.rotate F sha256 n c).run p) ↔ (asciiEncode c).isSome = true) ∧
      (∀ raw, Contained ((EncryptedString.processResultValue F sha256 raw).run p) ↔ DecodableColumn F f raw) ∧
      ∀ raw, Contained ((EncryptedCharField.fromDbValue F sha256 raw).run p) ↔ DecodableColumn F f raw := by
  obtain ⟨f, hf⟩ := fernet_available hF hsha hkeys
  refine ⟨f, hf, fun c => FernetCipher.contained_decrypt_iff hr hf,
    fun n c => FernetCipher.contained_rotate_iff hF hr hf n, fun raw => ?_, fun raw => ?_⟩
  · exact contained_fromColumn_iff hr hf raw
  · exact contained_fromColumn_iff hr hf raw

open KeyRotation

theorem spelledOut_rejects : spelledOut.Rejects := by
  intro key token exc h
  unfold spelledOut at h
  simp only at h
  split_ifs at h
  obtain rfl := Except.error.inj h
  rfl

/-- A process with a key. -/
def keyed : Process {raw : Bytes // raw.length = 44} := { settings := { fieldEncryptionKey := some "a-real-secret" } }

theorem contract_iff_keyed : ∃ f,
    (fernet spelledOut fun _ => digest).run keyed = .ok f { keyed with cached := some f } ∧
    (∀ c, Contained ((FernetCipher.decrypt spelledOut (fun _ => digest) c).run keyed) ↔ Decodable spelledOut f c) ∧
    (∀ n c, Contained ((FernetCipher.rotate spelledOut (fun _ => digest) n c).run keyed) ↔
      (asciiEncode c).isSome = true) ∧
    (∀ raw, Contained ((EncryptedString.processResultValue spelledOut (fun _ => digest) raw).run keyed) ↔
      DecodableColumn spelledOut f raw) ∧
    ∀ raw, Contained ((EncryptedCharField.fromDbValue spelledOut (fun _ => digest) raw).run keyed) ↔
      DecodableColumn spelledOut f raw :=
  contract_iff spelledOut_lawful spelledOut_rejects (fun _ => rfl) (List.cons_ne_nil _ _)

/-- A plaintext from before the column was encrypted, which is not ASCII, read as text and as its bytes. -/
theorem legacy_plaintext_escapes :
    ¬ Contained ((FernetCipher.decrypt spelledOut (fun _ => digest) "é").run keyed) ∧
      ¬ Contained ((FernetCipher.rotate spelledOut (fun _ => digest) () "é").run keyed) ∧
      ¬ Contained ((EncryptedString.processResultValue spelledOut (fun _ => digest) (some (.text "é"))).run keyed) ∧
      ¬ Contained ((EncryptedCharField.fromDbValue spelledOut (fun _ => digest)
        (some (.bytes [0xC3, 0xA9]))).run keyed) := by
  obtain ⟨f, hf⟩ := fernet_available (p := keyed) spelledOut_lawful (fun _ => rfl : ∀ b : Bytes, digest.length = 32)
    (List.cons_ne_nil _ _)
  have hnone : asciiEncode "é" = none := by decide
  have hbytes : asciiDecode [0xC3, 0xA9] = none := by decide
  have htext : ¬ Decodable spelledOut f "é" := by
    rintro (he | ⟨token, ht, -⟩)
    · exact absurd he (by decide)
    · rw [hnone] at ht
      cases ht
  refine ⟨fun h => ?_, fun h => ?_, fun h => ?_, fun h => ?_⟩
  · exact htext ((FernetCipher.contained_decrypt_iff spelledOut_rejects hf).mp h)
  · have hrotate := (FernetCipher.contained_rotate_iff spelledOut_lawful spelledOut_rejects hf ()).mp h
    rw [hnone] at hrotate
    cases hrotate
  · exact htext ((contained_fromColumn_iff spelledOut_rejects hf _).mp h)
  · obtain ⟨s, hs, -⟩ := (contained_fromColumn_iff spelledOut_rejects hf _).mp h
    rw [hbytes] at hs
    cases hs

end ResilienceKit

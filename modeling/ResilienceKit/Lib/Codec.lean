import Mathlib.Data.List.Basic
import Mathlib.Tactic.SplitIfs

/-!
# Codec — text and bytes

Python's `encode` and `decode` for UTF-8 and ASCII, where `none` stands for a `UnicodeError`, and
`base64.urlsafe_b64encode`.
-/

namespace Codec

abbrev Bytes := List UInt8

def utf8Encode (s : String) : Bytes := s.toUTF8.data.toList

def utf8Decode (b : Bytes) : Option String := String.fromUTF8? ⟨b.toArray⟩

def asciiEncode (s : String) : Option Bytes :=
  if s.toList.all fun c => c.toNat < 128 then some (s.toList.map fun c => UInt8.ofNat c.toNat) else none

def asciiDecode (b : Bytes) : Option String :=
  if b.all fun x => x < 128 then some (String.ofList (b.map fun x => Char.ofNat x.toNat)) else none

theorem utf8Decode_utf8Encode (s : String) : utf8Decode (utf8Encode s) = some s := by
  have hbytes : (⟨(utf8Encode s).toArray⟩ : ByteArray) = s.toByteArray := by simp [utf8Encode, String.toUTF8]
  rw [utf8Decode, hbytes, String.fromUTF8?, dif_pos s.isValidUTF8]
  rfl

/-- An ASCII byte is the code of its character. -/
theorem toNat_ofNat_of_ascii {x : UInt8} (h : x < 128) : (Char.ofNat x.toNat).toNat = x.toNat := by
  have hlt : x.toNat < 128 := h
  have hvalid : x.toNat.isValidChar := .inl (by omega)
  rw [Char.ofNat, dif_pos hvalid]
  rfl

theorem asciiDecode_of_ascii {b : Bytes} (h : ∀ x ∈ b, x < 128) :
    asciiDecode b = some (String.ofList (b.map fun x => Char.ofNat x.toNat)) :=
  if_pos (List.all_eq_true.mpr fun x hx => decide_eq_true (h x hx))

theorem asciiEncode_of_decode {b : Bytes} {s : String} (h : asciiDecode b = some s) :
    asciiEncode s = some b := by
  unfold asciiDecode at h
  split_ifs at h with hall
  obtain rfl := Option.some.inj h
  have hb : ∀ x ∈ b, x < 128 := fun x hx => of_decide_eq_true (List.all_eq_true.mp hall x hx)
  have hcodes : (String.ofList (b.map fun x => Char.ofNat x.toNat)).toList.all (fun c => c.toNat < 128) = true := by
    refine List.all_eq_true.mpr fun c hc => decide_eq_true ?_
    rw [String.toList_ofList] at hc
    obtain ⟨x, hx, rfl⟩ := List.mem_map.mp hc
    rw [toNat_ofNat_of_ascii (hb x hx)]
    exact hb x hx
  rw [asciiEncode, if_pos hcodes, String.toList_ofList, List.map_map]
  refine congrArg some ((List.map_congr_left fun x hx => ?_).trans (List.map_id b))
  simp [toNat_ofNat_of_ascii (hb x hx)]

theorem asciiDecode_of_encode {s : String} {b : Bytes} (h : asciiEncode s = some b) : asciiDecode b = some s := by
  unfold asciiEncode at h
  split_ifs at h with hall
  obtain rfl := Option.some.inj h
  have hs : ∀ c ∈ s.toList, c.toNat < 128 := fun c hc => of_decide_eq_true (List.all_eq_true.mp hall c hc)
  have hback : ∀ c ∈ s.toList, (UInt8.ofNat c.toNat).toNat = c.toNat := by
    intro c hc
    rw [UInt8.toNat_ofNat']
    have hc' := hs c hc
    omega
  rw [asciiDecode_of_ascii, List.map_map]
  · have hchars : s.toList.map ((fun x : UInt8 => Char.ofNat x.toNat) ∘ fun c => UInt8.ofNat c.toNat) = s.toList := by
      refine (List.map_congr_left fun c hc => ?_).trans (List.map_id _)
      rw [Function.comp_apply, hback c hc, Char.ofNat_toNat]
      rfl
    rw [hchars, String.ofList_toList]
  · intro x hx
    obtain ⟨c, hc, rfl⟩ := List.mem_map.mp hx
    rw [UInt8.lt_iff_toNat_lt, hback c hc]
    exact hs c hc

/-- A character that is encoded is in the text. -/
theorem mem_of_asciiEncode {s : String} {b : Bytes} (h : asciiEncode s = some b) {x : UInt8} (hx : x ∈ b) :
    Char.ofNat x.toNat ∈ s.toList := by
  have hdecode := asciiDecode_of_encode h
  unfold asciiDecode at hdecode
  split_ifs at hdecode
  rw [← Option.some.inj hdecode, String.toList_ofList]
  exact List.mem_map_of_mem hx

/-- Nothing decodes to the empty text but the empty bytes. -/
theorem ne_empty_of_asciiDecode {b : Bytes} {s : String} (h : asciiDecode b = some s) (hb : b ≠ []) :
    s ≠ "" := by
  rintro rfl
  have hback := asciiEncode_of_decode h
  exact hb (Option.some.inj (hback.symm.trans rfl))

/-- The alphabet, with `-` and `_` in its last places. -/
def b64Char (n : ℕ) : UInt8 :=
  if n < 26 then UInt8.ofNat (65 + n)
  else if n < 52 then UInt8.ofNat (97 + (n - 26))
  else if n < 62 then UInt8.ofNat (48 + (n - 52))
  else if n = 62 then 45
  else 95

def urlsafeB64encode : Bytes → Bytes
  | [] => []
  | [a] =>
    let n := a.toNat * 16
    [b64Char (n / 64), b64Char (n % 64), 61, 61]
  | [a, b] =>
    let n := (a.toNat * 256 + b.toNat) * 4
    [b64Char (n / 4096), b64Char (n / 64 % 64), b64Char (n % 64), 61]
  | a :: b :: c :: rest =>
    let n := a.toNat * 65536 + b.toNat * 256 + c.toNat
    b64Char (n / 262144) :: b64Char (n / 4096 % 64) :: b64Char (n / 64 % 64) :: b64Char (n % 64) ::
      urlsafeB64encode rest

/-- `base64.b64encode` -/
def b64encode (b : Bytes) : Bytes :=
  (urlsafeB64encode b).map fun x => if x = 45 then 43 else if x = 95 then 47 else x

theorem length_urlsafeB64encode (b : Bytes) : (urlsafeB64encode b).length = (b.length + 2) / 3 * 4 := by
  fun_induction urlsafeB64encode b with
  | case1 => rfl
  | case2 a => simp
  | case3 a b => simp
  | case4 a b c rest n ih =>
    simp only [List.length_cons, ih]
    omega

/-- The place of a character in the alphabet. -/
def b64Value (x : UInt8) : ℕ :=
  if x = 45 then 62
  else if x = 95 then 63
  else if x < 58 then x.toNat - 48 + 52
  else if x < 91 then x.toNat - 65
  else x.toNat - 97 + 26

/-- `base64.urlsafe_b64decode` of what the encoder writes. -/
def urlsafeB64decode : Bytes → Bytes
  | w :: x :: y :: z :: rest =>
    let n := b64Value w * 64 + b64Value x
    if y = 61 then [UInt8.ofNat (n / 16)]
    else
      let n := n * 64 + b64Value y
      if z = 61 then [UInt8.ofNat (n / 1024), UInt8.ofNat (n / 4)]
      else
        let n := n * 64 + b64Value z
        UInt8.ofNat (n / 65536) :: UInt8.ofNat (n / 256) :: UInt8.ofNat n :: urlsafeB64decode rest
  | _ => []

@[simp] theorem b64Value_b64Char {n : ℕ} (hn : n < 64) : b64Value (b64Char n) = n := by
  have hall : ∀ n < 64, b64Value (b64Char n) = n := by decide +kernel
  exact hall n hn

/-- Digits are no padding. -/
theorem b64Char_ne_pad {n : ℕ} (hn : n < 64) : b64Char n ≠ 61 := by
  have hall : ∀ n < 64, b64Char n ≠ 61 := by decide +kernel
  exact hall n hn

theorem ofNat_eq_of_mod {a : UInt8} {n : ℕ} (h : n % 256 = a.toNat) : UInt8.ofNat n = a := by
  apply UInt8.toNat_inj.mp
  rw [UInt8.toNat_ofNat', h]

theorem urlsafeB64decode_urlsafeB64encode (b : Bytes) : urlsafeB64decode (urlsafeB64encode b) = b := by
  fun_induction urlsafeB64encode b with
  | case1 => rfl
  | case2 a n =>
    have ha := a.toNat_lt
    rw [urlsafeB64decode, if_pos rfl, b64Value_b64Char (by omega), b64Value_b64Char (by omega)]
    exact congrArg (fun x => [x]) (ofNat_eq_of_mod (by omega))
  | case3 a b n =>
    have ha := a.toNat_lt
    have hb := b.toNat_lt
    rw [urlsafeB64decode, if_neg (b64Char_ne_pad (by omega)), if_pos rfl, b64Value_b64Char (by omega),
      b64Value_b64Char (by omega), b64Value_b64Char (by omega)]
    exact congrArg₂ (fun x y => [x, y]) (ofNat_eq_of_mod (by omega)) (ofNat_eq_of_mod (by omega))
  | case4 a b c rest n ih =>
    have ha := a.toNat_lt
    have hb := b.toNat_lt
    have hc := c.toNat_lt
    rw [urlsafeB64decode, if_neg (b64Char_ne_pad (by omega)), if_neg (b64Char_ne_pad (by omega)),
      b64Value_b64Char (by omega), b64Value_b64Char (by omega), b64Value_b64Char (by omega),
      b64Value_b64Char (by omega), ih]
    dsimp only
    rw [ofNat_eq_of_mod (a := a) (by omega), ofNat_eq_of_mod (a := b) (by omega),
      ofNat_eq_of_mod (a := c) (by omega)]

/-- The encoder writes digits and padding. -/
theorem mem_urlsafeB64encode {b : Bytes} {x : UInt8} (h : x ∈ urlsafeB64encode b) :
    x = 61 ∨ ∃ n < 64, x = b64Char n := by
  fun_induction urlsafeB64encode b with
  | case1 => cases h
  | case2 a n =>
    have ha := a.toNat_lt
    simp only [List.mem_cons, List.not_mem_nil, or_false] at h
    rcases h with rfl | rfl | rfl | rfl
    · exact .inr ⟨_, by omega, rfl⟩
    · exact .inr ⟨_, by omega, rfl⟩
    · exact .inl rfl
    · exact .inl rfl
  | case3 a b n =>
    have ha := a.toNat_lt
    have hb := b.toNat_lt
    simp only [List.mem_cons, List.not_mem_nil, or_false] at h
    rcases h with rfl | rfl | rfl | rfl
    · exact .inr ⟨_, by omega, rfl⟩
    · exact .inr ⟨_, by omega, rfl⟩
    · exact .inr ⟨_, by omega, rfl⟩
    · exact .inl rfl
  | case4 a b c rest n ih =>
    have ha := a.toNat_lt
    have hb := b.toNat_lt
    have hc := c.toNat_lt
    simp only [List.mem_cons] at h
    rcases h with rfl | rfl | rfl | rfl | h
    · exact .inr ⟨_, by omega, rfl⟩
    · exact .inr ⟨_, by omega, rfl⟩
    · exact .inr ⟨_, by omega, rfl⟩
    · exact .inr ⟨_, by omega, rfl⟩
    · exact ih h

theorem ascii_b64encode {b : Bytes} {x : UInt8} (h : x ∈ b64encode b) : x < 128 := by
  have hchar : ∀ n < 64, (if b64Char n = 45 then 43 else if b64Char n = 95 then 47 else b64Char n) < 128 := by
    decide +kernel
  obtain ⟨y, hy, rfl⟩ := List.mem_map.mp h
  obtain rfl | ⟨n, hn, rfl⟩ := mem_urlsafeB64encode hy
  · decide
  · exact hchar n hn

/-- What is encoded alike is the same. -/
theorem b64encode_injective {b b' : Bytes} (h : b64encode b = b64encode b') : b = b' := by
  -- the two alphabets translate into each other
  have hback : ∀ b : Bytes, (b64encode b).map (fun x => if x = 43 then 45 else if x = 47 then 95 else x) =
      urlsafeB64encode b := by
    intro b
    rw [b64encode, List.map_map]
    refine (List.map_congr_left fun x hx => ?_).trans (List.map_id _)
    have hchar : ∀ n < 64, (fun x => if x = 43 then 45 else if x = 47 then 95 else x)
        (if b64Char n = 45 then (43 : UInt8) else if b64Char n = 95 then 47 else b64Char n) = b64Char n := by
      decide +kernel
    obtain rfl | ⟨n, hn, rfl⟩ := mem_urlsafeB64encode hx
    · rfl
    · exact hchar n hn
  have hurl : urlsafeB64encode b = urlsafeB64encode b' := by rw [← hback, h, hback]
  rw [← urlsafeB64decode_urlsafeB64encode b, hurl, urlsafeB64decode_urlsafeB64encode]

/-! ### Joined fields -/

section Joined

variable {α : Type} {sep : α} {x y r r' : List α}

/-- A field without the separator ends at the first one. -/
theorem append_sep_inj (hx : sep ∉ x) (hy : sep ∉ y) (h : x ++ sep :: r = y ++ sep :: r') : x = y ∧ r = r' := by
  induction x generalizing y with
  | nil =>
    cases y with
    | nil => exact ⟨rfl, (List.cons.inj h).2⟩
    | cons b y => exact absurd (List.mem_cons.mpr (.inl (List.cons.inj h).1)) hy
  | cons a x ih =>
    cases y with
    | nil => exact absurd (List.mem_cons.mpr (.inl (List.cons.inj h).1.symm)) hx
    | cons b y =>
      obtain ⟨rfl, htail⟩ := List.cons.inj h
      obtain ⟨rfl, hr⟩ := ih (List.not_mem_of_not_mem_cons hx) (List.not_mem_of_not_mem_cons hy) htail
      exact ⟨rfl, hr⟩

theorem intercalate_concat (f : List α) (fields : List (List α)) (x : List α) :
    [sep].intercalate (f :: (fields ++ [x])) = f ++ sep :: [sep].intercalate (fields ++ [x]) := by
  cases fields <;> simp [List.intercalate]

/-- As many fields without the separator, and a last one that may contain it, can be read off their join. -/
theorem intercalate_inj {fields fields' : List (List α)} (hlength : fields.length = fields'.length)
    (hsep : ∀ f ∈ fields, sep ∉ f) (hsep' : ∀ f ∈ fields', sep ∉ f)
    (h : [sep].intercalate (fields ++ [x]) = [sep].intercalate (fields' ++ [y])) : fields = fields' ∧ x = y := by
  induction fields generalizing fields' with
  | nil =>
    obtain rfl := List.length_eq_zero_iff.mp hlength.symm
    exact ⟨rfl, by simpa [List.intercalate] using h⟩
  | cons f fields ih =>
    cases fields' with
    | nil => cases hlength
    | cons g fields' =>
      rw [List.cons_append, List.cons_append, intercalate_concat, intercalate_concat] at h
      obtain ⟨rfl, hrest⟩ := append_sep_inj (hsep f List.mem_cons_self) (hsep' g List.mem_cons_self) h
      obtain ⟨rfl, hx⟩ := ih (Nat.succ.inj hlength) (fun k hk => hsep k (List.mem_cons_of_mem _ hk))
        (fun k hk => hsep' k (List.mem_cons_of_mem _ hk)) hrest
      exact ⟨rfl, hx⟩

end Joined

end Codec

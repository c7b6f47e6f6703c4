import Mathlib
import ResilienceKit.Audit.Sanitizers
import ResilienceKit.Lib.RegexSub

/-!
# Audit.PiiPatterns — the packs of value-scanning rules

The rules of `GLOBAL_PII_PATTERNS` and `INDIA_PII_PATTERNS` as patterns.  What `re` takes from the Unicode
tables is a parameter.  `Rule` collects what all of them have in common: a word that one of them matches
begins and ends with a known kind of symbol and never touches `[REDACTED]`.
-/

namespace ResilienceKit.Audit

open Regex

/-- `\w`, `\d` and `\s` of the Unicode tables. -/
structure CharTables where
  isWord : Char → Bool
  /-- The value of a decimal digit. -/
  digit : Char → Option ℕ
  isSpace : Char → Bool
  digit_word : ∀ c, (digit c).isSome = true → isWord c = true
  ascii_word : ∀ c, c.toNat < 128 → isWord c = (c.isAlphanum || c = '_')
  ascii_digit : ∀ c, c.toNat < 128 → digit c = if c.isDigit then some (c.toNat - 48) else none
  ascii_space : ∀ c, c.toNat < 128 → isSpace c =
    decide (c = ' ' ∨ 9 ≤ c.toNat ∧ c.toNat ≤ 13 ∨ 28 ≤ c.toNat ∧ c.toNat ≤ 31)

/-- The tables of a world that is all ASCII. -/
def asciiTables : CharTables where
  isWord c := c.isAlphanum || c = '_'
  digit c := if c.isDigit then some (c.toNat - 48) else none
  isSpace c := decide (c = ' ' ∨ 9 ≤ c.toNat ∧ c.toNat ≤ 13 ∨ 28 ≤ c.toNat ∧ c.toNat ≤ 31)
  digit_word c h := by
    have hc : c.isDigit = true := by
      by_contra hno
      simp [hno] at h
    simp [Char.isAlphanum, hc]
  ascii_word _ _ := rfl
  ascii_digit _ _ := rfl
  ascii_space _ _ := rfl

variable (t : CharTables)

def CharTables.isDigit (c : Char) : Bool := (t.digit c).isSome

/-- `_luhn_ok`; `isdigit` is true of more symbols than `\d`, but of none that a card number is made of. -/
def luhnOk (candidate : List Char) : Bool :=
  let digits := candidate.filterMap t.digit
  if ¬ (13 ≤ digits.length ∧ digits.length ≤ 19) then false
  else
    let parity := digits.length % 2
    let checksum := digits.zipIdx.foldl (fun checksum (digit, index) =>
      let doubled := if index % 2 = parity then digit * 2 else digit
      checksum + if doubled > 9 then doubled - 9 else doubled) 0
    checksum % 10 = 0

/-! ### The patterns -/

/-- There is such a symbol. -/
def holds (p : Char → Bool) (c : Option Char) : Bool := c.any p

/-- `\b` -/
def boundary (a b : Option Char) : Bool := holds t.isWord a != holds t.isWord b

open Expr

def literal (c : Char) : Expr Char := one fun d => d = c

def isLocal (c : Char) : Bool := c.isAlphanum || c = '.' || c = '_' || c = '%' || c = '+' || c = '-'

def isDomain (c : Char) : Bool := c.isAlphanum || c = '.' || c = '-'

def isSep (c : Char) : Bool := c = ' ' || c = '-'

/-- A body between two word boundaries. -/
def bounded (body : Expr Char) (h : 0 < body.least) : Pattern Char where
  before := boundary t
  body := body
  after := boundary t
  nonempty := nil_notMem h

def EMAIL : Pattern Char :=
  bounded t (seq (many 1 isLocal) (seq (literal '@') (seq (many 1 isDomain)
    (seq (literal '.') (many 2 Char.isAlpha))))) (Nat.succ_pos _)

def IBAN : Pattern Char :=
  bounded t (seq (times 2 (one Char.isUpper)) (seq (times 2 (one t.isDigit))
    (rep 11 30 (one Char.isAlphanum)))) (Nat.succ_pos _)

def CREDIT_CARD : Pattern Char :=
  bounded t (seq (one t.isDigit) (rep 12 18 (seq (opt (one isSep)) (one t.isDigit)))) (Nat.succ_pos _)

def PAN : Pattern Char :=
  bounded t (seq (times 5 (one Char.isUpper)) (seq (times 4 (one Char.isDigit)) (one Char.isUpper)))
    (Nat.succ_pos _)

def IFSC : Pattern Char :=
  bounded t (seq (times 4 (one Char.isUpper)) (seq (literal '0')
    (times 6 (one fun c => c.isUpper || c.isDigit)))) (Nat.succ_pos _)

def MOBILE_IN : Pattern Char where
  before prev _ := !holds t.isWord prev
  body := seq (opt (alt (seq (literal '+') (seq (literal '9') (literal '1'))) (literal '0')))
    (seq (one fun c => decide ('6' ≤ c) && decide (c ≤ '9')) (times 9 (one t.isDigit)))
  after _ next := !holds t.isDigit next
  nonempty := nil_notMem (Nat.succ_pos _)

def AADHAAR : Pattern Char :=
  bounded t (seq (times 4 (one t.isDigit)) (seq (opt (one t.isSpace)) (seq (times 4 (one t.isDigit))
    (seq (opt (one t.isSpace)) (times 4 (one t.isDigit)))))) (Nat.succ_pos _)

def BANK_ACCOUNT : Pattern Char := bounded t (rep 9 18 (one t.isDigit)) (Nat.succ_pos _)

/-! ### The packs -/

/-- A rule by its compiled pattern. -/
def rule (name : String) (pattern : Pattern Char) (validator : Option (List Char → Bool)) : PiiPattern where
  name := name
  sub repl text :=
    String.ofList (Regex.sub pattern (fun w => (repl (String.ofList w)).toList) text.toList)
  validator := validator.map fun check s => check s.toList

def GLOBAL_PII_PATTERNS : List PiiPattern :=
  [rule "email" (EMAIL t) none, rule "iban" (IBAN t) none,
    rule "credit_card" (CREDIT_CARD t) (some (luhnOk t))]

def INDIA_PII_PATTERNS : List PiiPattern :=
  [rule "pan" (PAN t) none, rule "ifsc" (IFSC t) none, rule "mobile_in" (MOBILE_IN t) none,
    rule "aadhaar" (AADHAAR t) none, rule "bank_account" (BANK_ACCOUNT t) none]

/-- `IndiaFintechRedactor(fields, patterns=patterns)` -/
def IndiaFintechRedactor (lower : String → String) (fields : Option (List String))
    (patterns : Option (List PiiPattern)) : RegexRedactor :=
  .init lower (GLOBAL_PII_PATTERNS t ++ INDIA_PII_PATTERNS t) fields patterns

/-! ### What the rules do to a text -/

def MASK : List Char := REDACTED.toList

/-- A rule without a validator. -/
def masked (p : Pattern Char) (s : List Char) : List Char := Regex.sub p (fun _ => MASK) s

/-- A rule with a validator. -/
def checked (p : Pattern Char) (check : List Char → Bool) (s : List Char) : List Char :=
  Regex.sub p (fun w => if check w then MASK else w) s

/-- The text that the card rule is given. -/
def beforeCards (s : List Char) : List Char := masked (IBAN t) (masked (EMAIL t) s)

/-- The text behind the rules for everybody. -/
def globalScrub (s : List Char) : List Char := checked (CREDIT_CARD t) (luhnOk t) (beforeCards t s)

def indiaScrub (s : List Char) : List Char :=
  masked (BANK_ACCOUNT t) (masked (AADHAAR t) (masked (MOBILE_IN t) (masked (IFSC t) (masked (PAN t)
    (globalScrub t s)))))

theorem scrub_global (r : DefaultRedactor) (s : String) :
    RegexRedactor.scrub ⟨r, GLOBAL_PII_PATTERNS t⟩ s = String.ofList (globalScrub t s.toList) := by
  simp only [RegexRedactor.scrub, GLOBAL_PII_PATTERNS, rule, List.foldl_cons, List.foldl_nil,
    Option.map_none, Option.map_some, String.toList_ofList, apply_ite String.toList]
  rfl

theorem scrub_india (lower : String → String) (fields : Option (List String)) (s : String) :
    (IndiaFintechRedactor t lower fields none).scrub s = String.ofList (indiaScrub t s.toList) := by
  simp only [RegexRedactor.scrub, IndiaFintechRedactor, RegexRedactor.init, Option.getD_none,
    GLOBAL_PII_PATTERNS, INDIA_PII_PATTERNS, rule, List.cons_append, List.nil_append, List.foldl_cons,
    List.foldl_nil, Option.map_none, Option.map_some, String.toList_ofList, apply_ite String.toList]
  rfl

/-! ### Symbols -/

theorem toNat_lt_of_isAlphanum {c : Char} (h : c.isAlphanum = true) : c.toNat < 128 := by
  simp only [Char.isAlphanum, Char.isAlpha, Char.isUpper, Char.isLower, Char.isDigit, Bool.or_eq_true,
    Bool.and_eq_true, decide_eq_true_eq, UInt32.le_iff_toNat_le, ge_iff_le] at h
  change (((65 ≤ c.toNat ∧ c.toNat ≤ 90) ∨ (97 ≤ c.toNat ∧ c.toNat ≤ 122)) ∨
    (48 ≤ c.toNat ∧ c.toNat ≤ 57)) at h
  omega

theorem isWord_of_isAlphanum {c : Char} (h : c.isAlphanum = true) : t.isWord c = true := by
  rw [t.ascii_word c (toNat_lt_of_isAlphanum h), h]
  rfl

theorem isDigit_of_ascii {c : Char} (h : c.isDigit = true) : t.isDigit c = true := by
  have halnum : c.isAlphanum = true := by simp [Char.isAlphanum, h]
  rw [CharTables.isDigit, t.ascii_digit c (toNat_lt_of_isAlphanum halnum), if_pos h]
  rfl

/-- Symbols that no rule matches. -/
theorem mask_symbols {c : Char} (h : c ∈ MASK) : t.isDigit c = false ∧ c ≠ '@' := by
  have hall : MASK.all (fun c => decide (c.toNat < 128) && !c.isDigit && decide (c ≠ '@')) = true := by
    decide +kernel
  have hc := List.all_eq_true.mp hall c h
  simp only [Bool.and_eq_true, decide_eq_true_eq, Bool.not_eq_true'] at hc
  refine ⟨?_, hc.2⟩
  rw [CharTables.isDigit, t.ascii_digit c hc.1.1, if_neg (by simp [hc.1.2])]
  rfl

theorem mask_ends : MASK.head? = some '[' ∧ MASK.getLast? = some ']' ∧ MASK ≠ [] := by
  decide +kernel

theorem bracket_symbols {c : Char} (h : c = '[' ∨ c = ']') :
    t.isWord c = false ∧ t.isDigit c = false ∧ t.isSpace c = false ∧ c.isAlphanum = false := by
  rcases h with rfl | rfl
  all_goals
    refine ⟨?_, ?_, ?_, by decide⟩
    · rw [t.ascii_word _ (by decide)]
      decide
    · rw [CharTables.isDigit, t.ascii_digit _ (by decide)]
      decide
    · rw [t.ascii_space _ (by decide)]
      decide

/-! ### What the rules have in common -/

/-- Words end with a word symbol, have no bracket and some symbol that is not in the mask. -/
structure Plain (r : Expr Char) : Prop where
  last : ∀ c, r.lasts c = true → t.isWord c = true
  brackets : r.uses '[' = false ∧ r.uses ']' = false
  other : Has (· ∉ MASK) r

variable {t}

theorem Plain.alien {r : Expr Char} (h : Plain t r) {w : List Char} (hw : w ∈ r.lang) : Alien MASK w where
  head c hc hmem := by
    rw [mask_ends.1] at hc
    obtain rfl := Option.some.inj hc
    have := uses_of_mem hw hmem
    rw [h.brackets.1] at this
    cases this
  last c hc hmem := by
    rw [mask_ends.2.1] at hc
    obtain rfl := Option.some.inj hc
    have := uses_of_mem hw hmem
    rw [h.brackets.2] at this
    cases this
  other := h.other w hw

theorem Plain.last_word {r : Expr Char} (h : Plain t r) {w : List Char} (hw : w ∈ r.lang) {c : Char}
    (hc : w.getLast? = some c) : t.isWord c = true :=
  h.last c (lasts_of_mem hw hc)

theorem has_digit : Has (· ∉ MASK) (one t.isDigit) :=
  has_one fun c hc hm => by
    rw [(mask_symbols t hm).1] at hc
    cases hc

theorem has_asciiDigit (t : CharTables) : Has (· ∉ MASK) (one Char.isDigit) :=
  has_one fun c hc hm => by
    have := isDigit_of_ascii t hc
    rw [(mask_symbols t hm).1] at this
    cases this

section Rules

variable (t)

theorem plain_email : Plain t (EMAIL t).body where
  last c h := by
    have hc : c.isAlpha = true := by simpa [EMAIL, bounded, literal] using h
    exact isWord_of_isAlphanum t (by simp [Char.isAlphanum, hc])
  brackets := by simp [EMAIL, bounded, literal, isLocal, isDomain]
  other := .seq_right (.seq_left (has_one fun c hc hm => (mask_symbols t hm).2 (of_decide_eq_true hc)))

theorem plain_iban : Plain t (IBAN t).body where
  last c h := by
    have hc : c.isAlphanum = true := by simpa [IBAN, bounded] using h
    exact isWord_of_isAlphanum t hc
  brackets := by
    have h := fun c hc => (bracket_symbols t (c := c) hc).2.1
    simp [IBAN, bounded, times, h]
  other := .seq_right (.seq_left (.rep (Nat.succ_pos _) has_digit))

theorem plain_creditCard : Plain t (CREDIT_CARD t).body where
  last c h := by
    have hc : t.isDigit c = true := by simpa [CREDIT_CARD, bounded] using h
    exact t.digit_word c hc
  brackets := by
    have h := fun c hc => (bracket_symbols t (c := c) hc).2.1
    simp [CREDIT_CARD, bounded, opt, isSep, h]
  other := .seq_left has_digit

theorem plain_pan : Plain t (PAN t).body where
  last c h := by
    have hc : c.isUpper = true := by simpa [PAN, bounded] using h
    exact isWord_of_isAlphanum t (by simp [Char.isAlphanum, Char.isAlpha, hc])
  brackets := by simp [PAN, bounded, times]
  other := .seq_right (.seq_left (.rep (Nat.succ_pos _) (has_asciiDigit t)))

theorem plain_ifsc : Plain t (IFSC t).body where
  last c h := by
    have hc : c.isUpper = true ∨ c.isDigit = true := by simpa [IFSC, bounded, times] using h
    exact isWord_of_isAlphanum t (by rcases hc with hc | hc <;> simp [Char.isAlphanum, Char.isAlpha, hc])
  brackets := by simp [IFSC, bounded, times, literal]
  other := .seq_right (.seq_left (has_one fun c hc hm => by
    have h0 : c.isDigit = true := by
      rw [show c = '0' from of_decide_eq_true hc]
      decide
    have := isDigit_of_ascii t h0
    rw [(mask_symbols t hm).1] at this
    cases this))

theorem plain_mobile : Plain t (MOBILE_IN t).body where
  last c h := by
    have hc : t.isDigit c = true := by simpa [MOBILE_IN, times] using h
    exact t.digit_word c hc
  brackets := by
    have h := fun c hc => (bracket_symbols t (c := c) hc).2.1
    simp [MOBILE_IN, times, opt, literal, h]
  other := .seq_right (.seq_right (.rep (Nat.succ_pos _) has_digit))

theorem plain_aadhaar : Plain t (AADHAAR t).body where
  last c h := by
    have hc : t.isDigit c = true := by simpa [AADHAAR, bounded, times] using h
    exact t.digit_word c hc
  brackets := by
    have h := fun c hc => (bracket_symbols t (c := c) hc).2.1
    have hs := fun c hc => (bracket_symbols t (c := c) hc).2.2.1
    simp [AADHAAR, bounded, times, opt, h, hs]
  other := .seq_left (.rep (Nat.succ_pos _) has_digit)

theorem plain_bankAccount : Plain t (BANK_ACCOUNT t).body where
  last c h := by
    have hc : t.isDigit c = true := by simpa [BANK_ACCOUNT, bounded] using h
    exact t.digit_word c hc
  brackets := by
    have h := fun c hc => (bracket_symbols t (c := c) hc).2.1
    simp [BANK_ACCOUNT, bounded, h]
  other := .rep (Nat.succ_pos _) has_digit

end Rules

/-! ### What a replacement does to the symbols next to a word -/

section Neighbours

variable {p : Pattern Char} {ps front back : List (Piece Char)} {q : List Char} {c : Char}

/-- A match behind a word symbol begins with none. -/
def Opens (t : CharTables) (p : Pattern Char) : Prop :=
  ∀ prev next, p.before prev next = true → holds t.isWord prev = true → holds t.isWord next = false

/-- A match that ends with a word symbol is followed by none. -/
def Closes (t : CharTables) (p : Pattern Char) : Prop :=
  ∀ last next, p.after last next = true → holds t.isWord last = true → holds t.isWord next = false

theorem opens_bounded {r : Expr Char} {h : 0 < r.least} : Opens t (bounded t r h) := by
  intro prev next hb hp
  simpa [bounded, boundary, hp] using hb

theorem closes_bounded {r : Expr Char} {h : 0 < r.least} : Closes t (bounded t r h) := by
  intro last next hb hl
  simpa [bounded, boundary, hl] using hb

theorem opens_mobile : Opens t (MOBILE_IN t) := by
  intro prev next hb hp
  simp [MOBILE_IN, hp] at hb

theorem holds_digit_of_word {o : Option Char} (h : holds t.isWord o = false) : holds t.isDigit o = false := by
  cases o with
  | none => rfl
  | some c =>
    cases hd : t.isDigit c with
    | false => exact hd
    | true =>
      have := t.digit_word c hd
      rw [show t.isWord c = false from h] at this
      cases this

theorem head_render_hit (w : List Char) (back : List (Piece Char)) :
    (render (fun _ => MASK) (.hit w :: back)).head? = some '[' := by
  rw [render, List.head?_append, mask_ends.1]
  rfl

/-- Behind a word that ends with a word symbol nothing changes that an assertion could see. -/
theorem next_agrees (hits : Hits p ps) (ho : Opens t p) (hps : ps = front ++ (q.map .kept ++ back))
    (hq : q.getLast? = some c) (hc : t.isWord c = true) :
    holds t.isWord (render (fun _ => MASK) back).head? = holds t.isWord (source back).head? ∧
      holds t.isDigit (render (fun _ => MASK) back).head? = holds t.isDigit (source back).head? := by
  rcases head_cases (fun _ => MASK) back with ⟨w, back', rfl⟩ | heq
  · have hm := hits (front ++ q.map .kept) w back' (by rw [hps, List.append_assoc])
    have hprev : (source (front ++ q.map Piece.kept)).getLast? = some c := by
      rw [source_append, source_kept, List.getLast?_append, hq]
      rfl
    have hold := ho _ _ hm.before (by rw [hprev]; exact hc)
    have hnew := (bracket_symbols t (.inl rfl : '[' = '[' ∨ '[' = ']')).1
    rw [head_render_hit, source, hold, holds_digit_of_word hold]
    exact ⟨hnew, holds_digit_of_word (o := some '[') hnew⟩
  · rw [heq]
    exact ⟨rfl, rfl⟩

/-- In front of a word that begins with a word symbol nothing changes, if the matches close. -/
theorem prev_agrees (hits : Hits p ps) (hp : Plain t p.body) (hcl : Closes t p)
    (hps : ps = front ++ (q.map .kept ++ back)) (hq : q.head? = some c) (hc : t.isWord c = true) :
    (render (fun _ => MASK) front).getLast? = (source front).getLast? := by
  rcases last_cases (fun _ => MASK) front with ⟨front', w, rfl⟩ | heq
  · have hm := hits front' w (q.map .kept ++ back) (by rw [hps, List.append_assoc]; rfl)
    have hd := List.getLast?_eq_some_getLast hm.ne_nil
    have hnext := hcl _ _ hm.after (by rw [hd]; exact hp.last_word hm.word hd)
    rw [source_append, source_kept, List.head?_append, hq, Option.some_or] at hnext
    rw [show t.isWord c = false from hnext] at hc
    cases hc
  · exact heq

end Neighbours

end ResilienceKit.Audit

import ResilienceKit.Audit.PiiPatterns
import ResilienceKit.Throttle.Base

/-!
# Throttle.RateParse — `Rate.parse`

The pattern `^\s*(\d+)\s*/\s*([a-z]+)\s*$` is matched as the engine does, group by group.  No symbol is of two of
its kinds, so a text is read in one way at most (`Reads.unique`).  `parse_exact_iff` says for which texts the
parser accepts what its grammar says and raises a `ValidationError` otherwise: for all but those with a number that
the interpreter refuses to read.
-/

namespace ResilienceKit.Rate

open Regex Expr
open Audit (CharTables)

/-- What `[a-z]` matches besides letters, without regard to case. -/
def FOLDED : List Char := ['\u0130', '\u0131', '\u017F', '\u212A']

/-- No symbol of a rate is of two kinds. -/
structure RateTables extends CharTables where
  digit_space : ∀ c, (digit c).isSome = true → isSpace c = false
  folded_space : ∀ c ∈ FOLDED, isSpace c = false

def UNIT_SECONDS : List (String × ℚ) :=
  [("s", 1), ("sec", 1), ("second", 1), ("seconds", 1), ("m", 60), ("min", 60), ("minute", 60), ("minutes", 60),
    ("h", 3600), ("hr", 3600), ("hour", 3600), ("hours", 3600), ("d", 86400), ("day", 86400), ("days", 86400)]

inductive Detail
  | text (s : String)
  | texts (l : List String)
  | int (n : ℤ)
  deriving DecidableEq, Repr

inductive RateError
  | validationError (message : String) (details : List (String × Detail))
  | valueError
  deriving DecidableEq, Repr

def isLetter (c : Char) : Bool := c.isAlpha || c ∈ FOLDED

/-- `str.lower` of a letter. -/
def lowered (c : Char) : List Char :=
  if c = '\u0130' then ['i', '\u0307'] else if c = '\u212A' then ['k'] else [c.toLower]

variable (t : RateTables)

/-- `$`: also before a newline that ends the text. -/
def atEnd (s : List Char) : Bool := s = [] || s = ['\n']

/-- What was consumed between two places. -/
def between (s rest : List Char) : List Char := s.take (s.length - rest.length)

/-- The groups of `_RATE_RE` for each of its matches, in the order of the engine. -/
def groups (s : List Char) : List (List Char × List Char) :=
  ((many 0 t.isSpace).ends s).flatMap fun s₁ =>
  ((many 1 t.isDigit).ends s₁).flatMap fun s₂ =>
  ((many 0 t.isSpace).ends s₂).flatMap fun s₃ =>
  ((one fun c => c = '/').ends s₃).flatMap fun s₄ =>
  ((many 0 t.isSpace).ends s₄).flatMap fun s₅ =>
  ((many 1 isLetter).ends s₅).flatMap fun s₆ =>
  ((many 0 t.isSpace).ends s₆).flatMap fun s₇ =>
  if atEnd s₇ then [(between s₁ s₂, between s₅ s₆)] else []

def value (digits : List Char) : ℕ := digits.foldl (fun n c => 10 * n + (t.digit c).getD 0) 0

/-- `int` of digits; the interpreter refuses more than 4300. -/
def intOf (digits : List Char) : Except RateError ℤ :=
  if 4300 < digits.length then .error .valueError else .ok (value t digits)

/-- `repr` is the built-in of strings. -/
def parse (repr : String → String) (spec : String) : Except RateError Rate :=
  match (groups t spec.toList).head? with
  | none => .error (.validationError
      ("Malformed rate spec: " ++ repr spec ++ ". Expected '<count>/<unit>' (e.g. '60/min').")
      [("spec", .text spec)])
  | some (digits, letters) => do
    let count ← intOf t digits
    let unit := String.ofList (letters.flatMap lowered)
    match UNIT_SECONDS.lookup unit with
    | none => .error (.validationError ("Unknown rate unit " ++ repr unit ++ " in spec " ++ repr spec ++ ".")
        [("spec", .text spec), ("unit", .text unit),
          ("known", .texts ((UNIT_SECONDS.map Prod.fst).mergeSort fun a b => decide (a ≤ b)))])
    | some perSeconds =>
      if count ≤ 0 then .error (.validationError ("Rate count must be > 0 (got " ++ toString count ++ ").")
        [("spec", .text spec), ("count", .int count)])
      else .ok ⟨count, perSeconds⟩

/-! ### The grammar -/

/-- White space, digits, white space, `/`, white space, letters, white space. -/
def Reads (s digits letters : List Char) : Prop :=
  ∃ a b c e, (∀ x ∈ a ++ b ++ c ++ e, t.isSpace x = true) ∧ (digits ≠ [] ∧ ∀ x ∈ digits, t.isDigit x = true) ∧
    (letters ≠ [] ∧ ∀ x ∈ letters, isLetter x = true) ∧ s = a ++ (digits ++ (b ++ '/' :: (c ++ (letters ++ e))))

/-- The letters are a unit in some letter case. -/
def IsUnit (letters : List Char) (perSeconds : ℚ) : Prop :=
  ∃ unit, (unit, perSeconds) ∈ UNIT_SECONDS ∧ letters.map Char.toLower = unit.toList

/-- The grammar of the docstring. -/
def Grammar (spec : String) (rate : Rate) : Prop :=
  ∃ digits letters, Reads t spec.toList digits letters ∧ rate.count = value t digits ∧ 0 < rate.count ∧
    IsUnit letters rate.perSeconds

/-- The text is accepted as the grammar says, and refused with a `ValidationError` otherwise. -/
def Exact (repr : String → String) (spec : String) : Prop :=
  (∀ rate, parse t repr spec = .ok rate ↔ Grammar t spec rate) ∧
    ((∀ rate, ¬ Grammar t spec rate) → ∃ message details, parse t repr spec = .error (.validationError message details))

/-- A rate with a number that the interpreter refuses to read. -/
def TooLong (spec : String) : Prop := ∃ digits letters, Reads t spec.toList digits letters ∧ 4300 < digits.length

/-! ### One reading -/

section Reading

variable {t} {s digits letters : List Char}

theorem slash_not_space : t.isSpace '/' = false := by
  rw [t.ascii_space _ (by decide)]
  decide

theorem slash_not_digit : t.isDigit '/' = false := by
  rw [CharTables.isDigit, t.ascii_digit _ (by decide)]
  decide

theorem digit_of_space {c : Char} (h : t.isSpace c = true) : t.isDigit c = false := by
  rw [← Bool.not_eq_true]
  intro hdigit
  exact absurd h (by rw [t.digit_space c hdigit]; exact Bool.false_ne_true)

theorem space_of_letter {c : Char} (h : isLetter c = true) : t.isSpace c = false := by
  rcases (Bool.or_eq_true _ _).mp h with h | h
  · have hlt : c.toNat < 128 := Audit.toNat_lt_of_isAlphanum (by rw [Char.isAlphanum, h, Bool.true_or])
    have hall : ∀ n < 128, (Char.ofNat n).isAlpha = true → decide (Char.ofNat n = ' ' ∨
        9 ≤ (Char.ofNat n).toNat ∧ (Char.ofNat n).toNat ≤ 13 ∨
        28 ≤ (Char.ofNat n).toNat ∧ (Char.ofNat n).toNat ≤ 31) = false := by decide +kernel
    have hc := hall c.toNat hlt
    rw [Char.ofNat_toNat] at hc
    rw [t.ascii_space c hlt]
    exact hc h
  · exact t.folded_space c (of_decide_eq_true h)

theorem letter_of_space {c : Char} (h : t.isSpace c = true) : isLetter c = false := by
  rw [← Bool.not_eq_true]
  intro hletter
  exact absurd h (by rw [space_of_letter hletter]; exact Bool.false_ne_true)

/-- What satisfies `p` ends where something does not. -/
theorem takeWhile_of_stop {p : Char → Bool} {x : List Char} (rest : List Char) (hx : ∀ c ∈ x, p c = true)
    (hrest : ∀ c ∈ rest.head?, p c = false) : (x ++ rest).takeWhile p = x ∧ (x ++ rest).dropWhile p = rest := by
  rw [List.takeWhile_append_of_pos hx, List.dropWhile_append_of_pos hx]
  cases rest with
  | nil => simp
  | cons c rest => simp [hrest c rfl]

theorem head?_append_of_ne_nil {p : Char → Bool} {x rest : List Char} (hne : x ≠ [])
    (hx : ∀ c ∈ x, p c = false) : ∀ c ∈ (x ++ rest).head?, p c = false := by
  cases x with
  | nil => exact absurd rfl hne
  | cons y x => exact fun c hc => Option.some.inj hc ▸ hx y List.mem_cons_self

/-- A text is read in one way at most. -/
theorem Reads.unique {digits' letters' : List Char} (h : Reads t s digits letters)
    (h' : Reads t s digits' letters') : digits = digits' ∧ letters = letters' := by
  -- both parts are what a scan of the text finds
  have hscan : ∀ {digits letters}, Reads t s digits letters →
      digits = (s.dropWhile t.isSpace).takeWhile t.isDigit ∧
      letters = ((((s.dropWhile t.isSpace).dropWhile t.isDigit).dropWhile t.isSpace).tail.dropWhile
        t.isSpace).takeWhile isLetter := by
    rintro digits letters ⟨a, b, c, e, hspace, ⟨hne, hdigits⟩, ⟨hne', hletters⟩, rfl⟩
    simp only [List.forall_mem_append] at hspace
    obtain ⟨⟨⟨ha, hb⟩, hc⟩, he⟩ := hspace
    have hfirst := (takeWhile_of_stop (digits ++ (b ++ '/' :: (c ++ (letters ++ e)))) ha
      (head?_append_of_ne_nil hne fun x hx => t.digit_space x (hdigits x hx))).2
    obtain ⟨htake, hsecond⟩ := takeWhile_of_stop (b ++ '/' :: (c ++ (letters ++ e))) hdigits (by
      cases b with
      | nil => exact fun x hx => Option.some.inj hx ▸ slash_not_digit
      | cons y b => exact fun x hx => Option.some.inj hx ▸ digit_of_space (hb y List.mem_cons_self))
    have hthird := (takeWhile_of_stop ('/' :: (c ++ (letters ++ e))) hb
      fun x hx => Option.some.inj hx ▸ slash_not_space).2
    have hfourth := (takeWhile_of_stop (letters ++ e) hc
      (head?_append_of_ne_nil hne' fun x hx => space_of_letter (hletters x hx))).2
    have hfifth := (takeWhile_of_stop e hletters fun x hx =>
      letter_of_space (he x (List.mem_of_mem_head? hx))).1
    rw [hfirst, htake, hsecond, hthird, List.tail_cons, hfourth, hfifth]
    exact ⟨rfl, rfl⟩
  obtain ⟨hd, hl⟩ := hscan h
  obtain ⟨hd', hl'⟩ := hscan h'
  exact ⟨hd.trans hd'.symm, hl.trans hl'.symm⟩

end Reading

/-! ### The pattern -/

section Groups

variable {t} {s rest : List Char}

theorem mem_ends_many {least : ℕ} {p : Char → Bool} : rest ∈ (many least p).ends s ↔
    ∃ w, least ≤ w.length ∧ (∀ c ∈ w, p c = true) ∧ s = w ++ rest := by
  rw [finds_ends]
  exact ⟨fun ⟨w, ⟨hlen, hall⟩, hs⟩ => ⟨w, hlen, hall, hs⟩, fun ⟨w, hlen, hall, hs⟩ => ⟨w, ⟨hlen, hall⟩, hs⟩⟩

theorem between_append (w rest : List Char) : between (w ++ rest) rest = w := by
  rw [between, List.length_append, Nat.add_sub_cancel, List.take_left]

theorem mem_ends_one {p : Char → Bool} : rest ∈ (one p).ends s ↔ ∃ c, p c = true ∧ s = c :: rest := by
  rw [finds_ends]
  exact ⟨fun ⟨_, ⟨c, hc, rfl⟩, hs⟩ => ⟨c, hc, hs⟩, fun ⟨c, hc, hs⟩ => ⟨[c], ⟨c, hc, rfl⟩, hs⟩⟩

/-- A newline at the end is white space. -/
theorem space_of_atEnd (h : atEnd rest = true) : ∀ c ∈ rest, t.isSpace c = true := by
  rcases (Bool.or_eq_true _ _).mp h with h | h <;> obtain rfl := of_decide_eq_true h
  · exact fun c hc => absurd hc List.not_mem_nil
  · intro c hc
    obtain rfl := List.mem_singleton.mp hc
    rw [t.ascii_space _ (by decide)]
    decide

/-- The engine finds the readings of the text. -/
theorem mem_groups {digits letters : List Char} : (digits, letters) ∈ groups t s ↔ Reads t s digits letters := by
  simp only [groups, List.mem_flatMap, mem_ends_many, mem_ends_one]
  constructor
  · rintro ⟨s₁, ⟨a, -, ha, rfl⟩, s₂, ⟨d, hd, hdigits, rfl⟩, s₃, ⟨b, -, hb, rfl⟩, s₄, ⟨x, hx, rfl⟩, s₅,
      ⟨c, -, hc, rfl⟩, s₆, ⟨w, hw, hletters, rfl⟩, s₇, ⟨e, -, he, rfl⟩, hend⟩
    obtain rfl := of_decide_eq_true hx
    split_ifs at hend with hs
    · rw [List.mem_singleton, between_append, between_append] at hend
      obtain ⟨rfl, rfl⟩ := Prod.mk.inj hend
      refine ⟨a, b, c, e ++ s₇, ?_, ⟨List.ne_nil_of_length_pos hd, hdigits⟩,
        ⟨List.ne_nil_of_length_pos hw, hletters⟩, rfl⟩
      simp only [List.forall_mem_append]
      exact ⟨⟨⟨ha, hb⟩, hc⟩, he, space_of_atEnd hs⟩
    · cases hend
  · rintro ⟨a, b, c, e, hspace, ⟨hd, hdigits⟩, ⟨hw, hletters⟩, rfl⟩
    simp only [List.forall_mem_append] at hspace
    obtain ⟨⟨⟨ha, hb⟩, hc⟩, he⟩ := hspace
    refine ⟨_, ⟨a, Nat.zero_le _, ha, rfl⟩, _, ⟨digits, List.length_pos_of_ne_nil hd, hdigits, rfl⟩, _,
      ⟨b, Nat.zero_le _, hb, rfl⟩, _, ⟨'/', rfl, rfl⟩, _, ⟨c, Nat.zero_le _, hc, rfl⟩, _,
      ⟨letters, List.length_pos_of_ne_nil hw, hletters, rfl⟩, [],
      ⟨e, Nat.zero_le _, he, (List.append_nil e).symm⟩, ?_⟩
    have hend : atEnd [] = true := rfl
    rw [if_pos hend, between_append, between_append]
    exact List.mem_singleton_self _

theorem head?_groups {digits letters : List Char} :
    (groups t s).head? = some (digits, letters) ↔ Reads t s digits letters := by
  rw [← mem_groups]
  constructor
  · exact List.mem_of_mem_head?
  · intro h
    cases hgroups : groups t s with
    | nil => rw [hgroups] at h; cases h
    | cons g gs =>
      have hhead : Reads t s g.1 g.2 := mem_groups.mp (by rw [hgroups]; exact List.mem_cons_self)
      obtain ⟨hd, hl⟩ := hhead.unique (mem_groups.mp h)
      rw [List.head?_cons, ← hd, ← hl]

end Groups

/-! ### Units -/

section Units

variable {t} {letters : List Char} {perSeconds : ℚ}

/-- A unit word has none of the symbols that are lowered otherwise. -/
theorem unit_plain {x : String × ℚ} (hx : x ∈ UNIT_SECONDS) {c : Char} (hc : c ∈ x.1.toList) :
    c ≠ 'k' ∧ c ≠ '\u0307' ∧ c.isAlpha = true := by
  have hall : (UNIT_SECONDS.all fun x => x.1.toList.all fun c =>
      decide (c ≠ 'k') && decide (c ≠ '\u0307') && c.isAlpha) = true := by decide +kernel
  have hword := List.all_eq_true.mp (List.all_eq_true.mp hall x hx) c hc
  simpa only [Bool.and_eq_true, decide_eq_true_eq, and_assoc] using hword

theorem lookup_unit {x : String × ℚ} (hx : x ∈ UNIT_SECONDS) : UNIT_SECONDS.lookup x.1 = some x.2 := by
  have hall : ∀ x ∈ UNIT_SECONDS, UNIT_SECONDS.lookup x.1 = some x.2 := by decide +kernel
  exact hall x hx

theorem flatMap_lowered (h : ∀ c ∈ letters, c ≠ '\u0130' ∧ c ≠ '\u212A') :
    letters.flatMap lowered = letters.map Char.toLower := by
  induction letters with
  | nil => rfl
  | cons c letters ih =>
    obtain ⟨hc, hrest⟩ := List.forall_mem_cons.mp h
    rw [List.flatMap_cons, ih hrest, lowered, if_neg hc.1, if_neg hc.2]
    rfl

/-- The dictionary has the lowered letters exactly if they are a unit in some letter case. -/
theorem lookup_lowered : UNIT_SECONDS.lookup (String.ofList (letters.flatMap lowered)) = some perSeconds ↔
    IsUnit letters perSeconds := by
  constructor
  · intro h
    obtain ⟨l₁, l₂, hunits, -⟩ := List.lookup_eq_some_iff.mp h
    have hmem : (String.ofList (letters.flatMap lowered), perSeconds) ∈ UNIT_SECONDS := by
      rw [hunits]
      exact List.mem_append_right _ List.mem_cons_self
    refine ⟨_, hmem, ?_⟩
    rw [String.toList_ofList, flatMap_lowered]
    intro c hc
    have hplain : ∀ d ∈ lowered c, d ≠ 'k' ∧ d ≠ '\u0307' ∧ d.isAlpha = true := fun d hd =>
      unit_plain hmem (by rw [String.toList_ofList]; exact List.mem_flatMap.mpr ⟨c, hc, hd⟩)
    constructor
    · rintro rfl
      exact (hplain '\u0307' (by decide)).2.1 rfl
    · rintro rfl
      exact (hplain 'k' (by decide)).1 rfl
  · rintro ⟨unit, hmem, hletters⟩
    have hplain : ∀ c ∈ letters, c ≠ '\u0130' ∧ c ≠ '\u212A' := by
      intro c hc
      have halpha := (unit_plain hmem (hletters ▸ List.mem_map_of_mem hc)).2.2
      constructor <;> rintro rfl <;> exact absurd halpha (by decide)
    rw [flatMap_lowered hplain, hletters, String.ofList_toList]
    exact lookup_unit hmem

end Units

/-! ### The parser -/

section Parser

variable {t} (repr : String → String) {spec : String}

/-- What the parser makes of a text that is read. -/
theorem parse_of_reads {digits letters : List Char} (h : Reads t spec.toList digits letters)
    (hlength : digits.length ≤ 4300) :
    (∀ rate, parse t repr spec = .ok rate ↔ rate.count = value t digits ∧ 0 < rate.count ∧
      IsUnit letters rate.perSeconds) ∧
    ((∃ rate, parse t repr spec = .ok rate) ∨
      ∃ message details, parse t repr spec = .error (.validationError message details)) := by
  have hint : intOf t digits = .ok (value t digits) := if_neg (by omega)
  unfold parse
  rw [head?_groups.mpr h]
  simp only [hint, bind, Except.bind]
  cases hunit : UNIT_SECONDS.lookup (String.ofList (letters.flatMap lowered)) with
  | none =>
    refine ⟨fun rate => iff_of_false nofun ?_, .inr ⟨_, _, rfl⟩⟩
    rintro ⟨-, -, hno⟩
    rw [lookup_lowered.mpr hno] at hunit
    cases hunit
  | some perSeconds =>
    by_cases hcount : (value t digits : ℤ) ≤ 0
    · simp only [if_pos hcount]
      refine ⟨fun rate => iff_of_false nofun ?_, .inr ⟨_, _, rfl⟩⟩
      rintro ⟨hvalue, hpos, -⟩
      omega
    · simp only [if_neg hcount]
      refine ⟨fun rate => ⟨?_, ?_⟩, .inl ⟨_, rfl⟩⟩
      · rintro h
        obtain rfl := Except.ok.inj h
        exact ⟨rfl, Int.not_le.mp hcount, lookup_lowered.mp hunit⟩
      · rintro ⟨hvalue, -, hrate⟩
        rw [← lookup_lowered, hunit] at hrate
        rw [Option.some.inj hrate, ← hvalue]

theorem parse_of_tooLong (h : TooLong t spec) : parse t repr spec = .error .valueError := by
  obtain ⟨digits, letters, hreads, hlength⟩ := h
  unfold parse
  rw [head?_groups.mpr hreads]
  simp only [intOf, if_pos hlength]
  rfl

/-- What is not read is refused. -/
theorem parse_of_unread (h : ∀ digits letters, ¬ Reads t spec.toList digits letters) :
    ∃ message details, parse t repr spec = .error (.validationError message details) := by
  have hnone : (groups t spec.toList).head? = none := by
    cases hgroups : (groups t spec.toList).head? with
    | none => rfl
    | some g => exact absurd (head?_groups.mp hgroups) (h g.1 g.2)
  unfold parse
  rw [hnone]
  exact ⟨_, _, rfl⟩

end Parser

/-- **The parser is exact on every text but one with too long a number**, over which it lets a `ValueError` out. -/
theorem parse_exact_iff (repr : String → String) (spec : String) : Exact t repr spec ↔ ¬ TooLong t spec := by
  constructor
  · rintro ⟨haccepts, hrefuses⟩ hlong
    have hparse := parse_of_tooLong repr hlong
    obtain ⟨message, details, herror⟩ := hrefuses fun rate hrate => by
      rw [← haccepts, hparse] at hrate
      cases hrate
    rw [hparse] at herror
    cases herror
  · intro hshort
    by_cases hreads : ∃ digits letters, Reads t spec.toList digits letters
    · obtain ⟨digits, letters, hreads⟩ := hreads
      have hlength : digits.length ≤ 4300 := by
        by_contra hlong
        exact hshort ⟨digits, letters, hreads, by omega⟩
      obtain ⟨hok, hends⟩ := parse_of_reads repr hreads hlength
      have hgrammar : ∀ rate, parse t repr spec = .ok rate ↔ Grammar t spec rate := by
        intro rate
        rw [hok]
        constructor
        · exact fun h => ⟨digits, letters, hreads, h⟩
        · rintro ⟨digits', letters', hreads', h⟩
          obtain ⟨rfl, rfl⟩ := hreads.unique hreads'
          exact h
      refine ⟨hgrammar, fun hno => hends.resolve_left ?_⟩
      rintro ⟨rate, hrate⟩
      exact hno rate ((hgrammar rate).mp hrate)
    · obtain ⟨message, details, herror⟩ := parse_of_unread repr fun digits letters h =>
        hreads ⟨digits, letters, h⟩
      refine ⟨fun rate => ⟨fun h => ?_, ?_⟩, fun _ => ⟨message, details, herror⟩⟩
      · rw [herror] at h
        cases h
      · rintro ⟨digits, letters, h, -⟩
        exact absurd ⟨digits, letters, h⟩ hreads

/-- Tables that know ASCII only. -/
def asciiTables : RateTables where
  toCharTables := Audit.asciiTables
  digit_space c h := by
    have hdigit : c.isDigit = true := by
      by_contra hno
      simp [Audit.asciiTables, hno] at h
    obtain ⟨hlow, hhigh⟩ := Char.isDigit_iff_toNat.mp hdigit
    refine decide_eq_false ?_
    change 48 ≤ c.toNat at hlow
    change c.toNat ≤ 57 at hhigh
    rintro (rfl | h | h)
    · exact absurd hlow (by decide)
    · omega
    · omega
  folded_space := by simp [FOLDED, Audit.asciiTables]

/-- `111…1/s` with so many digits. -/
def onesPerSecond (n : ℕ) : String := String.ofList (List.replicate n '1' ++ ['/', 's'])

theorem reads_onesPerSecond {n : ℕ} (hn : 0 < n) :
    Reads asciiTables (onesPerSecond n).toList (List.replicate n '1') ['s'] := by
  refine ⟨[], [], [], [], by simp, ⟨?_, fun x hx => ?_⟩, ⟨by simp, List.forall_mem_singleton.mpr (by decide)⟩, ?_⟩
  · exact List.ne_nil_of_length_pos (by rwa [List.length_replicate])
  · rw [List.eq_of_mem_replicate hx]
    decide
  · rw [onesPerSecond, String.toList_ofList]
    rfl

theorem value_ones_pos {n : ℕ} (hn : 0 < n) : 0 < value asciiTables (List.replicate n '1') := by
  have hfold : ∀ (digits : List Char) (m : ℕ), 0 < m →
      0 < digits.foldl (fun n c => 10 * n + (asciiTables.digit c).getD 0) m := by
    intro digits
    induction digits with
    | nil => exact fun m hm => hm
    | cons c digits ih => exact fun m hm => ih _ (Nat.add_pos_left (by omega) _)
  cases n with
  | zero => cases hn
  | succ n =>
    rw [value, List.replicate_succ, List.foldl_cons]
    exact hfold _ _ (by decide)

/-- A well-formed rate of 4301 digits is not accepted, and the error is no `ValidationError`. -/
theorem long_count_escapes : (∃ rate, Grammar asciiTables (onesPerSecond 4301) rate) ∧
    ∀ repr, parse asciiTables repr (onesPerSecond 4301) = .error .valueError := by
  have hreads : Reads asciiTables (onesPerSecond 4301).toList (List.replicate 4301 '1') ['s'] :=
    reads_onesPerSecond (by decide)
  constructor
  · refine ⟨⟨value asciiTables (List.replicate 4301 '1'), 1⟩, _, _, hreads, rfl, ?_, "s", by decide, by decide⟩
    exact Int.natCast_pos.mpr (value_ones_pos (by decide))
  · exact fun repr => parse_of_tooLong repr ⟨_, _, hreads, by rw [List.length_replicate]; decide⟩

end ResilienceKit.Rate

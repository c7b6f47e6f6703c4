import Mathlib.Data.List.DropRight
import ResilienceKit.Lib.Binary64

/-!
# LuaNumber — `tostring` of a Lua number

Lua renders a number with the C format `%.14g`: fourteen significant digits, trailing zeros removed,
exponent notation from `10 ^ 14` on.  Naturals up to `10 ^ 14` are told apart by their rendering
(`tostring_natCast_inj`), the next one is not (`tostring_collides`).
-/

namespace Lua

/-- Fourteen significant digits of `q > 0` and its decimal exponent. -/
def significand (q : ℚ) : ℕ × ℤ :=
  let e := Int.log 10 q
  let m := (Binary64.halfEven (q * (10 : ℚ) ^ (13 - e))).toNat
  if m = 10 ^ 14 then (10 ^ 13, e + 1) else (m, e)

/-- `width` fraction digits without the trailing zeros. -/
def fraction (width frac : ℕ) : List Char :=
  (List.replicate (width - (Nat.toDigits 10 frac).length) '0' ++
    Nat.toDigits 10 frac).rdropWhile (· == '0')

def withPoint (int : ℕ) (frac : List Char) : List Char :=
  Nat.toDigits 10 int ++ if frac = [] then [] else '.' :: frac

/-- The exponent part: a sign and at least two digits. -/
def exponent (e : ℤ) : List Char :=
  'e' :: (if e < 0 then '-' else '+') ::
    ((if e.natAbs < 10 then ['0'] else []) ++ Nat.toDigits 10 e.natAbs)

def formatPos (q : ℚ) : List Char :=
  let (m, e) := significand q
  if e < -4 ∨ 14 ≤ e then withPoint (m / 10 ^ 13) (fraction 13 (m % 10 ^ 13)) ++ exponent e
  else
    let w := (13 - e).toNat
    withPoint (m / 10 ^ w) (fraction w (m % 10 ^ w))

def tostring (q : ℚ) : String :=
  String.ofList (if q = 0 then ['0'] else if q < 0 then '-' :: formatPos (-q) else formatPos q)

/-! ### The characters that occur -/

/-- A character of a rendered number. -/
def NumChar (c : Char) : Prop := c.isDigit = true ∨ c = '.' ∨ c = 'e' ∨ c = '+' ∨ c = '-'

theorem numChar_toDigits {n : ℕ} {c : Char} (h : c ∈ Nat.toDigits 10 n) : NumChar c :=
  .inl (Nat.isDigit_of_mem_toDigits (by decide) (by decide) h)

theorem numChar_fraction {w f : ℕ} {c : Char} (h : c ∈ fraction w f) : NumChar c := by
  rcases List.mem_append.mp ((List.rdropWhile_prefix _ _).subset h) with h | h
  · rw [List.eq_of_mem_replicate h]
    exact .inl rfl
  · exact numChar_toDigits h

theorem numChar_withPoint {i : ℕ} {fr : List Char} {c : Char} (hfr : ∀ c ∈ fr, NumChar c)
    (h : c ∈ withPoint i fr) : NumChar c := by
  unfold withPoint at h
  rcases List.mem_append.mp h with h | h
  · exact numChar_toDigits h
  · split_ifs at h
    · simp at h
    · rcases List.mem_cons.mp h with rfl | h
      · exact .inr (.inl rfl)
      · exact hfr c h

theorem numChar_exponent {e : ℤ} {c : Char} (h : c ∈ exponent e) : NumChar c := by
  unfold exponent at h
  rcases List.mem_cons.mp h with rfl | h
  · exact .inr (.inr (.inl rfl))
  rcases List.mem_cons.mp h with rfl | h
  · split_ifs
    · exact .inr (.inr (.inr (.inr rfl)))
    · exact .inr (.inr (.inr (.inl rfl)))
  rcases List.mem_append.mp h with h | h
  · split_ifs at h
    · rw [List.mem_singleton.mp h]
      exact .inl rfl
    · simp at h
  · exact numChar_toDigits h

theorem numChar_formatPos {q : ℚ} {c : Char} (h : c ∈ formatPos q) : NumChar c := by
  have hw : ∀ i w f, c ∈ withPoint i (fraction w f) → NumChar c := fun i w f =>
    numChar_withPoint fun _ => numChar_fraction
  unfold formatPos at h
  dsimp only at h
  split_ifs at h
  · rcases List.mem_append.mp h with h | h
    · exact hw _ _ _ h
    · exact numChar_exponent h
  · exact hw _ _ _ h

theorem numChar_tostring {q : ℚ} {c : Char} (h : c ∈ (tostring q).toList) : NumChar c := by
  unfold tostring at h
  rw [String.toList_ofList] at h
  split_ifs at h
  · rw [List.mem_singleton.mp h]
    exact .inl rfl
  · rcases List.mem_cons.mp h with rfl | h
    · exact .inr (.inr (.inr (.inr rfl)))
    · exact numChar_formatPos h
  · exact numChar_formatPos h

/-- A rendered number holds no colon. -/
theorem colon_notMem_tostring (q : ℚ) : ':' ∉ (tostring q).toList := by
  intro h
  rcases numChar_tostring h with h | h | h | h | h <;> revert h <;> decide

/-! ### Naturals -/

theorem significand_natCast {n : ℕ} (h0 : n ≠ 0) (h : n < 10 ^ 14) :
    significand n = (n * 10 ^ (13 - Nat.log 10 n), (Nat.log 10 n : ℤ)) := by
  have hl : Nat.log 10 n ≤ 13 := by
    have := Nat.log_lt_of_lt_pow h0 h
    omega
  have hscale : (n : ℚ) * (10 : ℚ) ^ (13 - (Nat.log 10 n : ℤ)) =
      ((n * 10 ^ (13 - Nat.log 10 n) : ℕ) : ℚ) := by
    have he : (13 - (Nat.log 10 n : ℤ)) = ((13 - Nat.log 10 n : ℕ) : ℤ) := by omega
    rw [he, zpow_natCast]
    push_cast
    rfl
  have hlt : n * 10 ^ (13 - Nat.log 10 n) < 10 ^ 14 := by
    calc n * 10 ^ (13 - Nat.log 10 n)
        < 10 ^ (Nat.log 10 n + 1) * 10 ^ (13 - Nat.log 10 n) :=
          Nat.mul_lt_mul_of_pos_right (Nat.lt_pow_succ_log_self (by decide) n) (by positivity)
      _ = 10 ^ 14 := by
          rw [← pow_add]
          congr 1
          omega
  simp only [significand, Int.log_natCast, hscale, Binary64.halfEven_natCast, Int.toNat_natCast]
  rw [if_neg (by omega)]

theorem fraction_zero (w : ℕ) : fraction w 0 = [] := by
  unfold fraction
  rw [List.rdropWhile_eq_nil_iff]
  intro c hc
  rcases List.mem_append.mp hc with hc | hc
  · simp [List.eq_of_mem_replicate hc]
  · rw [Nat.toDigits_zero, List.mem_singleton] at hc
    simp [hc]

/-- Naturals below `10 ^ 14` are rendered by their decimal digits. -/
theorem tostring_natCast {n : ℕ} (h : n < 10 ^ 14) :
    (tostring n).toList = Nat.toDigits 10 n := by
  unfold tostring
  rw [String.toList_ofList]
  by_cases h0 : n = 0
  · subst h0
    simp
  · have hl : Nat.log 10 n ≤ 13 := by
      have := Nat.log_lt_of_lt_pow h0 h
      omega
    have hw : (13 - (Nat.log 10 n : ℤ)).toNat = 13 - Nat.log 10 n := by omega
    have hpos : ¬ (n : ℚ) < 0 := not_lt.mpr (Nat.cast_nonneg n)
    rw [if_neg (by exact_mod_cast h0), if_neg hpos]
    unfold formatPos
    rw [significand_natCast h0 h]
    dsimp only
    rw [if_neg (by omega), hw, Nat.mul_div_cancel _ (by positivity), Nat.mul_mod_left,
      fraction_zero]
    simp [withPoint]

theorem tostring_pow_fourteen : tostring ((10 ^ 14 : ℕ) : ℚ) = "1e+14" := by
  have hs : significand ((10 ^ 14 : ℕ) : ℚ) = (10 ^ 13, 14) := by
    unfold significand
    rw [Int.log_natCast, Nat.log_pow (by decide)]
    have : ((10 ^ 14 : ℕ) : ℚ) * (10 : ℚ) ^ (13 - ((14 : ℕ) : ℤ)) = ((10 ^ 13 : ℕ) : ℚ) := by
      norm_num
    simp only [this, Binary64.halfEven_natCast, Int.toNat_natCast]
    norm_num
  unfold tostring formatPos
  rw [hs]
  norm_num
  decide +kernel

theorem tostring_pow_fourteen_succ : tostring ((10 ^ 14 + 1 : ℕ) : ℚ) = "1e+14" := by
  have hs : significand ((10 ^ 14 + 1 : ℕ) : ℚ) = (10 ^ 13, 14) := by
    unfold significand
    rw [Int.log_natCast, Nat.log_eq_of_pow_le_of_lt_pow (m := 14) (by norm_num) (by norm_num)]
    have : ((10 ^ 14 + 1 : ℕ) : ℚ) * (10 : ℚ) ^ (13 - ((14 : ℕ) : ℤ)) = 10 ^ 13 + 1 / 10 := by
      norm_num
    simp only [this]
    have hr : Binary64.halfEven (10 ^ 13 + 1 / 10 : ℚ) = ((10 ^ 13 : ℕ) : ℤ) := by
      decide +kernel
    rw [hr, Int.toNat_natCast]
    norm_num
  unfold tostring formatPos
  rw [hs]
  norm_num
  decide +kernel

/-- The rendering forgets the last digit of `10 ^ 14 + 1`. -/
theorem tostring_collides :
    tostring ((10 ^ 14 + 1 : ℕ) : ℚ) = tostring ((10 ^ 14 : ℕ) : ℚ) := by
  rw [tostring_pow_fourteen, tostring_pow_fourteen_succ]

/-- Naturals up to `10 ^ 14` are told apart by their rendering. -/
theorem tostring_natCast_inj {m n : ℕ} (hm : m ≤ 10 ^ 14) (hn : n ≤ 10 ^ 14)
    (h : tostring m = tostring n) : m = n := by
  have hdig : ∀ k : ℕ, k < 10 ^ 14 → tostring k ≠ tostring ((10 ^ 14 : ℕ) : ℚ) := by
    intro k hk he
    have hmem : 'e' ∈ (tostring k).toList := by
      rw [he, tostring_pow_fourteen]
      decide
    rw [tostring_natCast hk] at hmem
    exact absurd (Nat.isDigit_of_mem_toDigits (by decide) (by decide) hmem) (by decide)
  rcases Nat.lt_or_ge m (10 ^ 14) with hm' | hm'
  · rcases Nat.lt_or_ge n (10 ^ 14) with hn' | hn'
    · have hd : Nat.toDigits 10 m = Nat.toDigits 10 n := by
        rw [← tostring_natCast hm', ← tostring_natCast hn', h]
      have := congrArg (fun ds => Nat.ofDigitChars 10 ds 0) hd
      simpa using this
    · obtain rfl : n = 10 ^ 14 := le_antisymm hn hn'
      exact absurd h (hdig m hm')
  · obtain rfl : m = 10 ^ 14 := le_antisymm hm hm'
    rcases Nat.lt_or_ge n (10 ^ 14) with hn' | hn'
    · exact absurd h.symm (hdig n hn')
    · exact (le_antisymm hn hn').symm

theorem tostring_neg {q : ℚ} (hq : 0 < q) : (tostring (-q)).toList = '-' :: (tostring q).toList := by
  have hneg : -q < 0 := by linarith
  have hpos : ¬ q < 0 := not_lt.mpr hq.le
  unfold tostring
  rw [String.toList_ofList, String.toList_ofList, if_neg hneg.ne, if_pos hneg, if_neg hq.ne', if_neg hpos, neg_neg]

theorem minus_notMem_tostring {n : ℕ} (h : n ≤ 10 ^ 14) : '-' ∉ (tostring n).toList := by
  intro hmem
  rcases Nat.lt_or_ge n (10 ^ 14) with hn | hn
  · rw [tostring_natCast hn] at hmem
    exact absurd (Nat.isDigit_of_mem_toDigits (by decide) (by decide) hmem) (by decide)
  · obtain rfl : n = 10 ^ 14 := le_antisymm h hn
    rw [tostring_pow_fourteen] at hmem
    revert hmem
    decide

/-- Integers of at most fourteen digits are told apart by their rendering. -/
theorem tostring_intCast_inj {a b : ℤ} (ha : a.natAbs ≤ 10 ^ 14) (hb : b.natAbs ≤ 10 ^ 14)
    (h : tostring a = tostring b) : a = b := by
  have hminus : ∀ {c : ℤ}, c < 0 → (tostring c).toList = '-' :: (tostring (c.natAbs : ℚ)).toList := by
    intro c hc
    have hcast : (c : ℚ) = -(c.natAbs : ℚ) := by
      have : c = -(c.natAbs : ℤ) := by omega
      exact_mod_cast this
    rw [hcast]
    refine tostring_neg ?_
    exact_mod_cast Int.natAbs_pos.mpr hc.ne
  have hplus : ∀ {c : ℤ}, 0 ≤ c → (tostring c).toList = (tostring (c.natAbs : ℚ)).toList := by
    intro c hc
    obtain ⟨n, rfl⟩ := Int.eq_ofNat_of_zero_le hc
    simp
  have hl := congrArg String.toList h
  rcases lt_or_ge a 0 with hneg | hnonneg
  · rcases lt_or_ge b 0 with hneg' | hnonneg'
    · rw [hminus hneg, hminus hneg'] at hl
      have := tostring_natCast_inj ha hb (String.toList_inj.mp (List.cons_inj_right _ |>.mp hl))
      omega
    · rw [hminus hneg, hplus hnonneg'] at hl
      exact absurd (hl ▸ List.mem_cons_self) (minus_notMem_tostring hb)
  · rcases lt_or_ge b 0 with hneg' | hnonneg'
    · rw [hplus hnonneg, hminus hneg'] at hl
      exact absurd (hl ▸ List.mem_cons_self) (minus_notMem_tostring ha)
    · rw [hplus hnonneg, hplus hnonneg'] at hl
      have := tostring_natCast_inj ha hb (String.toList_inj.mp hl)
      omega

example : tostring (1700000000 + 123456 / 1000000) = "1700000000.1235" := by decide +kernel

end Lua

import Mathlib.Algebra.Order.Round
import Mathlib.Data.Int.Log
import Mathlib.Data.Rat.Floor
import Mathlib.Tactic.Linarith
import Mathlib.Tactic.NormNum
import Mathlib.Tactic.Positivity
import Mathlib.Tactic.Ring

/-!
# Binary64 — arithmetic of double-precision numbers

A double is kept as the rational that it stands for, and an operation rounds its exact result to the
nearest double, ties to even (`round`).  There are subnormal numbers and no infinities: what is beyond the
largest double is rounded as if the exponent had no upper end.  Rounding keeps the order (`round_mono`)
and the numbers that are doubles already (`round_dyadic`).
-/

namespace Binary64

/-- The nearest integer, ties to even. -/
def halfEven (q : ℚ) : ℤ :=
  let f := ⌊q⌋
  if q - f < 1 / 2 then f
  else if 1 / 2 < q - f then f + 1
  else if f % 2 = 0 then f
  else f + 1

/-- The exponent of the last place of a double next to `q`. -/
def lastPlace (q : ℚ) : ℤ := max (Int.log 2 |q| - 52) (-1074)

/-- The double nearest to `q`, ties to even. -/
def round (q : ℚ) : ℚ := halfEven (q / 2 ^ lastPlace q) * 2 ^ lastPlace q

def add (a b : ℚ) : ℚ := round (a + b)

def sub (a b : ℚ) : ℚ := round (a - b)

def mul (a b : ℚ) : ℚ := round (a * b)

def div (a b : ℚ) : ℚ := round (a / b)

/-! ### The nearest integer -/

theorem halfEven_cases (q : ℚ) :
    halfEven q = ⌊q⌋ ∧ q - ⌊q⌋ ≤ 1 / 2 ∨ halfEven q = ⌊q⌋ + 1 ∧ 1 / 2 ≤ q - ⌊q⌋ := by
  unfold halfEven
  dsimp only
  split_ifs with h1 h2 h3
  · exact .inl ⟨rfl, h1.le⟩
  · exact .inr ⟨rfl, h2.le⟩
  · exact .inl ⟨rfl, not_lt.mp h2⟩
  · exact .inr ⟨rfl, not_lt.mp h1⟩

@[simp] theorem halfEven_intCast (n : ℤ) : halfEven (n : ℚ) = n := by
  rw [halfEven, Int.floor_intCast]
  simp

@[simp] theorem halfEven_natCast (n : ℕ) : halfEven (n : ℚ) = n := halfEven_intCast n

theorem abs_halfEven_sub_le (q : ℚ) : |(halfEven q : ℚ) - q| ≤ 1 / 2 := by
  have hlow := Int.floor_le q
  have hhigh := Int.lt_floor_add_one q
  rw [abs_le]
  rcases halfEven_cases q with ⟨h, hq⟩ | ⟨h, hq⟩
  · rw [h]
    constructor <;> linarith
  · rw [h]
    push_cast
    constructor <;> linarith

theorem halfEven_mono {q r : ℚ} (h : q ≤ r) : halfEven q ≤ halfEven r := by
  rcases (Int.floor_le_floor h).lt_or_eq with hlt | heq
  · -- another integer stands between the two
    have hq : halfEven q ≤ ⌊q⌋ + 1 := by
      rcases halfEven_cases q with ⟨hq, -⟩ | ⟨hq, -⟩ <;> omega
    have hr : ⌊r⌋ ≤ halfEven r := by
      rcases halfEven_cases r with ⟨hr, -⟩ | ⟨hr, -⟩ <;> omega
    omega
  · have hfrac : q - ⌊q⌋ ≤ r - ⌊q⌋ := by linarith
    unfold halfEven
    dsimp only
    rw [← heq]
    split_ifs with h1 h2 h3 h4 h5 h6 h7 h8 h9 <;> first | omega | (exfalso; linarith)

theorem halfEven_neg (q : ℚ) : halfEven (-q) = -halfEven q := by
  rcases eq_or_ne q ⌊q⌋ with hint | hne
  · rw [hint, ← Int.cast_neg, halfEven_intCast, halfEven_intCast]
  · have hlt : (⌊q⌋ : ℚ) < q := lt_of_le_of_ne (Int.floor_le q) hne.symm
    have hfloor : ⌊-q⌋ = -⌊q⌋ - 1 := by
      rw [Int.floor_eq_iff]
      have := Int.lt_floor_add_one q
      push_cast
      constructor <;> linarith
    have hfrac : -q - ((-⌊q⌋ - 1 : ℤ) : ℚ) = 1 - (q - ⌊q⌋) := by
      push_cast
      ring
    unfold halfEven
    dsimp only
    rw [hfloor, hfrac]
    split_ifs with h1 h2 h3 h4 h5 h6 h7 h8 <;> first | omega | (exfalso; linarith)

/-- An even shift moves the nearest integer along. -/
theorem halfEven_add_even (q : ℚ) (n : ℤ) : halfEven (q + (2 * n : ℤ)) = halfEven q + 2 * n := by
  have hfrac : q + ((2 * n : ℤ) : ℚ) - ((⌊q⌋ + 2 * n : ℤ) : ℚ) = q - ⌊q⌋ := by
    push_cast
    ring
  unfold halfEven
  dsimp only
  rw [Int.floor_add_intCast, hfrac]
  split_ifs <;> omega

/-! ### The nearest double -/

theorem lastPlace_neg (q : ℚ) : lastPlace (-q) = lastPlace q := by
  rw [lastPlace, abs_neg, lastPlace]

@[simp] theorem round_neg (q : ℚ) : round (-q) = -round q := by
  rw [round, lastPlace_neg, neg_div, halfEven_neg, round]
  push_cast
  ring

@[simp] theorem round_zero : round 0 = 0 := by
  have hzero : halfEven 0 = 0 := halfEven_intCast 0
  rw [round, zero_div, hzero, Int.cast_zero, zero_mul]

theorem two_zpow_pos (e : ℤ) : (0 : ℚ) < 2 ^ e := zpow_pos two_pos e

theorem two_zpow_sub (a b : ℤ) (h : b ≤ a) : (2 : ℚ) ^ a / 2 ^ b = ((2 ^ (a - b).toNat : ℤ) : ℚ) := by
  rw [← zpow_sub₀ two_ne_zero]
  push_cast
  rw [← zpow_natCast, Int.toNat_of_nonneg (by omega)]

/-- A number that is an integer in units of its last place is a double. -/
theorem round_dyadic {q : ℚ} {m e : ℤ} (hq : q = m * 2 ^ e) (he : lastPlace q ≤ e) : round q = q := by
  have hunits : q / 2 ^ lastPlace q = ((m * 2 ^ (e - lastPlace q).toNat : ℤ) : ℚ) := by
    push_cast
    nth_rewrite 1 [hq]
    rw [mul_div_assoc, two_zpow_sub _ _ he]
    push_cast
    rfl
  have hpos := two_zpow_pos (lastPlace q)
  rw [round, hunits, halfEven_intCast, ← hunits, div_mul_cancel₀ _ hpos.ne']

/-- An integer of at most 53 bits, scaled by a power of two in range, is a double. -/
theorem round_mul_zpow {m e : ℤ} (hm : |m| ≤ 2 ^ 53) (he : -1074 ≤ e) :
    round (m * 2 ^ e : ℚ) = m * 2 ^ e := by
  rcases eq_or_ne m 0 with rfl | hm0
  · rw [Int.cast_zero, zero_mul, round_zero]
  have hpos : (0 : ℚ) < |(m * 2 ^ e : ℚ)| :=
    abs_pos.mpr (mul_ne_zero (by exact_mod_cast hm0) (two_zpow_pos e).ne')
  have habs : |(m * 2 ^ e : ℚ)| = ((|m| : ℤ) : ℚ) * 2 ^ e := by
    rw [abs_mul, abs_of_pos (two_zpow_pos e), Int.cast_abs]
  rcases hm.lt_or_eq with hlt | heq
  · refine round_dyadic rfl ?_
    have hlog : Int.log 2 |(m * 2 ^ e : ℚ)| < e + 53 := by
      rw [← Int.lt_zpow_iff_log_lt one_lt_two hpos, habs]
      have hm' : ((|m| : ℤ) : ℚ) < 2 ^ (53 : ℤ) := by exact_mod_cast hlt
      calc ((|m| : ℤ) : ℚ) * 2 ^ e < 2 ^ (53 : ℤ) * 2 ^ e := mul_lt_mul_of_pos_right hm' (two_zpow_pos e)
        _ = ((2 : ℕ) : ℚ) ^ (e + 53) := by
          rw [add_comm, zpow_add₀ (by norm_num)]
          norm_num
    unfold lastPlace
    omega
  · -- a power of two, whose last place is one further up
    have hval : |(m * 2 ^ e : ℚ)| = ((2 : ℕ) : ℚ) ^ (e + 53) := by
      rw [habs, heq, add_comm, zpow_add₀ (by norm_num)]
      norm_num
    have hlp : lastPlace (m * 2 ^ e : ℚ) ≤ e + 1 := by
      rw [lastPlace, hval, Int.log_zpow one_lt_two]
      omega
    obtain ⟨s, hs⟩ : ∃ s : ℤ, m = s * 2 ^ 53 := by
      rcases abs_choice m with h | h
      · exact ⟨1, by omega⟩
      · exact ⟨-1, by omega⟩
    refine round_dyadic (m := s * 2 ^ 52) ?_ hlp
    rw [hs, zpow_add₀ (by norm_num)]
    push_cast
    ring

theorem round_intCast {n : ℤ} (hn : |n| ≤ 2 ^ 53) : round n = n := by
  have h := round_mul_zpow hn (e := 0) (by norm_num)
  rwa [zpow_zero, mul_one] at h

theorem round_natCast {n : ℕ} (hn : n ≤ 2 ^ 53) : round n = n := by
  have h := round_intCast (n := n) (by rw [abs_of_nonneg (by omega)]; exact_mod_cast hn)
  exact_mod_cast h

theorem abs_halfEven_le (q : ℚ) : |halfEven (q / 2 ^ lastPlace q)| ≤ 2 ^ 53 := by
  have hpos := two_zpow_pos (lastPlace q)
  have hlt : |q| < 2 ^ (53 : ℤ) * 2 ^ lastPlace q := by
    have hself := Int.lt_zpow_succ_log_self (b := 2) one_lt_two |q|
    have hle : (2 : ℚ) ^ (Int.log 2 |q| + 1) ≤ 2 ^ (53 + lastPlace q) :=
      zpow_le_zpow_right₀ one_le_two (by unfold lastPlace; omega)
    rw [zpow_add₀ two_ne_zero 53] at hle
    exact (by exact_mod_cast hself : |q| < (2 : ℚ) ^ (Int.log 2 |q| + 1)).trans_le hle
  have hunits : |q / 2 ^ lastPlace q| ≤ ((2 ^ 53 : ℤ) : ℚ) := by
    rw [abs_div, abs_of_pos hpos, div_le_iff₀ hpos]
    push_cast
    exact_mod_cast hlt.le
  obtain ⟨hlow, hhigh⟩ := abs_le.mp hunits
  have h1 := halfEven_mono hhigh
  have h2 := halfEven_mono hlow
  rw [halfEven_intCast] at h1
  rw [halfEven_neg, halfEven_intCast] at h2
  exact abs_le.mpr ⟨h2, h1⟩

/-- What has been rounded is a double. -/
@[simp] theorem round_round (q : ℚ) : round (round q) = round q :=
  round_mul_zpow (abs_halfEven_le q) (by unfold lastPlace; omega)

theorem round_nonneg {q : ℚ} (h : 0 ≤ q) : 0 ≤ round q := by
  have hpos := two_zpow_pos (lastPlace q)
  have hzero : halfEven 0 = 0 := halfEven_intCast 0
  have hint : 0 ≤ halfEven (q / 2 ^ lastPlace q) := hzero ▸ halfEven_mono (div_nonneg h hpos.le)
  exact mul_nonneg (by exact_mod_cast hint) hpos.le

theorem round_mono_pos {x y : ℚ} (hx : 0 < x) (h : x ≤ y) : round x ≤ round y := by
  have hy := hx.trans_le h
  have hlog : Int.log 2 |x| ≤ Int.log 2 |y| := by
    rw [abs_of_pos hx, abs_of_pos hy]
    exact Int.log_mono_right hx h
  have hle : lastPlace x ≤ lastPlace y := by
    unfold lastPlace
    omega
  rcases hle.eq_or_lt with heq | hlt
  · have hpos := two_zpow_pos (lastPlace y)
    unfold round
    rw [heq]
    have hunits : x / 2 ^ lastPlace y ≤ y / 2 ^ lastPlace y := div_le_div_of_nonneg_right h hpos.le
    have hint : (halfEven (x / 2 ^ lastPlace y) : ℚ) ≤ halfEven (y / 2 ^ lastPlace y) := by
      exact_mod_cast halfEven_mono hunits
    exact mul_le_mul_of_nonneg_right hint hpos.le
  · -- the power of two at which the exponent of `y` starts is between the two
    obtain ⟨B, hB⟩ : ∃ B, B = Int.log 2 |y| := ⟨_, rfl⟩
    have hBy : lastPlace y = B - 52 := by
      unfold lastPlace at hlt ⊢
      omega
    have hBx : lastPlace x ≤ B := by omega
    have hlow : (2 : ℚ) ^ B ≤ y := by
      have := Int.zpow_log_le_self (b := 2) one_lt_two hy
      rw [hB, abs_of_pos hy]
      exact_mod_cast this
    have hhigh : x ≤ (2 : ℚ) ^ B := by
      have hlogs : Int.log 2 |x| + 1 ≤ B := by
        unfold lastPlace at hlt hBy
        omega
      have hself := Int.lt_zpow_succ_log_self (b := 2) one_lt_two x
      rw [abs_of_pos hx] at hlogs
      have hup : (2 : ℚ) ^ (Int.log 2 x + 1) ≤ 2 ^ B := zpow_le_zpow_right₀ one_le_two hlogs
      exact (by exact_mod_cast hself : x < (2 : ℚ) ^ (Int.log 2 x + 1)).le.trans hup
    have hpx := two_zpow_pos (lastPlace x)
    have hpy := two_zpow_pos (lastPlace y)
    have h1 : round x ≤ 2 ^ B := by
      have hint := halfEven_mono (div_le_div_of_nonneg_right hhigh hpx.le)
      rw [two_zpow_sub _ _ hBx, halfEven_intCast] at hint
      have hq : (halfEven (x / 2 ^ lastPlace x) : ℚ) ≤ 2 ^ B / 2 ^ lastPlace x := by
        rw [two_zpow_sub _ _ hBx]
        exact_mod_cast hint
      exact (le_div_iff₀ hpx).mp hq
    have h2 : 2 ^ B ≤ round y := by
      have hint := halfEven_mono (div_le_div_of_nonneg_right hlow hpy.le)
      rw [two_zpow_sub _ _ (by omega), halfEven_intCast] at hint
      have hq : (2 : ℚ) ^ B / 2 ^ lastPlace y ≤ (halfEven (y / 2 ^ lastPlace y) : ℚ) := by
        rw [two_zpow_sub _ _ (by omega)]
        exact_mod_cast hint
      exact (div_le_iff₀ hpy).mp hq
    exact h1.trans h2

/-- Rounding keeps the order. -/
theorem round_mono {x y : ℚ} (h : x ≤ y) : round x ≤ round y := by
  rcases lt_or_ge 0 x with hx | hx
  · exact round_mono_pos hx h
  rcases lt_or_ge y 0 with hy | hy
  · have hneg := round_mono_pos (neg_pos.mpr hy) (neg_le_neg h)
    rw [round_neg, round_neg] at hneg
    linarith
  · have hlow := round_nonneg (neg_nonneg.mpr hx)
    have hhigh := round_nonneg hy
    rw [round_neg] at hlow
    linarith

/-- Rounding moves a number below `N` by at most the 53rd part, in powers of two, of `N`. -/
theorem abs_round_sub_le {q N : ℚ} (hN : 1 ≤ N) (h0 : 0 ≤ q) (h : q < N) : |round q - q| ≤ N / 2 ^ 53 := by
  have hNpos : 0 < N := zero_lt_one.trans_le hN
  rcases h0.eq_or_lt with rfl | hpos
  · rw [round_zero, sub_zero, abs_zero]
    positivity
  have hp := two_zpow_pos (lastPlace q)
  have hlogN : 0 ≤ Int.log 2 N := by
    have := Int.log_mono_right (b := 2) zero_lt_one hN
    rwa [Int.log_one_right] at this
  have hlp : lastPlace q ≤ Int.log 2 N - 52 := by
    have := Int.log_mono_right (b := 2) hpos h.le
    unfold lastPlace
    rw [abs_of_pos hpos]
    omega
  have hunit : (2 : ℚ) ^ lastPlace q ≤ N / 2 ^ 52 := by
    have hself := Int.zpow_log_le_self (b := 2) one_lt_two hNpos
    have hle : (2 : ℚ) ^ lastPlace q ≤ 2 ^ (Int.log 2 N - 52) := zpow_le_zpow_right₀ one_le_two hlp
    rw [zpow_sub₀ two_ne_zero] at hle
    refine hle.trans (div_le_div_of_nonneg_right ?_ (by positivity))
    exact_mod_cast hself
  have hround : round q - q = ((halfEven (q / 2 ^ lastPlace q) : ℚ) - q / 2 ^ lastPlace q) * 2 ^ lastPlace q := by
    rw [sub_mul, div_mul_cancel₀ _ hp.ne', round]
  rw [hround, abs_mul, abs_of_pos hp]
  calc |(halfEven (q / 2 ^ lastPlace q) : ℚ) - q / 2 ^ lastPlace q| * 2 ^ lastPlace q
      ≤ 1 / 2 * 2 ^ lastPlace q := mul_le_mul_of_nonneg_right (abs_halfEven_sub_le _) hp.le
    _ ≤ 1 / 2 * (N / 2 ^ 52) := by linarith
    _ = N / 2 ^ 53 := by ring

theorem abs_round_sub_le_abs {q N : ℚ} (hN : 1 ≤ N) (h : |q| < N) : |round q - q| ≤ N / 2 ^ 53 := by
  rcases le_total 0 q with h0 | h0
  · exact abs_round_sub_le hN h0 (by rwa [abs_of_nonneg h0] at h)
  · have hneg := abs_round_sub_le hN (neg_nonneg.mpr h0) (by rwa [abs_of_nonpos h0] at h)
    rwa [round_neg, sub_neg_eq_add, neg_add_eq_sub, abs_sub_comm] at hneg

/-- What is at most a double is rounded to at most that double. -/
theorem round_le {q d : ℚ} (hd : round d = d) (h : q ≤ d) : round q ≤ d := hd ▸ round_mono h

end Binary64

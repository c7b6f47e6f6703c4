import ResilienceKit.Throttle.FixedWindow
import ResilienceKit.Throttle.LuaRuns

/-!
# Throttle.LuaClock — the doubles of `SLIDING_WINDOW_LUA`

The script calculates its `now`, its cutoff and the scores in doubles, where Throttle.LuaScript has exact numbers.
As long as the seconds of the server's clock have 31 bits, from 2004 to 2038, a double keeps 22 bits of a fraction of
a second: enough to tell the microseconds apart, and whole seconds are taken off without error.  So the pruning
keeps the window that it would keep in exact numbers (`kept_scored`).
-/

namespace ResilienceKit.RedisAsyncThrottle

open Redis SlidingWindow
open Binary64 (halfEven sub div)
open FixedWindow (scriptNow)

/-- The seconds of the time have 31 bits. -/
def InEpoch (us : ℕ) : Prop := 2 ^ 30 * 1000000 ≤ us ∧ us < 2 ^ 31 * 1000000

/-- So many microseconds, in the last place of such a double. -/
def fraction (m : ℕ) : ℤ := halfEven (div m 1000000 * 2 ^ 22)

section Fraction

variable {m m' : ℕ}

theorem abs_div_sub_le (hm : m < 1000000) : |div m 1000000 - m / 1000000| ≤ 1 / 2 ^ 53 := by
  have hq : (m : ℚ) < 1000000 := by exact_mod_cast hm
  refine Binary64.abs_round_sub_le le_rfl (div_nonneg (Nat.cast_nonneg m) (by norm_num)) ?_
  rw [div_lt_one (by norm_num)]
  exact hq

theorem fraction_nonneg (m : ℕ) : 0 ≤ fraction m := by
  have hx : 0 ≤ div m 1000000 := Binary64.round_nonneg (div_nonneg (Nat.cast_nonneg m) (by norm_num))
  have hmono := Binary64.halfEven_mono (mul_nonneg hx (by norm_num : (0 : ℚ) ≤ 2 ^ 22))
  have hzero : halfEven 0 = 0 := Binary64.halfEven_intCast 0
  rwa [hzero] at hmono

theorem fraction_lt_one (hm : m < 1000000) : fraction m < 2 ^ 22 := by
  have hq : (m : ℚ) ≤ 999999 := by
    have : m ≤ 999999 := by omega
    exact_mod_cast this
  have hdiv := (abs_le.mp (abs_div_sub_le hm)).2
  have hhalf := (abs_le.mp (Binary64.abs_halfEven_sub_le (div m 1000000 * 2 ^ 22))).2
  have hlt : (fraction m : ℚ) < ((2 ^ 22 : ℤ) : ℚ) := by
    unfold fraction
    norm_num at hdiv hhalf ⊢
    linarith
  exact_mod_cast hlt

/-- Microseconds are told apart. -/
theorem fraction_strict (h : m < m') (hm' : m' < 1000000) : fraction m < fraction m' := by
  have hq : (m : ℚ) + 1 ≤ m' := by exact_mod_cast h
  have hdiv := (abs_le.mp (abs_div_sub_le (h.trans hm'))).2
  have hdiv' := (abs_le.mp (abs_div_sub_le hm')).1
  have hhalf := (abs_le.mp (Binary64.abs_halfEven_sub_le (div m 1000000 * 2 ^ 22))).2
  have hhalf' := (abs_le.mp (Binary64.abs_halfEven_sub_le (div m' 1000000 * 2 ^ 22))).1
  have hlt : (fraction m : ℚ) < fraction m' := by
    norm_num at hdiv hdiv' hhalf hhalf'
    show (halfEven (div m 1000000 * 2 ^ 22) : ℚ) < halfEven (div m' 1000000 * 2 ^ 22)
    rw [show (2 : ℚ) ^ 22 = 4194304 by norm_num]
    linarith
  exact_mod_cast hlt

end Fraction

variable {us a W : ℕ}

/-- The script's `now` in its last place. -/
def ticks (us : ℕ) : ℤ := (us / 1000000 : ℕ) * 2 ^ 22 + fraction (us % 1000000)

theorem scriptNow_eq (h : InEpoch us) : scriptNow us = ticks us * 2 ^ (-22 : ℤ) := by
  obtain ⟨hlow, hhigh⟩ := h
  obtain ⟨s, hs⟩ : ∃ s, us / 1000000 = s := ⟨_, rfl⟩
  obtain ⟨x, hx⟩ : ∃ x, div (us % 1000000 : ℕ) 1000000 = x := ⟨_, rfl⟩
  have hmicro : us % 1000000 < 1000000 := Nat.mod_lt _ (by norm_num)
  have hx0 : 0 ≤ x := hx ▸ Binary64.round_nonneg (div_nonneg (Nat.cast_nonneg _) (by norm_num))
  have hx1 : x < 1 := by
    have hq : ((us % 1000000 : ℕ) : ℚ) ≤ 999999 := by
      have : us % 1000000 ≤ 999999 := by omega
      exact_mod_cast this
    have hdiv := (abs_le.mp (abs_div_sub_le hmicro)).2
    rw [hx] at hdiv
    norm_num at hdiv ⊢
    linarith
  have hs0 : (2 : ℚ) ^ (30 : ℤ) ≤ s := by
    have : 2 ^ 30 ≤ s := by omega
    exact_mod_cast this
  have hs1 : (s : ℚ) + 1 ≤ 2 ^ 31 := by
    have : s + 1 ≤ 2 ^ 31 := by omega
    exact_mod_cast this
  have hpos : 0 < (s : ℚ) + x := by linarith
  have hlog : Int.log 2 |(s : ℚ) + x| = 30 := by
    rw [abs_of_pos hpos]
    refine le_antisymm (Int.lt_add_one_iff.mp ?_) ?_
    · rw [← Int.lt_zpow_iff_log_lt one_lt_two hpos]
      norm_num at hs1 ⊢
      linarith
    · rw [← Int.zpow_le_iff_le_log one_lt_two hpos]
      exact hs0.trans (le_add_of_nonneg_right hx0)
  have hlast : Binary64.lastPlace ((s : ℚ) + x) = -22 := by
    rw [Binary64.lastPlace, hlog]
    norm_num
  have hunits : ((s : ℚ) + x) / 2 ^ (-22 : ℤ) = x * 2 ^ 22 + (2 * (s * 2 ^ 21) : ℤ) := by
    push_cast
    rw [zpow_neg, div_inv_eq_mul]
    norm_num
    ring
  have hround : Binary64.round ((s : ℚ) + x) = (halfEven (x * 2 ^ 22) + 2 * (s * 2 ^ 21) : ℤ) * 2 ^ (-22 : ℤ) := by
    rw [Binary64.round, hlast, hunits, Binary64.halfEven_add_even]
  show Binary64.round (((us / 1000000 : ℕ) : ℚ) + div (us % 1000000 : ℕ) 1000000) = _
  rw [hs, hx, hround, ticks, fraction, hs, hx]
  congr 2
  ring

theorem ticks_bounds (h : InEpoch us) : 2 ^ 52 ≤ ticks us ∧ ticks us < 2 ^ 53 := by
  obtain ⟨hlow, hhigh⟩ := h
  have hmicro : us % 1000000 < 1000000 := Nat.mod_lt _ (by norm_num)
  have h0 := fraction_nonneg (us % 1000000)
  have h1 := fraction_lt_one hmicro
  unfold ticks
  omega

/-- The ticks of two times, one of them moved by whole seconds, compare as the times do. -/
theorem ticks_le_iff (a us W : ℕ) : ticks a ≤ ticks us - W * 2 ^ 22 ↔ a + W * 1000000 ≤ us := by
  have hm : us % 1000000 < 1000000 := Nat.mod_lt _ (by norm_num)
  have hma : a % 1000000 < 1000000 := Nat.mod_lt _ (by norm_num)
  have h0 := fraction_nonneg (us % 1000000)
  have h1 := fraction_lt_one hm
  have ha0 := fraction_nonneg (a % 1000000)
  have ha1 := fraction_lt_one hma
  have hus := Nat.div_add_mod us 1000000
  have ha := Nat.div_add_mod a 1000000
  unfold ticks
  rcases lt_trichotomy (a % 1000000) (us % 1000000) with hlt | heq | hlt
  · have := fraction_strict hlt hm
    omega
  · rw [heq]
    omega
  · have := fraction_strict hlt hma
    omega

/-- The cutoff is taken off without error. -/
theorem sub_scriptNow (h : InEpoch us) (hW : W ≤ 2 ^ 31) :
    sub (scriptNow us) W = (ticks us - W * 2 ^ 22 : ℤ) * 2 ^ (-22 : ℤ) := by
  obtain ⟨hlow, hhigh⟩ := ticks_bounds h
  have hcut : scriptNow us - W = (ticks us - W * 2 ^ 22 : ℤ) * 2 ^ (-22 : ℤ) := by
    have hunit : (W : ℚ) * 2 ^ 22 * 2 ^ (-22 : ℤ) = W := by
      rw [mul_assoc, show (2 : ℚ) ^ 22 * 2 ^ (-22 : ℤ) = 1 by norm_num, mul_one]
    rw [scriptNow_eq h, Int.cast_sub, sub_mul, Int.cast_mul, Int.cast_pow, Int.cast_natCast, Int.cast_ofNat, hunit]
  rw [sub, hcut]
  refine Binary64.round_mul_zpow (abs_le.mpr ⟨?_, ?_⟩) (by norm_num)
  · omega
  · omega

/-- **The cutoff** divides the scores as it divides the times. -/
theorem scriptNow_le_iff (ha : InEpoch a) (hus : InEpoch us) (hW : W ≤ 2 ^ 31) :
    scriptNow a ≤ sub (scriptNow us) W ↔ a + W * 1000000 ≤ us := by
  have hpos : (0 : ℚ) < 2 ^ (-22 : ℤ) := Binary64.two_zpow_pos _
  rw [scriptNow_eq ha, sub_scriptNow hus hW, mul_le_mul_iff_of_pos_right hpos, Int.cast_le, ticks_le_iff]

theorem scriptNow_nonneg (h : InEpoch us) : 0 ≤ scriptNow us := by
  have hlow := (ticks_bounds h).1
  have hticks : 0 ≤ ticks us := by omega
  rw [scriptNow_eq h]
  exact mul_nonneg (by exact_mod_cast hticks) (Binary64.two_zpow_pos _).le

/-- The member of the admission with counter value `e.1` at the time `e.2`, its score a double. -/
def scored (e : ℕ × ℕ) : String × ℚ := (member (scriptNow e.2) (e.1 : ℤ), scriptNow e.2)

/-- What the script keeps, in doubles: the window of the exact times, as in `kept_entry`. -/
theorem kept_scored (hus : InEpoch us) (hW : W ≤ 2 ^ 31) {L : List (ℕ × ℕ)} (hL : ∀ e ∈ L, InEpoch e.2) :
    ((L.map scored).filter fun m => ¬ (0 ≤ m.2 ∧ m.2 ≤ sub (scriptNow us) W)) =
      (L.filter fun e => win W us e.2).map scored := by
  rw [List.filter_map]
  congr 1
  refine List.filter_congr fun e he => ?_
  have h0 := scriptNow_nonneg (hL e he)
  rw [Function.comp_apply, Bool.eq_iff_iff, decide_eq_true_iff, win, decide_eq_true_iff]
  show ¬ (0 ≤ scriptNow e.2 ∧ scriptNow e.2 ≤ sub (scriptNow us) W) ↔ us < e.2 + W * 1000000
  rw [scriptNow_le_iff (hL e he) hus hW, not_and, not_le]
  exact ⟨fun h => h h0, fun h _ => h⟩

end ResilienceKit.RedisAsyncThrottle

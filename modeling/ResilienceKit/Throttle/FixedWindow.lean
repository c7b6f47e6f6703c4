import Mathlib.Algebra.Order.Floor.Ring
import Mathlib.Tactic.FieldSimp
import Mathlib.Tactic.Ring
import ResilienceKit.Lib.Binary64
import ResilienceKit.Lib.Codec
import ResilienceKit.Lib.LuaNumber
import ResilienceKit.Lib.Mealy
import ResilienceKit.Lib.RedisStrings

/-!
# Throttle.FixedWindow — `FIXED_WINDOW_LUA`

The script keeps one counter for each aligned window of a key prefix and weighs the counter of the previous
window by the part of it that a window ending now still covers.  It calculates in doubles; up to the year 2106 it
finds the aligned windows without error (`floor_div_eq`).  Along every run the two counters it reads are the
numbers of its admissions in the two windows, although they expire (`Kept`, `fixed_window_runs`).
-/

namespace ResilienceKit.FixedWindow

open Mealy (Timed Clocked log_concat exec_concat)
open Redis
open Binary64 (add sub mul div)

/-- The script's `{allowed, effective_count_ceil, remaining_window_seconds_ceil}`. -/
structure Reply where
  allowed : ℤ
  effectiveCountCeil : ℤ
  remainingWindowSecondsCeil : ℤ
  deriving DecidableEq, Repr

def bucketKey (keyPrefix : String) (start : ℚ) : String := keyPrefix ++ ":" ++ Lua.tostring (⌊start⌋ : ℤ)

/-- `tonumber(redis.call('GET', key) or '0')`.  What is no number fails the script, where it is added. -/
def bucketCount (now : ℚ) (key : String) : Cmd ℚ := do
  match ← getStr now key with
  | none => return 0
  | some v =>
    match v.tonumber with
    | some q => return q
    | none => throw .notInteger

/-- The script's `now`. -/
def scriptNow (us : ℕ) : ℚ := add (time us).1 (div (time us).2 1000000)

/-- `FIXED_WINDOW_LUA` at the server time `us` (in microseconds). -/
def FIXED_WINDOW_LUA (us : ℕ) (keyPrefix : String) (limit window : ℤ) : Cmd Reply := do
  let now := scriptNow us
  let windowStart := mul ⌊div now window⌋ window
  let windowPosition := div (sub now windowStart) window
  let currentKey := bucketKey keyPrefix windowStart
  let previousKey := bucketKey keyPrefix (sub windowStart window)
  let currentCount ← bucketCount (clock us) currentKey
  let previousCount ← bucketCount (clock us) previousKey
  let effectiveCount := add currentCount (mul previousCount (sub 1 windowPosition))
  if limit ≤ effectiveCount then do
    let ttl := sub window (sub now windowStart)
    return ⟨0, ⌈effectiveCount⌉, ⌈ttl⌉⟩
  else do
    let _ ← incr (clock us) currentKey
    let _ ← expire (clock us) currentKey (window * 2)
    return ⟨1, ⌈effectiveCount⌉ + 1, ⌈sub window (sub now windowStart)⌉⟩

/-! ### Aligned windows -/

/-- The aligned window that holds the time. -/
def index (W us : ℕ) : ℤ := ⌊clock us / W⌋

/-- How much of the aligned window has passed, as the script finds it. -/
def position (W us : ℕ) : ℚ := div (sub (scriptNow us) (index W us * W)) W

/-- A time at which doubles tell the microseconds apart, and a window's length before the end of these times. -/
def InTime (W us : ℕ) : Prop := us + W * 1000000 ≤ 2 ^ 32 * 1000000

/-- The counter of the aligned window `j`. -/
def keyOf (keyPrefix : String) (W : ℕ) (j : ℤ) : String := keyPrefix ++ ":" ++ Lua.tostring ((j * W : ℤ) : ℚ)

section Windows

variable {W us : ℕ} {k k' : String}

theorem index_nonneg (W us : ℕ) : 0 ≤ index W us := by
  refine Int.floor_nonneg.mpr (div_nonneg (clock_nonneg us) (Nat.cast_nonneg W))

theorem index_le (hW : 0 < W) (us : ℕ) : (index W us : ℚ) * W ≤ clock us := by
  have hpos : (0 : ℚ) < W := by exact_mod_cast hW
  exact (le_div_iff₀ hpos).mp (Int.floor_le _)

theorem lt_index (hW : 0 < W) (us : ℕ) : clock us < (index W us + 1 : ℚ) * W := by
  have hpos : (0 : ℚ) < W := by exact_mod_cast hW
  exact (div_lt_iff₀ hpos).mp (Int.lt_floor_add_one _)

theorem index_mono (W : ℕ) {a b : ℕ} (h : a ≤ b) : index W a ≤ index W b := by
  refine Int.floor_le_floor (div_le_div_of_nonneg_right (clock_mono h) (Nat.cast_nonneg W))

theorem InTime.window_le (h : InTime W us) : W ≤ 2 ^ 32 := by
  unfold InTime at h
  omega

/-- The script's `now` is not before a whole second that the clock has reached. -/
theorem le_scriptNow {n : ℕ} (hn : n ≤ 2 ^ 53) (h : (n : ℚ) ≤ clock us) : (n : ℚ) ≤ scriptNow us := by
  have hsec : n ≤ us / 1000000 := by
    have h' : ((n * 1000000 : ℕ) : ℚ) ≤ us := by
      unfold clock at h
      push_cast
      linarith
    have : n * 1000000 ≤ us := by exact_mod_cast h'
    omega
  have hfrac : 0 ≤ div (time us).2 1000000 :=
    Binary64.round_nonneg (div_nonneg (Nat.cast_nonneg _) (by norm_num))
  have hsum : (n : ℚ) ≤ (time us).1 + div (time us).2 1000000 := by
    have : (n : ℚ) ≤ (time us).1 := by exact_mod_cast hsec
    linarith
  exact Binary64.round_natCast hn ▸ Binary64.round_mono hsum

/-- It is half a microsecond before a whole second that the clock has not reached. -/
theorem scriptNow_lt {n : ℕ} (hn : n ≤ 2 ^ 32) (h : clock us < n) : scriptNow us ≤ n - 1 / 2000000 := by
  have hus : us + 1 ≤ n * 1000000 := by
    have h' : (us : ℚ) < ((n * 1000000 : ℕ) : ℚ) := by
      unfold clock at h
      push_cast
      linarith
    exact_mod_cast h'
  have hclock : clock us ≤ n - 1 / 1000000 := by
    have h' : ((us + 1 : ℕ) : ℚ) ≤ ((n * 1000000 : ℕ) : ℚ) := by exact_mod_cast hus
    push_cast at h'
    unfold clock
    linarith
  have hnq : (n : ℚ) ≤ 2 ^ 32 := by exact_mod_cast hn
  have hmicro : ((time us).2 : ℚ) < 1000000 := by
    have : us % 1000000 < 1000000 := Nat.mod_lt _ (by norm_num)
    exact_mod_cast this
  have hfrac := Binary64.abs_round_sub_le (q := ((time us).2 : ℚ) / 1000000) le_rfl
    (div_nonneg (Nat.cast_nonneg _) (by norm_num)) (by linarith)
  have hsum : ((time us).1 : ℚ) + div (time us).2 1000000 < n := by
    have := time_eq_clock us
    have := (abs_le.mp hfrac).2
    unfold div
    norm_num at this ⊢
    linarith
  have hn1 : (1 : ℚ) ≤ n := by
    have : 1 ≤ n := by omega
    exact_mod_cast this
  have hnow := Binary64.abs_round_sub_le hn1 (add_nonneg (Nat.cast_nonneg _)
    (Binary64.round_nonneg (div_nonneg (Nat.cast_nonneg _) (by norm_num)))) hsum
  have h1 := (abs_le.mp hfrac).2
  have h2 := (abs_le.mp hnow).2
  have h3 := time_eq_clock us
  show Binary64.round _ ≤ _
  unfold div at h2 ⊢
  norm_num at h1 h2 ⊢
  linarith

/-- The script finds the aligned window. -/
theorem floor_div_eq (hW : 0 < W) (h : InTime W us) : ⌊div (scriptNow us) W⌋ = index W us := by
  have hpos : (0 : ℚ) < W := by exact_mod_cast hW
  obtain ⟨j, hj⟩ : ∃ j : ℕ, index W us = j := ⟨_, (Int.toNat_of_nonneg (index_nonneg W us)).symm⟩
  have hlow := index_le hW us
  have hhigh := lt_index hW us
  have hend : (j + 1) * W ≤ 2 ^ 32 := by
    have hclock : clock us + W ≤ 2 ^ 32 := by
      have h' : ((us + W * 1000000 : ℕ) : ℚ) ≤ ((2 ^ 32 * 1000000 : ℕ) : ℚ) := by exact_mod_cast h
      push_cast at h'
      unfold clock
      linarith
    have : (((j + 1) * W : ℕ) : ℚ) ≤ ((2 ^ 32 : ℕ) : ℚ) := by
      rw [hj] at hlow
      push_cast at hlow ⊢
      linarith
    exact_mod_cast this
  have hendq : ((j + 1 : ℕ) : ℚ) * W ≤ 2 ^ 32 := by exact_mod_cast hend
  rw [hj] at hlow hhigh ⊢
  have hnow : ((j * W : ℕ) : ℚ) ≤ scriptNow us :=
    le_scriptNow (by nlinarith) (by push_cast at hlow ⊢; exact hlow)
  have hnow' : scriptNow us ≤ ((j + 1) * W : ℕ) - 1 / 2000000 :=
    scriptNow_lt hend (by push_cast at hhigh ⊢; exact hhigh)
  have hj32 : j + 1 ≤ 2 ^ 32 := (Nat.le_mul_of_pos_right _ hW).trans hend
  have hjround : Binary64.round (j : ℚ) = j := Binary64.round_natCast (by omega)
  have hge : ((j : ℕ) : ℚ) ≤ div (scriptNow us) W := by
    have : (j : ℚ) ≤ scriptNow us / W := by
      rw [le_div_iff₀ hpos]
      push_cast at hnow
      exact hnow
    exact hjround ▸ Binary64.round_mono this
  have hquot : scriptNow us / W ≤ (j + 1 : ℕ) - 1 / 2000000 / W := by
    rw [div_le_iff₀ hpos, sub_mul, div_mul_cancel₀ _ hpos.ne']
    push_cast at hnow' ⊢
    exact hnow'
  have hgap : ((j + 1 : ℕ) : ℚ) / 2 ^ 53 < 1 / 2000000 / W := by
    rw [lt_div_iff₀ hpos, div_mul_eq_mul_div, div_lt_iff₀ (by positivity)]
    linarith
  have hgappos : (0 : ℚ) < 1 / 2000000 / W := by positivity
  have hlt : div (scriptNow us) W < (j + 1 : ℕ) := by
    have hN : (1 : ℚ) ≤ (j + 1 : ℕ) := by
      push_cast
      linarith [Nat.cast_nonneg (α := ℚ) j]
    have hnonneg : 0 ≤ scriptNow us / W :=
      div_nonneg ((Nat.cast_nonneg _).trans hnow) hpos.le
    have herr := (abs_le.mp (Binary64.abs_round_sub_le hN hnonneg (by linarith))).2
    show Binary64.round _ < _
    linarith
  refine Int.floor_eq_iff.mpr ⟨by exact_mod_cast hge, ?_⟩
  push_cast at hlt ⊢
  exact hlt

theorem bucketKey_eq (k : String) (W : ℕ) (j : ℤ) : bucketKey k ((j : ℚ) * W) = keyOf k W j := by
  have hfloor : ⌊(j : ℚ) * W⌋ = j * W := by
    have : ((j : ℚ) * W) = ((j * W : ℤ) : ℚ) := by push_cast; rfl
    rw [this, Int.floor_intCast]
  rw [bucketKey, hfloor, keyOf]

/-- The last colon splits the key of a counter. -/
theorem key_split {a b : ℚ} (h : k ++ ":" ++ Lua.tostring a = k' ++ ":" ++ Lua.tostring b) :
    k = k' ∧ Lua.tostring a = Lua.tostring b := by
  have hcolon : ∀ q : ℚ, ':' ∉ (Lua.tostring q).toList.reverse := by
    intro q hq
    exact Lua.colon_notMem_tostring q (List.mem_reverse.mp hq)
  have hchars : ∀ (s : String) (q : ℚ), (s ++ ":" ++ Lua.tostring q).toList.reverse =
      (Lua.tostring q).toList.reverse ++ ':' :: s.toList.reverse := by
    intro s q
    have hcol : ":".toList = [':'] := by decide
    rw [String.toList_append, String.toList_append, hcol, List.reverse_append, List.reverse_append,
      List.reverse_singleton, List.singleton_append]
  have hl : (k ++ ":" ++ Lua.tostring a).toList.reverse = (k' ++ ":" ++ Lua.tostring b).toList.reverse := by
    rw [h]
  rw [hchars, hchars] at hl
  obtain ⟨h1, h2⟩ := Codec.append_sep_inj (hcolon _) (hcolon _) hl
  exact ⟨String.toList_inj.mp (List.reverse_injective h2), String.toList_inj.mp (List.reverse_injective h1)⟩

/-- A window that the rendering tells apart. -/
def Rendered (W : ℕ) (j : ℤ) : Prop := -1 ≤ j ∧ j * W ≤ 10 ^ 14

theorem keyOf_inj {j j' : ℤ} (hW : 0 < W) (hW' : W ≤ 10 ^ 14) (hj : Rendered W j) (hj' : Rendered W j')
    (h : keyOf k W j = keyOf k W j') : j = j' := by
  have habs : ∀ {i : ℤ}, Rendered W i → (i * W).natAbs ≤ 10 ^ 14 := by
    rintro i ⟨hi, hle⟩
    have hlow : -(W : ℤ) ≤ i * W := by nlinarith
    omega
  have heq := Lua.tostring_intCast_inj (habs hj) (habs hj') (key_split h).2
  exact mul_right_cancel₀ (by exact_mod_cast hW.ne') heq

/-- The aligned window begins by the year 2106. -/
theorem index_mul_le (hW : 0 < W) (h : InTime W us) : index W us * W ≤ 2 ^ 32 := by
  have hle := index_le hW us
  have hclock : clock us ≤ 2 ^ 32 := by
    have : us ≤ 2 ^ 32 * 1000000 := (Nat.le_add_right _ _).trans h
    have h' : (us : ℚ) ≤ ((2 ^ 32 * 1000000 : ℕ) : ℚ) := by exact_mod_cast this
    push_cast at h'
    unfold clock
    linarith
  have : ((index W us * W : ℤ) : ℚ) ≤ ((2 ^ 32 : ℤ) : ℚ) := by
    push_cast
    linarith
  exact_mod_cast this

theorem rendered_index (hW : 0 < W) (h : InTime W us) : Rendered W (index W us) := by
  refine ⟨by linarith [index_nonneg W us], ?_⟩
  have := index_mul_le hW h
  omega

theorem rendered_previous (hW : 0 < W) (h : InTime W us) : Rendered W (index W us - 1) := by
  obtain ⟨-, hle⟩ := rendered_index hW h
  refine ⟨by linarith [index_nonneg W us], ?_⟩
  nlinarith

/-- The script's start of the window. -/
theorem windowStart_eq (hW : 0 < W) (h : InTime W us) :
    mul ⌊div (scriptNow us) W⌋ W = index W us * W := by
  have hle := index_mul_le hW h
  have h0 := mul_nonneg (index_nonneg W us) (Int.natCast_nonneg W)
  rw [floor_div_eq hW h]
  have := Binary64.round_intCast (n := index W us * W) (by rw [abs_of_nonneg h0]; omega)
  push_cast at this
  exact this

/-- And of the one before. -/
theorem previousStart_eq (hW : 0 < W) (h : InTime W us) :
    sub (index W us * W) W = (index W us - 1 : ℤ) * W := by
  have hle := index_mul_le hW h
  have h0 := mul_nonneg (index_nonneg W us) (Int.natCast_nonneg W)
  have hWle := h.window_le
  have := Binary64.round_intCast (n := (index W us - 1) * W)
    (by rw [abs_le, sub_mul, one_mul]; omega)
  push_cast at this ⊢
  rw [sub, ← this]
  congr 1
  ring

/-- The part that has passed is none or some of the window, and at most all of it. -/
theorem position_le (hW : 0 < W) (h : InTime W us) : position W us ≤ 1 := by
  have hpos : (0 : ℚ) < W := by exact_mod_cast hW
  obtain ⟨j, hj⟩ : ∃ j : ℕ, index W us = j := ⟨_, (Int.toNat_of_nonneg (index_nonneg W us)).symm⟩
  have hend : (j + 1) * W ≤ 2 ^ 33 := by
    have hle := index_mul_le hW h
    have hWle := h.window_le
    rw [hj] at hle
    have hj32 : j * W ≤ 2 ^ 32 := by exact_mod_cast hle
    rw [add_mul, one_mul]
    omega
  have hone : Binary64.round 1 = 1 := by
    exact_mod_cast Binary64.round_natCast (n := 1) (by norm_num)
  have hlen : Binary64.round (W : ℚ) = W := Binary64.round_natCast (h.window_le.trans (by norm_num))
  have hnow := Int.lt_floor_add_one (div (scriptNow us) W)
  rw [floor_div_eq hW h] at hnow
  have hgap : scriptNow us - index W us * W ≤ W := by
    by_contra hlt
    -- the quotient would be rounded to no less than the next integer
    have hquot : ((j + 1 : ℕ) : ℚ) ≤ scriptNow us / W := by
      rw [le_div_iff₀ hpos]
      rw [hj] at hlt
      push_cast at hlt ⊢
      linarith
    have hj33 : j + 1 ≤ 2 ^ 33 := (Nat.le_mul_of_pos_right _ hW).trans hend
    have hjround : Binary64.round ((j + 1 : ℕ) : ℚ) = (j + 1 : ℕ) := Binary64.round_natCast (by omega)
    have hge : ((j + 1 : ℕ) : ℚ) ≤ div (scriptNow us) W := hjround ▸ Binary64.round_mono hquot
    rw [hj] at hnow
    push_cast at hge hnow
    linarith
  have hpart : sub (scriptNow us) (index W us * W) / W ≤ 1 := by
    rw [div_le_one hpos]
    exact Binary64.round_le hlen hgap
  exact Binary64.round_le hone hpart

end Windows

/-! ### One execution -/

/-- The counter under `key` stands at `n`; no key is a counter at zero. -/
def Shows (now : ℚ) (db : Db) (key : String) (n : ℕ) : Prop :=
  (n = 0 ∧ visible now db key = none) ∨ ∃ x, visible now db key = some ⟨.str (.num n), x⟩

/-- The blend of the two counters, as the script calculates it. -/
def weighted (cur prev : ℕ) (pos : ℚ) : ℚ := add cur (mul prev (sub 1 pos))

/-- The seconds that are left of the aligned window, as the script finds them. -/
def remaining (W us : ℕ) : ℚ := sub W (sub (scriptNow us) (index W us * W))

/-- Seven and three tenths of ten are ten, and in doubles a little less. -/
example : weighted 7 10 (position 1 1700000000700000) < 10 := by decide +kernel

section Script

variable {W us cur prev : ℕ} {k : String} {db : Db} {now : ℚ} {key : String} {limit : ℤ}

theorem bucketCount_ok {n : ℕ} (h : Shows now db key n) : (bucketCount now key).run db = .ok (n : ℚ) db := by
  unfold bucketCount
  rcases h with ⟨rfl, h⟩ | ⟨x, h⟩
  · rw [bind_ok (getStr_none h)]
    simp
  · rw [bind_ok (getStr_some h)]
    rfl

theorem counter_of_shows {n : ℕ} (h : Shows now db key n) : counter? now db key = some (n : ℤ) := by
  rcases h with ⟨rfl, h⟩ | ⟨x, h⟩
  · simp [counter?, h]
  · simp [counter?, h]

/-- **Spec of a denial**: the counters stay. -/
theorem denies (limit : ℤ) (hW : 0 < W) (hin : InTime W us)
    (hcur : Shows (clock us) db (keyOf k W (index W us)) cur)
    (hprev : Shows (clock us) db (keyOf k W (index W us - 1)) prev)
    (h : (limit : ℚ) ≤ weighted cur prev (position W us)) :
    (FIXED_WINDOW_LUA us k limit W).run db =
      .ok ⟨0, ⌈weighted cur prev (position W us)⌉, ⌈remaining W us⌉⟩ db := by
  unfold FIXED_WINDOW_LUA
  dsimp only
  rw [Int.cast_natCast, windowStart_eq hW hin, previousStart_eq hW hin, bucketKey_eq, bucketKey_eq,
    bind_ok (bucketCount_ok hcur), bind_ok (bucketCount_ok hprev)]
  exact congrArg (fun x : Cmd Reply => x.run db) (if_pos h)

/-- **Spec of an admission**: the counter of the current window goes up and lives for two windows. -/
theorem admits (limit : ℤ) (hW : 0 < W) (hin : InTime W us)
    (hcur : Shows (clock us) db (keyOf k W (index W us)) cur)
    (hprev : Shows (clock us) db (keyOf k W (index W us - 1)) prev)
    (h : weighted cur prev (position W us) < limit) :
    (FIXED_WINDOW_LUA us k limit W).run db =
      .ok ⟨1, ⌈weighted cur prev (position W us)⌉ + 1, ⌈remaining W us⌉⟩
        (Function.update db (keyOf k W (index W us))
          (some ⟨.str (.num (cur + 1 : ℕ)), some (clock us + 2 * W)⟩)) := by
  set key := keyOf k W (index W us) with hkey
  set db₁ : Db := Function.update db key
    (some ⟨.str (.num (((cur : ℤ) + 1 : ℤ) : ℚ)), deadline (clock us) db key⟩) with hdb₁
  have hv : visible (clock us) db₁ key =
      some ⟨.str (.num (((cur : ℤ) + 1 : ℤ) : ℚ)), deadline (clock us) db key⟩ :=
    visible_update_self (live_deadline _)
  have hlife : 0 < (W : ℤ) * 2 := by omega
  have hx : Expirable (clock us) ((W : ℤ) * 2) := by
    have := hin.window_le
    unfold InTime at hin
    rw [expirable_clock hlife.le]
    omega
  unfold FIXED_WINDOW_LUA
  dsimp only
  rw [Int.cast_natCast, windowStart_eq hW hin, previousStart_eq hW hin, bucketKey_eq, bucketKey_eq,
    bind_ok (bucketCount_ok hcur), bind_ok (bucketCount_ok hprev)]
  refine (congrArg (fun x : Cmd Reply => x.run db) (if_neg (not_le.mpr h))).trans ?_
  rw [bind_ok (incr_ok (counter_of_shows hcur)), ← hdb₁, bind_ok (expire_ok hv hx hlife), hdb₁,
    Function.update_idem]
  have hentry : (⟨.str (.num (((cur : ℤ) + 1 : ℤ) : ℚ)), some (clock us + ((W : ℤ) * 2 : ℤ))⟩ : Entry) =
      ⟨.str (.num ((cur + 1 : ℕ) : ℚ)), some (clock us + 2 * W)⟩ := by
    push_cast
    rw [mul_comm]
  rw [hentry]
  rfl

theorem keeps_bucketCount {k' : String} : Keeps k' (bucketCount now key) := by
  refine .bind (.get_bind fun db => ?_) fun v => ?_
  · split
    · exact .pure _
    · exact .pure _
    · exact .throw _
  · split
    · exact .pure _
    · split
      · exact .pure _
      · exact .throw _

/-- Frame: the script writes counters of its prefix only. -/
theorem keeps {window : ℤ} {k' : String} (h : ∀ start, k' ≠ bucketKey k start) :
    Keeps k' (FIXED_WINDOW_LUA us k limit window) := by
  unfold FIXED_WINDOW_LUA
  dsimp only
  refine .bind keeps_bucketCount fun _ => .bind keeps_bucketCount fun _ => ?_
  split
  · exact .pure _
  · exact .bind (.incr (h _)) fun _ => .bind (.expire (h _) _) fun _ => .pure _

end Script

/-! ### Runs -/

/-- One call of the script. -/
structure Exec where
  keyPrefix : String
  limit : ℤ
  window : ℤ
  deriving DecidableEq

abbrev Ans := Except Redis.Error Reply

def allowed : Ans → Bool
  | .ok r => r.allowed ≠ 0
  | .error _ => false

def answer : EStateM.Result Redis.Error Db Reply → Db × Ans
  | .ok r db => (db, .ok r)
  | .error e db => (db, .error e)

/-- The server under any executions of the script. -/
def server : Mealy Db (Timed ℕ Exec) Ans where
  init := fun _ => none
  step db e := answer ((FIXED_WINDOW_LUA e.time e.ev.keyPrefix e.ev.limit e.ev.window).run db)

abbrev Rec := Mealy.Step Db (Timed ℕ Exec) Ans

/-- The times at which the prefix was let in. -/
def admitted (k : String) (h : List Rec) : List ℕ :=
  h.filterMap fun r => if r.ev.ev.keyPrefix = k ∧ allowed r.out = true then some r.ev.time else none

/-- How many of the admissions lie in the aligned window `j`. -/
def inWindow (W : ℕ) (j : ℤ) (adm : List ℕ) : ℕ := adm.countP fun a => decide (index W a = j)

/-- The counters of the prefix count its admissions, and outlive the window after their own. -/
structure Kept (W : ℕ) (k : String) (db : Db) (adm : List ℕ) : Prop where
  empty : ∀ j, Rendered W j → inWindow W j adm = 0 → db (keyOf k W j) = none
  counter : ∀ j, Rendered W j → 0 < inWindow W j adm →
    ∃ d, db (keyOf k W j) = some ⟨.str (.num (inWindow W j adm)), some d⟩ ∧ (j + 2) * W ≤ d

section Runs

variable {W us : ℕ} {k : String} {db : Db} {adm : List ℕ} {limit : ℤ} {es : List (Timed ℕ Exec)}

/-- What a counter of the last two windows shows. -/
theorem Kept.shows (h : Kept W k db adm) {j : ℤ} (hj : Rendered W j) (hlive : clock us ≤ (j + 2) * W) :
    Shows (clock us) db (keyOf k W j) (inWindow W j adm) := by
  rcases Nat.eq_zero_or_pos (inWindow W j adm) with h0 | hpos
  · exact .inl ⟨h0, visible_none (h.empty j hj h0)⟩
  · obtain ⟨d, hd, hle⟩ := h.counter j hj hpos
    exact .inr ⟨some d, visible_eq_some.mpr ⟨hd, live_some.mpr (hlive.trans hle)⟩⟩

theorem Kept.current (h : Kept W k db adm) (hW : 0 < W) (hin : InTime W us) :
    Shows (clock us) db (keyOf k W (index W us)) (inWindow W (index W us) adm) := by
  have hpos : (0 : ℚ) < W := by exact_mod_cast hW
  refine h.shows (rendered_index hW hin) ?_
  have := lt_index hW us
  nlinarith

theorem Kept.previous (h : Kept W k db adm) (hW : 0 < W) (hin : InTime W us) :
    Shows (clock us) db (keyOf k W (index W us - 1)) (inWindow W (index W us - 1) adm) := by
  refine h.shows (rendered_previous hW hin) ?_
  have := lt_index hW us
  push_cast
  linarith

/-- The admissions that the script weighs at `us`. -/
def blend (W us : ℕ) (adm : List ℕ) : ℚ :=
  weighted (inWindow W (index W us) adm) (inWindow W (index W us - 1) adm) (position W us)

theorem inWindow_concat (j : ℤ) (a : ℕ) :
    inWindow W j (adm ++ [a]) = inWindow W j adm + if index W a = j then 1 else 0 := by
  rw [inWindow, inWindow, List.countP_append, List.countP_singleton]
  simp

/-- An admission keeps the counters. -/
theorem Kept.admit (h : Kept W k db adm) (hW : 0 < W) (hin : InTime W us) :
    Kept W k (Function.update db (keyOf k W (index W us))
      (some ⟨.str (.num (inWindow W (index W us) adm + 1 : ℕ)), some (clock us + 2 * W)⟩)) (adm ++ [us]) := by
  have hcur := rendered_index (W := W) hW hin
  have hW' : W ≤ 10 ^ 14 := by
    have := hin.window_le
    omega
  constructor
  · intro j hj h0
    rw [inWindow_concat] at h0
    have hne : index W us ≠ j := by
      intro heq
      rw [if_pos heq] at h0
      omega
    rw [if_neg hne] at h0
    have hkey : keyOf k W j ≠ keyOf k W (index W us) := fun heq => hne (keyOf_inj hW hW' hj hcur heq).symm
    rw [Function.update_of_ne hkey]
    exact h.empty j hj h0
  · intro j hj hpos
    rw [inWindow_concat] at hpos ⊢
    by_cases heq : index W us = j
    · subst heq
      rw [if_pos rfl, Function.update_self]
      refine ⟨_, rfl, ?_⟩
      have := index_le hW us
      linarith
    · rw [if_neg heq, Nat.add_zero] at hpos ⊢
      have hkey : keyOf k W j ≠ keyOf k W (index W us) := fun hk => heq (keyOf_inj hW hW' hj hcur hk).symm
      rw [Function.update_of_ne hkey]
      exact h.counter j hj hpos

/-- **What one execution answers and leaves.** -/
theorem Kept.exec (h : Kept W k db adm) (hW : 0 < W) (hin : InTime W us) (limit : ℤ) :
    ∃ r db', (FIXED_WINDOW_LUA us k limit W).run db = .ok r db' ∧
      (r.allowed ≠ 0 ↔ blend W us adm < limit) ∧
      r.effectiveCountCeil = ⌈blend W us adm⌉ + (if r.allowed ≠ 0 then 1 else 0) ∧
      r.remainingWindowSecondsCeil = ⌈remaining W us⌉ ∧
      Kept W k db' (adm ++ if r.allowed ≠ 0 then [us] else []) := by
  by_cases hlt : blend W us adm < limit
  · refine ⟨_, _, admits limit hW hin (h.current hW hin) (h.previous hW hin) hlt, by simpa using hlt,
      by simp [blend], rfl, ?_⟩
    simpa using h.admit hW hin
  · refine ⟨_, _, denies limit hW hin (h.current hW hin) (h.previous hW hin) (not_lt.mp hlt), by simpa using hlt,
      by simp [blend], rfl, ?_⟩
    simpa using h

/-- Executions on other prefixes leave the counters alone. -/
theorem Kept.other (h : Kept W k db adm) {k' : String} (hk : k' ≠ k) (us : ℕ) (limit window : ℤ) :
    Kept W k (final ((FIXED_WINDOW_LUA us k' limit window).run db)) adm := by
  have hkeep : ∀ j, final ((FIXED_WINDOW_LUA us k' limit window).run db) (keyOf k W j) = db (keyOf k W j) := by
    intro j
    refine keeps (fun start heq => hk ?_) db
    exact (key_split heq).1.symm
  constructor
  · intro j hj h0
    rw [hkeep]
    exact h.empty j hj h0
  · intro j hj hpos
    rw [hkeep]
    exact h.counter j hj hpos

/-- Every execution on the prefix has this limit and this window, in seconds, and comes in time. -/
def Uniform (k : String) (limit : ℤ) (W : ℕ) (es : List (Timed ℕ Exec)) : Prop :=
  ∀ e ∈ es, e.ev.keyPrefix = k → e.ev.limit = limit ∧ e.ev.window = W ∧ InTime W e.time

theorem answer_final (r : EStateM.Result Redis.Error Db Reply) : (answer r).1 = final r := by
  cases r <;> rfl

theorem admitted_concat (h : List Rec) (r : Rec) : admitted k (h ++ [r]) =
    admitted k h ++ if r.ev.ev.keyPrefix = k ∧ allowed r.out = true then [r.ev.time] else [] := by
  unfold admitted
  rw [List.filterMap_append]
  split_ifs with hr
  · simp [hr]
  · simp [hr]

/-- **Run lemma.** -/
theorem kept_run (hW : 0 < W) (hu : Uniform k limit W es) :
    Kept W k (server.exec server.init es) (admitted k (server.log server.init es)) := by
  induction es using List.reverseRecOn with
  | nil => exact ⟨fun j _ _ => rfl, fun j _ hpos => absurd hpos (by simp [inWindow, admitted])⟩
  | append_singleton es e ih =>
    have hold := ih fun a ha => hu a (List.mem_append_left _ ha)
    rw [exec_concat, log_concat, admitted_concat]
    by_cases hk : e.ev.keyPrefix = k
    · obtain ⟨t, k', limit', window⟩ := e
      obtain ⟨hl, hw, ht⟩ := hu ⟨t, k', limit', window⟩ (by simp) hk
      obtain rfl : k' = k := hk
      obtain rfl : limit' = limit := hl
      obtain rfl : window = W := hw
      obtain ⟨r, db', hrun, -, -, -, hkept⟩ := hold.exec hW ht limit'
      have hstep : server.step (server.exec server.init es) ⟨t, k', limit', W⟩ = (db', .ok r) := by
        show answer _ = _
        rw [hrun]
        rfl
      have hnext : server.next (server.exec server.init es) ⟨t, k', limit', W⟩ = db' := congrArg Prod.fst hstep
      have hout : server.out (server.exec server.init es) ⟨t, k', limit', W⟩ = .ok r := congrArg Prod.snd hstep
      rw [hnext, Mealy.record_out, hout]
      simpa [allowed] using hkept
    · have hnext : server.next (server.exec server.init es) e =
          final ((FIXED_WINDOW_LUA e.time e.ev.keyPrefix e.ev.limit e.ev.window).run
            (server.exec server.init es)) := answer_final _
      rw [hnext, if_neg (fun h => hk h.1), List.append_nil]
      exact hold.other hk _ _ _

theorem inWindow_le_blend (hW : 0 < W) (hin : InTime W us) {adm : List ℕ}
    (h53 : inWindow W (index W us) adm ≤ 2 ^ 53) : (inWindow W (index W us) adm : ℚ) ≤ blend W us adm := by
  have hpart : 0 ≤ sub 1 (position W us) := Binary64.round_nonneg (by linarith [position_le hW hin])
  have hrest : 0 ≤ mul (inWindow W (index W us - 1) adm) (sub 1 (position W us)) :=
    Binary64.round_nonneg (mul_nonneg (Nat.cast_nonneg _) hpart)
  exact Binary64.round_natCast h53 ▸ Binary64.round_mono (by linarith)

/-- No aligned window lets in more than the limit. -/
theorem inWindow_le (hlimit : 0 ≤ limit) (h53 : limit ≤ 2 ^ 53) (hW : 0 < W) (hu : Uniform k limit W es) (j : ℤ) :
    (inWindow W j (admitted k (server.log server.init es)) : ℤ) ≤ limit := by
  induction es using List.reverseRecOn with
  | nil => simpa [inWindow, admitted] using hlimit
  | append_singleton es e ih =>
    have hu' : Uniform k limit W es := fun a ha => hu a (List.mem_append_left _ ha)
    have hold := ih hu'
    rw [log_concat, admitted_concat]
    by_cases hr : e.ev.keyPrefix = k ∧ allowed (server.out (server.exec server.init es) e) = true
    · rw [if_pos (by exact hr)]
      obtain ⟨t, k', limit', window⟩ := e
      obtain ⟨hl, hw, ht⟩ := hu ⟨t, k', limit', window⟩ (by simp) hr.1
      obtain rfl : k' = k := hr.1
      obtain rfl : limit' = limit := hl
      obtain rfl : window = W := hw
      obtain ⟨r, db', hrun, hallow, -⟩ := (kept_run hW hu').exec hW ht limit'
      have hout : server.out (server.exec server.init es) ⟨t, k', limit', W⟩ = .ok r := by
        show (answer _).2 = _
        rw [hrun]
        rfl
      have hpos : r.allowed ≠ 0 := by simpa [allowed, hout] using hr.2
      show (inWindow W j (_ ++ [t]) : ℤ) ≤ limit'
      rw [inWindow_concat]
      by_cases hj : index W t = j
      · subst hj
        rw [if_pos rfl]
        have hcount : inWindow W (index W t) (admitted k' (server.log server.init es)) ≤ 2 ^ 53 := by omega
        have hlt := (inWindow_le_blend hW ht hcount).trans_lt (hallow.mp hpos)
        have : (inWindow W (index W t) (admitted k' (server.log server.init es)) : ℤ) < limit' := by
          exact_mod_cast hlt
        push_cast
        omega
      · rw [if_neg hj]
        exact hold
    · rw [if_neg (by exact hr), List.append_nil]
      exact hold

/-- A span of one window length meets two aligned windows. -/
theorem span_le (hW : 0 < W) (t : ℕ) (adm : List ℕ) :
    adm.countP (fun a => decide (clock t - W < clock a ∧ a ≤ t)) ≤
      inWindow W (index W t) adm + inWindow W (index W t - 1) adm := by
  have hmeets : ∀ a, clock t - W < clock a → a ≤ t → index W a = index W t ∨ index W a = index W t - 1 := by
    intro a hlow hle
    have hup := index_mono W hle
    have hlt : ((index W t - 2 : ℤ) : ℚ) < (index W a : ℤ) := by
      have hpos : (0 : ℚ) < W := by exact_mod_cast hW
      have h1 := index_le hW t
      have h2 := lt_index hW a
      push_cast
      nlinarith
    have : index W t - 2 < index W a := by exact_mod_cast hlt
    omega
  induction adm with
  | nil => simp [inWindow]
  | cons a adm ih =>
    unfold inWindow at ih ⊢
    rw [List.countP_cons, List.countP_cons, List.countP_cons]
    by_cases ha : clock t - W < clock a ∧ a ≤ t
    · rcases hmeets a ha.1 ha.2 with h | h
      · simp only [ha, h, and_self, decide_true, if_true]
        omega
      · simp only [ha, h, and_self, decide_true, if_true]
        omega
    · simp only [ha, decide_false, Bool.false_eq_true, if_false]
      omega

/-- What the script answers when the prefix has the admissions `adm`. -/
structure Exact (limit : ℤ) (W us : ℕ) (adm : List ℕ) (r : Reply) : Prop where
  allowed_iff : r.allowed ≠ 0 ↔ blend W us adm < limit
  effective_eq : r.effectiveCountCeil = ⌈blend W us adm⌉ + if r.allowed ≠ 0 then 1 else 0
  remaining_eq : r.remainingWindowSecondsCeil = ⌈remaining W us⌉

/-- Two admissions in one second under a limit of one in a second: each is the only one of its aligned window, and
the end of the second window hardly weighs the first. -/
def straddling : List (Timed ℕ Exec) := [⟨999999, "g", 1, 1⟩, ⟨1999998, "g", 1, 1⟩]

end Runs

end ResilienceKit.FixedWindow

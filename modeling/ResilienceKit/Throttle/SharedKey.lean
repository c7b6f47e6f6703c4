import ResilienceKit.Throttle.LuaExact
import ResilienceKit.Throttle.MemoryRuns

/-!
# Throttle.SharedKey — several rates on one key

The key of a throttle does not hold the rate, so checks under different rates share one history, which
each check prunes (and in Redis expires) with its own window.  A rate is enforced in every run that
drops no admission its window still covers; a shorter window on the same key drops them.
-/

namespace ResilienceKit

open Mealy Throttle

namespace RedisAsyncThrottle

open Redis SlidingWindow

variable {W : ℕ} {K p key : String} {es : List (Timed ℕ Op)} {rate : Rate}

/-- A check that drops nothing from the windows of length `W`. -/
def Spares (W : ℕ) (K : String) (us : ℕ) (db : Db) (rate : Rate) : Prop :=
  0 < pyInt rate.perSeconds ∧ SeqBelow K us db ∧ DropsNone W K us db (seconds rate)

instance (W : ℕ) (K : String) (us : ℕ) (db : Db) (rate : Rate) : Decidable (Spares W K us db rate) :=
  inferInstanceAs (Decidable (_ ∧ _ ∧ _))

/-- The window of the last `perSeconds` seconds before `t`. -/
def secondsWin (perSeconds : ℚ) (t a : ℕ) : Bool := decide (clock t - perSeconds < clock a)

theorem win_seconds (h : (seconds rate : ℚ) = rate.perSeconds) :
    win (seconds rate) = secondsWin rate.perSeconds := by
  ext t a
  rw [secondsWin, ← h, Bool.eq_iff_iff, win_iff, decide_eq_true_iff]

theorem dropless_spares : Dropless W K (Spares W K) fun _ _ => True :=
  ⟨fun h => h.1, fun h => h.2.1, fun h _ _ => h.2.2, fun _ => trivial, fun _ _ => trivial,
    fun _ _ => trivial⟩

theorem limits (hc : Clocked es) (ha : Apart key es)
    (hu : Uses (Spares (seconds rate) (fullKey p key)) p key es) :
    Limits Ans.allowed key (fun r => decide (r = rate)) (win (seconds rate)) rate.count
      ((throttle p).log (throttle p).init es) := by
  intro l r q rate' hlog hop hsel hN
  obtain rfl : rate' = rate := by simpa using hsel
  obtain ⟨es₁, e, es₂, rfl, rfl, rfl⟩ := log_split hlog
  obtain ⟨hpos, hseq, hdrop⟩ := hu es₁ e es₂ rfl rate' hop
  obtain ⟨t, op⟩ := e
  obtain rfl : op = .check key rate' := hop
  obtain ⟨L, n, Y, ht, -⟩ := reached_run dropless_spares hc.of_append (Along.of_append hu)
    (fun a h => ha a (List.mem_append_left _ h)) fun a h => hc.le_of_split h
  have hsec : pyInt rate'.perSeconds = (seconds rate' : ℤ) := by
    unfold seconds
    omega
  have hout : (throttle p).out ((throttle p).exec (throttle p).init es₁) ⟨t, .check key rate'⟩ =
      (answer ((SLIDING_WINDOW_LUA t (fullKey p key) rate'.count (seconds rate')).run
        ((throttle p).exec (throttle p).init es₁))).2 := by
    rw [← hsec]
    rfl
  rw [record_out, hout]
  have hfull : ¬ ((admitted key ((throttle p).log (throttle p).init es₁)).countP (win (seconds rate') t) : ℤ) <
      rate'.count := not_lt.mpr hN
  rw [Bool.eq_false_iff]
  intro hallowed
  exact hfull (ht.room hdrop hseq (by omega) hallowed)

end RedisAsyncThrottle

/-- Two rates on one key, for any interleaving of their checks.  In memory a rate is enforced in every
run whose checks drop no entry its window still covers; in Redis the same for windows of whole seconds,
with expiry counted as dropping and the counter below `10 ^ 14`. -/
theorem shared_key_enforced (r₁ r₂ : Rate) (h₁ : 1 ≤ r₁.count) (h₂ : 1 ≤ r₂.count) (key : String)
    (es : List (Timed ℚ Op)) (hc : Clocked es)
    (hop : ∀ e ∈ es, e.ev = .check key r₁ ∨ e.ev = .check key r₂)
    (hu : ∀ r ∈ [r₁, r₂],
      InMemoryAsyncThrottle.Uses (InMemoryAsyncThrottle.DropsNone r.perSeconds) key es)
    (p : String) (fs : List (Timed ℕ Op)) (hcf : Clocked fs)
    (hopf : ∀ e ∈ fs, e.ev = .check key r₁ ∨ e.ev = .check key r₂)
    (hwf : ∀ r ∈ [r₁, r₂], (RedisAsyncThrottle.seconds r : ℚ) = r.perSeconds)
    (huf : ∀ r ∈ [r₁, r₂], RedisAsyncThrottle.Uses (RedisAsyncThrottle.Spares
      (RedisAsyncThrottle.seconds r) (RedisAsyncThrottle.fullKey p key)) p key fs) :
    ∀ r ∈ [r₁, r₂],
      Enforced InMemoryAsyncThrottle.Ans.allowed key (InMemoryAsyncThrottle.win r.perSeconds) r
        (InMemoryAsyncThrottle.throttle.log InMemoryAsyncThrottle.throttle.init es) ∧
      Enforced RedisAsyncThrottle.Ans.allowed key (RedisAsyncThrottle.secondsWin r.perSeconds) r
        ((RedisAsyncThrottle.throttle p).log (RedisAsyncThrottle.throttle p).init fs) := by
  intro r hr
  have hpos : 0 ≤ r.count := by
    rcases List.mem_pair.mp hr with rfl | rfl <;> omega
  have ha : RedisAsyncThrottle.Apart key fs := by
    intro e he
    have hkey : e.ev.key = key := by
      rcases hopf e he with h | h <;> rw [h] <;> rfl
    rw [hkey]
    exact ⟨(SlidingWindow.seqKey_ne key).symm, (SlidingWindow.seqKey_ne key).symm⟩
  constructor
  · exact (InMemoryAsyncThrottle.limits hc (hu r hr)).enforced
      (InMemoryAsyncThrottle.leaving_win _) hpos hc.log_pairwise
  · rw [← RedisAsyncThrottle.win_seconds (hwf r hr)]
    exact (RedisAsyncThrottle.limits hcf ha (huf r hr)).enforced
      (RedisAsyncThrottle.leaving_win _) hpos hcf.log_pairwise

/-- A minute check, and half a second later checks of both rates; the second rate is full then. -/
theorem shared_key_enforced_half_second :
    let minute : Rate := ⟨2, 60⟩
    let second : Rate := ⟨1, 1⟩
    let es : List (Timed ℚ Op) := [⟨0, .check "k" minute⟩, ⟨1 / 2, .check "k" second⟩, ⟨1 / 2, .check "k" minute⟩]
    let fs : List (Timed ℕ Op) := [⟨0, .check "k" minute⟩, ⟨500000, .check "k" second⟩, ⟨500000, .check "k" minute⟩]
    ∀ r ∈ [minute, second],
      Enforced InMemoryAsyncThrottle.Ans.allowed "k" (InMemoryAsyncThrottle.win r.perSeconds) r
          (InMemoryAsyncThrottle.throttle.log InMemoryAsyncThrottle.throttle.init es) ∧
        Enforced RedisAsyncThrottle.Ans.allowed "k" (RedisAsyncThrottle.secondsWin r.perSeconds) r
          ((RedisAsyncThrottle.throttle "throttle").log (RedisAsyncThrottle.throttle "throttle").init fs) := by
  intro minute second es fs
  refine shared_key_enforced minute second (by decide) (by decide) "k" es (by norm_num [Clocked, es])
    (by simp [es]) (fun r hr => ?_) "throttle" fs (by norm_num [Clocked, fs]) (by simp [fs]) (by decide +kernel)
    (fun r hr => ?_)
  · refine Along.concat (Along.concat (Along.concat Along.nil ?_) ?_) ?_
    all_goals
      intro rate hop
      obtain ⟨-, rfl⟩ := Op.check.inj hop
      unfold InMemoryAsyncThrottle.DropsNone
      rcases List.mem_pair.mp hr with rfl | rfl <;> decide +kernel
  · refine Along.concat (Along.concat (Along.concat Along.nil ?_) ?_) ?_
    all_goals
      intro rate hop
      obtain ⟨-, rfl⟩ := Op.check.inj hop
      rcases List.mem_pair.mp hr with rfl | rfl <;> decide +kernel

/-- Two minute checks, then a second check and a minute check two seconds later: the second check drops
the first two admissions, and the last check is allowed with three admissions in its minute. -/
theorem shared_key_forgets :
    let minute : Rate := ⟨2, 60⟩
    let second : Rate := ⟨1, 1⟩
    let es : List (Timed ℚ Op) := [⟨0, .check "k" minute⟩, ⟨0, .check "k" minute⟩,
      ⟨2, .check "k" second⟩, ⟨2, .check "k" minute⟩]
    let fs : List (Timed ℕ Op) := [⟨0, .check "k" minute⟩, ⟨0, .check "k" minute⟩,
      ⟨2000000, .check "k" second⟩, ⟨2000000, .check "k" minute⟩]
    Clocked es ∧ Clocked fs ∧
      ¬ Enforced InMemoryAsyncThrottle.Ans.allowed "k" (InMemoryAsyncThrottle.win 60) minute
        (InMemoryAsyncThrottle.throttle.log InMemoryAsyncThrottle.throttle.init es) ∧
      ¬ Enforced RedisAsyncThrottle.Ans.allowed "k" (RedisAsyncThrottle.secondsWin 60) minute
        ((RedisAsyncThrottle.throttle "throttle").log
          (RedisAsyncThrottle.throttle "throttle").init fs) := by
  refine ⟨by norm_num [Clocked], by norm_num [Clocked], fun h => ?_, fun h => ?_⟩
  · have hle := h.granted_le 2
    revert hle
    decide +kernel
  · have hle := h.granted_le 2000000
    revert hle
    decide +kernel

end ResilienceKit

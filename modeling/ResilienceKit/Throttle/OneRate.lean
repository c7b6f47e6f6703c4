import ResilienceKit.Throttle.SharedKey

/-!
# Throttle.OneRate — a key with one rate, over a run of bounded length

The `:__seq` counter of a key is never above the number of operations of the run (`stored_run`).  So in a run
of at most `10 ^ 14` operations the rendering tells all members apart, and with one rate on the key no window
of its length ever holds more than `count` admissions.
-/

namespace ResilienceKit

open Mealy (Timed)

namespace Throttle

variable {σ τ ω : Type*} {allowed : ω → Bool} {key : String}

/-- The operation is a check of `key`, and its answer lets the caller in. -/
def admits (allowed : ω → Bool) (key : String) : Op → ω → Bool
  | .check k _, w => decide (k = key) && allowed w
  | .reset _, _ => false

/-- Without a reset of the key its admissions are the checks that were let in. -/
theorem countP_admissions {h : List (Mealy.Step σ (Timed τ Op) ω)} (hno : ∀ r ∈ h, r.ev.ev ≠ .reset key)
    (w : τ → Bool) : (admissions allowed key h).countP w =
      h.countP fun r => admits allowed key r.ev.ev r.out && w r.ev.time := by
  induction h using List.reverseRecOn with
  | nil => rfl
  | append_singleton h r ih =>
    have hold := ih fun r' hr' => hno r' (List.mem_append_left _ hr')
    rw [List.countP_append, ← hold, List.countP_singleton]
    cases hop : r.ev.ev with
    | reset k =>
      have hne : k ≠ key := by
        rintro rfl
        exact hno r (by simp) hop
      rw [admissions_other (by rw [hop]; exact hne)]
      simp [admits]
    | check k rate =>
      by_cases hk : k = key
      · subst hk
        rw [admissions_check hop, List.countP_append]
        cases ha : allowed r.out <;> simp [admits, ha]
      · rw [admissions_other (by rw [hop]; exact hk)]
        simp [admits, hk]

end Throttle

namespace RedisAsyncThrottle

open Mealy Throttle Redis SlidingWindow

variable {p key K : String} {es : List (Timed ℕ Op)} {rate : Rate}

theorem Stored.counter_le {L : List (ℕ × ℕ)} {n us : ℕ} {Y : ℚ} {db : Db} {m : ℤ} (h : Stored K L n Y db)
    (hm : counter? (clock us) db (seqKey K) = some m) : m ≤ n := by
  obtain ⟨m', hm', hle, -⟩ := h.counter us
  obtain rfl := Option.some.inj (hm.symm.trans hm')
  exact_mod_cast hle

/-- The counter of a key is at most the number of operations. -/
theorem stored_run (hop : ∀ e ∈ es, ∀ r, e.ev = .check key r → 0 < pyInt r.perSeconds) (ha : Apart key es)
    (hlen : es.length ≤ 10 ^ 14) :
    ∃ L n Y, Stored (fullKey p key) L n Y ((throttle p).exec (throttle p).init es) ∧ n ≤ es.length := by
  induction es using List.reverseRecOn with
  | nil => exact ⟨[], 0, 0, ⟨rfl, .inr ⟨rfl, .inl rfl⟩, List.Pairwise.nil, by simp⟩, le_rfl⟩
  | append_singleton es e ih =>
    rw [List.length_append, List.length_singleton] at hlen ⊢
    obtain ⟨L, n, Y, hst, hn⟩ := ih (fun a h => hop a (List.mem_append_left _ h))
      (fun a h => ha a (List.mem_append_left _ h)) (by omega)
    rw [exec_concat]
    by_cases hk : e.ev.key = key
    · obtain ⟨t, op⟩ := e
      cases op with
      | reset k =>
        obtain rfl : k = key := hk
        refine ⟨[], n, Y, ⟨?_, ?_, List.Pairwise.nil, by simp⟩, by omega⟩
        · rw [next_reset]
          exact Function.update_self ..
        · rw [next_reset, Function.update_of_ne (seqKey_ne _)]
          rcases hst.seq with hs | ⟨-, hs⟩
          · exact .inr ⟨rfl, .inr ⟨_, hs⟩⟩
          · exact .inr ⟨rfl, hs⟩
      | check k rate =>
        obtain rfl : k = key := hk
        have hpos := hop ⟨t, .check k rate⟩ (by simp) rate rfl
        have hsec : pyInt rate.perSeconds = (seconds rate : ℤ) := by
          unfold seconds
          omega
        have hseq : SeqBelow (fullKey p k) t ((throttle p).exec (throttle p).init es) := by
          intro m hm
          have := hst.counter_le hm
          omega
        rw [next_check, eval, hsec]
        by_cases hc : ((rest (seconds rate) t Y L).length : ℤ) < rate.count
        · by_cases hx : Expirable (clock t) (seconds rate)
          · obtain ⟨m, hm, db', hrun, hst'⟩ := hst.admit hseq (by omega) hx hc
            have := hst.counter_le hm
            rw [hrun]
            exact ⟨_, m + 1, _, hst', by omega⟩
          · obtain ⟨db', n', hrun, hst', hle⟩ := hst.refuse hx hc
            rw [hrun]
            exact ⟨_, n', _, hst', by omega⟩
        · obtain ⟨ttl, db', hrun, hst'⟩ := hst.deny (not_lt.mp hc)
          rw [hrun]
          exact ⟨_, n, Y, hst', by omega⟩
    · obtain ⟨h1, h2⟩ := next_other (p := p) ((throttle p).exec (throttle p).init es) hk (ha e (by simp))
      exact ⟨L, n, Y, ⟨h1.trans hst.zset, by rw [h2]; exact hst.seq, hst.ordered, hst.le⟩, by omega⟩

theorem pyInt_eq_floor {q : ℚ} (hq : 0 ≤ q) : pyInt q = ⌊q⌋ := by
  rw [Rat.floor_def']
  exact Int.tdiv_eq_ediv_of_nonneg (Rat.num_nonneg.mpr hq)

/-- A rate of at least a second has a window in Redis. -/
theorem pyInt_pos {q : ℚ} (hq : 1 ≤ q) : 0 < pyInt q := by
  rw [pyInt_eq_floor (by linarith)]
  exact Int.floor_pos.mpr hq

theorem pyInt_le {q : ℚ} (hq : 0 ≤ q) : (pyInt q : ℚ) ≤ q := by
  rw [pyInt_eq_floor hq]
  exact Int.floor_le q

/-- With one rate on the key every check of a short run meets the condition of the exact throttle. -/
theorem uses_fixed (hpos : 0 < pyInt rate.perSeconds) (hu : ∀ e ∈ es, ∀ r, e.ev = .check key r → r = rate)
    (ha : Apart key es) (hlen : es.length ≤ 10 ^ 14) :
    Uses (Fixed (seconds rate) (fullKey p key)) p key es := by
  rintro q e q' rfl rate' hop
  rw [List.length_append, List.length_cons] at hlen
  obtain rfl : rate' = rate := hu e (by simp) rate' hop
  refine ⟨by unfold seconds; omega, fun m hm => ?_⟩
  have hop : ∀ a ∈ q, ∀ r, a.ev = .check key r → 0 < pyInt r.perSeconds := fun a h r hr => by
    rw [hu a (List.mem_append_left _ h) r hr]
    exact hpos
  obtain ⟨L, n, Y, hst, hn⟩ := stored_run (p := p) hop (fun a h => ha a (List.mem_append_left _ h)) (by omega)
  have := hst.counter_le hm
  omega

theorem uses_spares {W : ℕ} (hW : 0 < W) (hc : Clocked es) (ha : Apart key es)
    (hu : Uses (Fixed W (fullKey p key)) p key es) : Uses (Spares W (fullKey p key)) p key es := by
  rintro q e q' rfl rate hop
  obtain ⟨hW', hseq⟩ := hu q e q' rfl rate hop
  obtain ⟨L, n, Y, ht, hlast⟩ := reached_run (dropless_fixed hW) hc.of_append (Along.of_append hu)
    (fun a h => ha a (List.mem_append_left _ h)) fun a h => hc.le_of_split h
  have hsec : seconds rate = W := by
    unfold seconds
    omega
  refine ⟨by omega, hseq, ?_⟩
  rw [hsec]
  exact ht.stored.dropsNone_of_lasting hlast

/-- With one rate on the key, and the counter below `10 ^ 14`, no window of its length holds more than `count`
admissions. -/
theorem admitted_countP_le_of_fixed (hcount : 0 ≤ rate.count) (hpos : 0 < pyInt rate.perSeconds)
    (hc : Clocked es) (hu : ∀ e ∈ es, ∀ r, e.ev = .check key r → r = rate) (ha : Apart key es)
    (hf : Uses (Fixed (seconds rate) (fullKey p key)) p key es) (t : ℕ) :
    ((admitted key ((throttle p).log (throttle p).init es)).countP
      (fun a => win (seconds rate) t a && decide (a ≤ t)) : ℤ) ≤ rate.count := by
  have hW : 0 < seconds rate := by
    unfold seconds
    omega
  have hall : grants Ans.allowed key (fun r => decide (r = rate)) ((throttle p).log (throttle p).init es) =
      admitted key ((throttle p).log (throttle p).init es) :=
    grants_eq_admissions fun r hr rate' hop => by
      have hmem : r.ev ∈ ((throttle p).log (throttle p).init es).map Step.ev := List.mem_map_of_mem hr
      rw [log_map_ev] at hmem
      simpa using hu r.ev hmem rate' hop
  rw [← hall]
  exact ((limits hc ha (uses_spares hW hc ha hf)).paced hc.log_pairwise).countP_le (leaving_win _) hcount t

/-- In a short run the counter is below. -/
theorem admitted_countP_le (hcount : 0 ≤ rate.count) (hpos : 0 < pyInt rate.perSeconds) (hc : Clocked es)
    (hu : ∀ e ∈ es, ∀ r, e.ev = .check key r → r = rate) (ha : Apart key es) (hlen : es.length ≤ 10 ^ 14)
    (t : ℕ) :
    ((admitted key ((throttle p).log (throttle p).init es)).countP
      (fun a => win (seconds rate) t a && decide (a ≤ t)) : ℤ) ≤ rate.count :=
  admitted_countP_le_of_fixed hcount hpos hc hu ha (uses_fixed hpos hu ha hlen) t

end RedisAsyncThrottle

end ResilienceKit

import Mathlib.Data.Finset.Max
import Mathlib.Order.Bounds.Basic
import ResilienceKit.Middleware.Errors
import ResilienceKit.Throttle.Agreement

/-!
# Throttle.ExactWait — how long `reset_after` makes a denied caller wait

A denial says when the next check can be let in.  The deque says it from its oldest entry, which it
still counts at that very instant, and rounds on the way; the script says it from the deadline of the key,
which the newest member has set.  `Waits` is the promise for one later instant, and `reset_after_iff` says at
which instants, and for which sets of members, it is kept.
-/

namespace ResilienceKit

open Mealy Throttle
open Binary64 (add sub)

namespace Throttle

/-- The seconds that the `Retry-After` header names. -/
def retryAfter (r : ℚ) : ℤ := max 1 (Middleware.int r + if 0 < r - r.floor then 1 else 0)

theorem responseHeaders_retryAfter (f : Middleware.RateLimitFields) :
    f.responseHeaders.lookup "Retry-After" = some (toString (retryAfter f.retryAfter)) := rfl

theorem le_retryAfter {r : ℚ} (hr : 0 ≤ r) : r ≤ retryAfter r := by
  have hint : Middleware.int r = r.floor := if_neg (not_lt.mpr hr)
  have hfloor : (r.floor : ℚ) ≤ r := Int.floor_le r
  have hlt : r < (r.floor : ℚ) + 1 := Int.lt_floor_add_one r
  unfold retryAfter
  rw [hint, Int.cast_max]
  refine le_max_of_le_right ?_
  split_ifs with hfrac
  · push_cast
    exact hlt.le
  · push_cast
    linarith

theorem retryAfter_intCast {n : ℤ} (hn : 0 ≤ n) : retryAfter (n : ℚ) = max 1 n := by
  have hpos : (0 : ℚ) ≤ (n : ℚ) := by exact_mod_cast hn
  have hfl : (n : ℚ).floor = n := Rat.floor_intCast n
  have hint : Middleware.int (n : ℚ) = n := by
    rw [Middleware.int, if_neg (not_lt.mpr hpos), hfl]
  unfold retryAfter
  rw [hint, hfl, if_neg (by rw [sub_self]; exact lt_irrefl 0), add_zero]

section Promise

variable {σ τ ω : Type*}

/-- After the run `es`, and whatever `alone` lets happen since, `e` is decided `b`. -/
def Decides [LE τ] (M : Mealy σ (Timed τ Op) ω) (allowed : ω → Bool) (alone : Op → Prop)
    (es : List (Timed τ Op)) (e : Timed τ Op) (b : Bool) : Prop :=
  ∀ fs, (∀ f ∈ fs, alone f.ev) → Clocked (es ++ fs ++ [e]) →
    allowed (M.out (M.exec M.init (es ++ fs)) e) = b

/-- What does not depend on what has happened since is settled by the run in which nothing has. -/
theorem decides_iff_of_alone [Preorder τ] {M : Mealy σ (Timed τ Op) ω} {allowed : ω → Bool}
    {alone : Op → Prop} {es : List (Timed τ Op)} {a e : Timed τ Op} (hc : Clocked (es ++ [a]))
    (ht : a.time ≤ e.time) {P : Prop}
    (h : ∀ fs, (∀ f ∈ fs, alone f.ev) →
      (allowed (M.out (M.exec M.init (es ++ [a] ++ fs)) e) = true ↔ P)) (b : Bool) :
    Decides M allowed alone (es ++ [a]) e b ↔ (b = true ↔ P) := by
  constructor
  · intro hdec
    have hclk : Clocked (es ++ [a] ++ [] ++ [e]) := by
      rw [List.append_nil]
      exact hc.concat ht
    rw [← h [] (by simp), hdec [] (by simp) hclk]
  · intro hb fs hfs _
    rw [Bool.eq_iff_iff, h fs hfs]
    exact hb.symm

/-- A denial at `t` with `reset_after = r` is right about a check at `t'`, to within `slack` seconds. -/
structure Waits (time : τ → ℚ) (decides : τ → Bool → Prop) (slack t r : ℚ) (t' : τ) : Prop where
  opens : t + r + slack ≤ time t' → decides t' true
  shut : t < time t' → time t' < t + r - slack → decides t' false
  admits : t + retryAfter r ≤ time t' → decides t' true

theorem waits_iff_of_decides {time : τ → ℚ} {decides : τ → Bool → Prop} {slack t r : ℚ} {t' : τ}
    {P : Prop} (h : t ≤ time t' → ∀ b, decides t' b ↔ (b = true ↔ P)) (hr : 0 ≤ r) (hs : 0 ≤ slack) :
    Waits time decides slack t r t' ↔
      (t + r + slack ≤ time t' ∨ t + retryAfter r ≤ time t' → P) ∧
        (t < time t' → time t' < t + r - slack → ¬ P) := by
  have hle := le_retryAfter hr
  have htrue (ht : t ≤ time t') : decides t' true ↔ P := (h ht true).trans (by simp)
  have hfalse (ht : t ≤ time t') : decides t' false ↔ ¬ P := (h ht false).trans (by simp)
  constructor
  · intro hw
    refine ⟨?_, fun hgt hlt => (hfalse hgt.le).mp (hw.shut hgt hlt)⟩
    rintro (hge | hge)
    · exact (htrue (by linarith)).mp (hw.opens hge)
    · exact (htrue (by linarith)).mp (hw.admits hge)
  · rintro ⟨hopen, hshut⟩
    exact ⟨fun hge => (htrue (by linarith)).mpr (hopen (.inl hge)),
      fun hgt hlt => (hfalse hgt.le).mpr (hshut hgt hlt),
      fun hge => (htrue (by linarith)).mpr (hopen (.inr hge))⟩

end Promise

end Throttle

namespace InMemoryAsyncThrottle

/-! ### The deque -/

variable {key : String} {rate : Rate} {es : List (Timed ℚ Op)} {t t' : ℚ}

/-- The entries of the deque that the window at `t` holds. -/
def held (rate : Rate) (t : ℚ) (w : List ℚ) : Set ℚ := {a | a ∈ w ∧ sub t rate.perSeconds ≤ a}

/-- The instant at which the entry `first` leaves, as it looks from `t` in floats. -/
def told (rate : Rate) (t first : ℚ) : ℚ := t + max 0 (sub (add first rate.perSeconds) t)

/-- Operations on other keys leave the deque as it is. -/
theorem window_alone {fs : List (Timed ℚ Op)} (s : InMemoryAsyncThrottle)
    (hfs : ∀ f ∈ fs, f.ev.key ≠ key) : (throttle.exec s fs).window key = s.window key := by
  induction fs generalizing s with
  | nil => rfl
  | cons f fs ih =>
    rw [exec_cons, ih _ fun g hg => hfs g (List.mem_cons_of_mem _ hg)]
    exact next_other (hfs f List.mem_cons_self)

/-- With one rate the deque holds no more than `count` entries. -/
theorem window_length_fixed (hc : Clocked es)
    (hu : ∀ e ∈ es, ∀ r, e.ev = .check key r → r = rate) :
    (((throttle.exec throttle.init es).window key).length : ℤ) ≤ max 0 rate.count := by
  rcases es.eq_nil_or_concat' with rfl | ⟨es', e, rfl⟩
  · exact le_max_left _ _
  · refine window_length_le (le_max_left _ _) hc (Uses.of_rates fun a ha r hop _ _ => ?_) hc.le_last
    rw [hu a ha r hop]
    exact le_max_right _ _

/-- A check that finds exactly `count` entries is allowed once the oldest of them has left. -/
theorem full_allowed_iff {a : ℚ} {w : List ℚ} (hlen : ((a :: w).length : ℤ) = rate.count) :
    (checkWindow t' rate (a :: w)).2.allowed = true ↔ a < sub t' rate.perSeconds := by
  rw [checkWindow_allowed_iff_length, ← hlen, List.dropWhile_cons]
  have hle := (List.dropWhile_sublist (fun b => decide (b < sub t' rate.perSeconds)) (l := w)).length_le
  rw [List.length_cons]
  split_ifs with h
  · refine iff_of_true ?_ (of_decide_eq_true h)
    push_cast
    omega
  · have hge : ¬ a < sub t' rate.perSeconds := by simpa using h
    refine iff_of_false ?_ hge
    rw [List.length_cons]
    omega

/-- What a denied check finds: nothing under a count that lets nothing in, else `count` entries, all of
them in the window. -/
theorem denied_window (hc : Clocked (es ++ [⟨t, .check key rate⟩]))
    (hu : ∀ e ∈ es, ∀ r, e.ev = .check key r → r = rate) {w : List ℚ}
    (hw : (throttle.exec throttle.init es).window key = w)
    (hd : (checkWindow t rate w).2.allowed = false) :
    (checkWindow t rate w).1 = w ∧ (rate.count ≤ 0 ∧ w = [] ∨
      ∃ a v, w = a :: v ∧ ((a :: v).length : ℤ) = rate.count ∧ IsLeast (held rate t w) a) := by
  have hlen := window_length_fixed hc.of_append hu
  have hs := window_sorted hc.of_append key
  rw [hw] at hlen hs
  have hfull := mt checkWindow_allowed_iff_length.mpr (by rw [hd]; exact Bool.false_ne_true)
  have hsub := List.dropWhile_sublist (fun b => decide (b < sub t rate.perSeconds)) (l := w)
  have hle := hsub.length_le
  have hkeep : w.dropWhile (fun b => decide (b < sub t rate.perSeconds)) = w :=
    hsub.eq_of_length (by omega)
  refine ⟨by rw [checkWindow_deque, hd, hkeep]; simp, ?_⟩
  rw [hkeep] at hfull
  rcases w with _ | ⟨a, v⟩
  · exact .inl ⟨by simpa using hfull, rfl⟩
  · have hpos : (0 : ℤ) < ((a :: v).length : ℤ) := by simp
    refine .inr ⟨a, v, rfl, by omega, ⟨List.mem_cons_self, ?_⟩, fun b hb => ?_⟩
    · by_contra hlt
      have hout : a < sub t rate.perSeconds := not_le.mp hlt
      rw [List.dropWhile_cons, if_pos (decide_eq_true hout)] at hkeep
      have := congrArg List.length hkeep
      have := (List.dropWhile_sublist (fun b => decide (b < sub t rate.perSeconds)) (l := v)).length_le
      rw [List.length_cons] at *
      omega
    · rcases List.mem_cons.mp hb.1 with rfl | hmem
      · exact le_rfl
      · exact List.rel_of_pairwise_cons hs hmem

/-- The wait is up to the instant at which the oldest entry leaves. -/
theorem checkWindow_resetAfter (t : ℚ) (rate : Rate) (w : List ℚ) :
    t + (checkWindow t rate w).2.resetAfter = told rate t ((checkWindow t rate w).1.headD t) := by
  unfold checkWindow told
  dsimp only
  split_ifs <;> rfl

theorem exists_isLeast_lt_iff {S : Set ℚ} {a c : ℚ} (h : IsLeast S a) :
    (∃ first, IsLeast S first ∧ first < c) ↔ a < c := by
  constructor
  · rintro ⟨first, hfirst, hlt⟩
    rwa [hfirst.unique h] at hlt
  · intro hlt
    exact ⟨a, h, hlt⟩

/-- Where the first entry of a full deque has left, the next check is allowed, and only there. -/
theorem decides_iff (hc : Clocked (es ++ [⟨t, .check key rate⟩]))
    (hu : ∀ e ∈ es, ∀ r, e.ev = .check key r → r = rate)
    (hd : (throttle.out (throttle.exec throttle.init es) ⟨t, .check key rate⟩).allowed = false)
    (ht : t ≤ t') (b : Bool) :
    Decides throttle Ans.allowed (fun op => op.key ≠ key) (es ++ [⟨t, .check key rate⟩])
        ⟨t', .check key rate⟩ b ↔
      (b = true ↔ ∃ first, IsLeast (held rate t ((throttle.exec throttle.init es).window key)) first ∧
        first < sub t' rate.perSeconds) := by
  obtain ⟨w, hw⟩ : ∃ w, (throttle.exec throttle.init es).window key = w := ⟨_, rfl⟩
  rw [out_check, hw] at hd
  obtain ⟨hkept, hcases⟩ := denied_window hc hu hw hd
  have hafter : ∀ fs, (∀ f ∈ fs, f.ev.key ≠ key) →
      (throttle.exec throttle.init (es ++ [⟨t, .check key rate⟩] ++ fs)).window key = w := by
    intro fs hfs
    rw [exec_append, window_alone _ hfs, exec_concat, next_check_self, hw, hkept]
  have hallow : (checkWindow t' rate w).2.allowed = true ↔
      ∃ first, IsLeast (held rate t w) first ∧ first < sub t' rate.perSeconds := by
    rcases hcases with ⟨hcount, rfl⟩ | ⟨a, v, rfl, hlen, hleast⟩
    · rw [checkWindow_allowed_iff_length]
      refine iff_of_false (by simpa using hcount) ?_
      rintro ⟨first, hfirst, -⟩
      exact List.not_mem_nil hfirst.1.1
    · rw [full_allowed_iff hlen, exists_isLeast_lt_iff hleast]
  rw [hw]
  refine decides_iff_of_alone hc ht (fun fs hfs => ?_) b
  rw [out_check, hafter fs hfs]
  exact hallow

/-- **Where a denial of the deque is right**: at every instant but those between the one it tells for its
oldest entry to leave and the one at which the cutoff passes that entry. -/
theorem waits_iff (hc : Clocked (es ++ [⟨t, .check key rate⟩]))
    (hu : ∀ e ∈ es, ∀ r, e.ev = .check key r → r = rate) {d : ThrottleDecision}
    (hout : throttle.out (throttle.exec throttle.init es) ⟨t, .check key rate⟩ = .decided d)
    (hd : d.allowed = false) (t' : ℚ) :
    Waits id (fun t' => Decides throttle Ans.allowed (fun op => op.key ≠ key)
        (es ++ [⟨t, .check key rate⟩]) ⟨t', .check key rate⟩) 0 t d.resetAfter t' ↔
      (∃ first, IsLeast (held rate t ((throttle.exec throttle.init es).window key)) first ∧
          (told rate t first ≤ t' ↔ first < sub t' rate.perSeconds)) ∨
        rate.count ≤ 0 ∧ t' < told rate t t := by
  have hd' : (throttle.out (throttle.exec throttle.init es) ⟨t, .check key rate⟩).allowed = false := by
    rw [hout]
    exact hd
  have hdec := fun {t'} (ht : t ≤ t') => decides_iff hc hu hd' ht
  obtain ⟨w, hw⟩ : ∃ w, (throttle.exec throttle.init es).window key = w := ⟨_, rfl⟩
  rw [out_check, hw] at hout
  obtain rfl := Ans.decided.inj hout
  obtain ⟨hkept, hcases⟩ := denied_window hc hu hw hd
  have hreset := checkWindow_resetAfter t rate w
  rw [hkept] at hreset
  have hpos : 0 ≤ (checkWindow t rate w).2.resetAfter := by
    unfold told at hreset
    rw [add_left_cancel hreset]
    exact le_max_left _ _
  have hretry := le_retryAfter hpos
  rw [waits_iff_of_decides (fun ht b => hdec ht b) hpos le_rfl, hw]
  simp only [id_eq, add_zero, sub_zero]
  have htold : t + (checkWindow t rate w).2.resetAfter ≤ t' ∨
      t + (retryAfter (checkWindow t rate w).2.resetAfter : ℚ) ≤ t' ↔ told rate t (w.headD t) ≤ t' := by
    rw [← hreset]
    exact or_iff_left_of_imp fun hge => by linarith
  rw [htold, hreset]
  rcases hcases with ⟨hcount, rfl⟩ | ⟨a, v, rfl, hlen, hleast⟩
  · -- nothing is ever let in
    have hnone : ∀ first, ¬ IsLeast (held rate t []) first :=
      fun first h => List.not_mem_nil h.1.1
    rw [List.headD_nil]
    constructor
    · rintro ⟨hopen, -⟩
      refine .inr ⟨hcount, lt_of_not_ge fun hge => ?_⟩
      obtain ⟨first, hfirst, -⟩ := hopen hge
      exact hnone first hfirst
    · rintro (⟨first, hfirst, -⟩ | ⟨-, hlt⟩)
      · exact (hnone first hfirst).elim
      · exact ⟨fun hge => absurd hlt (not_lt.mpr hge), fun _ _ ⟨first, hfirst, _⟩ => hnone first hfirst⟩
  · rw [exists_isLeast_lt_iff hleast, List.headD_cons]
    constructor
    · rintro ⟨hopen, hshut⟩
      refine .inl ⟨a, hleast, hopen, fun hgone => le_of_not_gt fun hlt => ?_⟩
      rcases lt_or_ge t t' with hgt | hge
      · exact hshut hgt hlt hgone
      · -- before `t` the window held the entry as it does at `t`
        exact not_lt.mpr ((cutoff_mono hge).trans hleast.1.2) hgone
    · rintro (⟨first, hfirst, h⟩ | ⟨hcount, -⟩)
      · rw [hfirst.unique hleast] at h
        exact ⟨h.mp, fun _ hlt hgone => not_le.mpr hlt (h.mpr hgone)⟩
      · have : (0 : ℤ) < ((a :: v).length : ℤ) := by simp
        omega

/-- Without rounding the two instants are one, and the entry is still held there. -/
theorem told_le_iff_of_exact {first : ℚ} (hs : add first rate.perSeconds = first + rate.perSeconds)
    (ht : sub (first + rate.perSeconds) t = first + rate.perSeconds - t)
    (ht' : sub t' rate.perSeconds = t' - rate.perSeconds) (hle : t ≤ first + rate.perSeconds) :
    (told rate t first ≤ t' ↔ first < sub t' rate.perSeconds) ↔ t' ≠ first + rate.perSeconds := by
  have htold : told rate t first = first + rate.perSeconds := by
    rw [told, hs, ht, max_eq_right (by linarith)]
    ring
  rw [htold, ht', lt_sub_iff_add_lt]
  exact ⟨fun h he => by simp [he] at h, fun hne => ⟨fun hle => lt_of_le_of_ne hle hne.symm, le_of_lt⟩⟩

/-- With it they are apart by two roundings at most: on a clock of up to `2 ^ 31` seconds by less than a
microsecond. -/
theorem told_le_iff_of_far {M first : ℚ} (hM : 1 ≤ M) (hfirst : 0 ≤ first) (hper : 0 ≤ rate.perSeconds)
    (hsum : first + rate.perSeconds ≤ M) (ht : 0 ≤ t ∧ t ≤ M) (ht' : 0 ≤ t' ∧ t' ≤ M)
    (hheld : sub t rate.perSeconds ≤ first) (hfar : M / 2 ^ 51 < |t' - (first + rate.perSeconds)|) :
    told rate t first ≤ t' ↔ first < sub t' rate.perSeconds := by
  have hround : ∀ {q : ℚ}, |q| < 2 * M → |Binary64.round q - q| ≤ M / 2 ^ 52 := fun h =>
    (Binary64.abs_round_sub_le_abs (by linarith) h).trans_eq (by ring)
  have hsum' := abs_le.mp (hround (q := first + rate.perSeconds) (by rw [abs_lt]; constructor <;> linarith))
  have hcut := abs_le.mp (hround (q := t - rate.perSeconds) (by rw [abs_lt]; constructor <;> linarith))
  have hcut' := abs_le.mp (hround (q := t' - rate.perSeconds) (by rw [abs_lt]; constructor <;> linarith))
  have hwait := abs_le.mp (hround (q := add first rate.perSeconds - t)
    (by unfold add; rw [abs_lt]; constructor <;> linarith))
  have hlow : first + rate.perSeconds - M / 2 ^ 51 ≤ told rate t first := by
    have := le_max_right 0 (sub (add first rate.perSeconds) t)
    unfold told sub add at *
    linarith
  have hhigh : told rate t first ≤ first + rate.perSeconds + M / 2 ^ 51 := by
    unfold told
    rcases max_cases 0 (sub (add first rate.perSeconds) t) with ⟨hmax, -⟩ | ⟨hmax, -⟩
    · rw [hmax]
      unfold sub at hheld
      linarith
    · rw [hmax]
      unfold sub add at *
      linarith
  unfold sub
  rcases lt_abs.mp hfar with hlate | hearly
  · exact iff_of_true (by linarith) (by linarith)
  · exact iff_of_false (by linarith) (by linarith)

end InMemoryAsyncThrottle

namespace RedisAsyncThrottle

open Redis SlidingWindow

/-! ### The sorted set and its deadline -/

/-- The scores are times of the server, `last` the latest of them. -/
structure Scored (ms : List (String × ℚ)) (last : ℕ) : Prop where
  mem : ∃ m ∈ ms, m.2 = clock last
  le : ∀ m ∈ ms, ∃ a ≤ last, m.2 = clock a

/-- The set of the key holds at most `N` members and expires `W` seconds after the latest. -/
structure Aged (W N : ℤ) (K : String) (now : ℕ) (db : Db) : Prop where
  zset : db K = none ∨ ∃ ms last, db K = some ⟨.zset ms, some (clock last + W)⟩ ∧ Scored ms last ∧
    last ≤ now ∧ (ms.length : ℤ) ≤ N
  seq : Counted K db

section Aged

variable {W N : ℤ} {K : String} {now us : ℕ} {db : Db}

theorem Aged.initial : Aged W N K now (fun _ => none) := ⟨.inl rfl, .inl rfl⟩

theorem Aged.later (h : Aged W N K us db) (hle : us ≤ now) : Aged W N K now db := by
  refine ⟨?_, h.seq⟩
  rcases h.zset with hnone | ⟨ms, last, hk, hs, hlast, hlen⟩
  · exact .inl hnone
  · exact .inr ⟨ms, last, hk, hs, hlast.trans hle, hlen⟩

/-- The members that a check at `us` keeps: none, or those up to the latest, which sets the deadline. -/
structure Found (W N : ℤ) (K : String) (us : ℕ) (db : Db) (ms : List (String × ℚ)) : Prop where
  members : members? (clock us) db K = some ms
  nonneg : ∀ m ∈ ms, 0 ≤ m.2
  length_le : ((kept (clock us) W ms).length : ℤ) ≤ N
  aged : kept (clock us) W ms = [] ∨ ∃ last ≤ us, Scored (kept (clock us) W ms) last ∧
    deadline (clock us) db K = some (clock last + W)

theorem mem_kept {ms : List (String × ℚ)} (h : ∀ m ∈ ms, 0 ≤ m.2) {m : String × ℚ} :
    m ∈ kept (clock us) W ms ↔ m ∈ ms ∧ clock us - W < m.2 := by
  unfold kept
  rw [List.mem_filter, decide_eq_true_iff]
  refine and_congr_right fun hm => ?_
  rw [not_and, not_le]
  exact ⟨fun hlt => hlt (h m hm), fun hlt _ => hlt⟩

theorem Scored.nonneg {ms : List (String × ℚ)} {last : ℕ} (h : Scored ms last) :
    ∀ m ∈ ms, 0 ≤ m.2 := by
  intro m hm
  obtain ⟨a, -, ha⟩ := h.le m hm
  rw [ha]
  exact clock_nonneg a

theorem Scored.kept {ms : List (String × ℚ)} {last : ℕ} (h : Scored ms last)
    (hne : kept (clock us) W ms ≠ []) : Scored (kept (clock us) W ms) last := by
  obtain ⟨m, hm⟩ := List.exists_mem_of_ne_nil _ hne
  obtain ⟨hmem, hlt⟩ := (mem_kept h.nonneg).mp hm
  obtain ⟨a, hle, ha⟩ := h.le m hmem
  obtain ⟨l, hl, hlast⟩ := h.mem
  refine ⟨⟨l, (mem_kept h.nonneg).mpr ⟨hl, ?_⟩, hlast⟩,
    fun x hx => h.le x ((mem_kept h.nonneg).mp hx).1⟩
  have := clock_mono hle
  rw [hlast]
  linarith

theorem Aged.found (h : Aged W N K us db) (hN : 0 ≤ N) : ∃ ms, Found W N K us db ms := by
  have hempty (hv : visible (clock us) db K = none) : Found W N K us db [] :=
    ⟨by simp [members?, hv], by simp, hN, .inl rfl⟩
  rcases h.zset with hnone | ⟨ms, last, hk, hs, hlast, hlen⟩
  · exact ⟨[], hempty (visible_none hnone)⟩
  · by_cases hl : clock us ≤ clock last + W
    · have hv := visible_eq_some.mpr ⟨hk, live_some.mpr hl⟩
      refine ⟨ms, by simp [members?, hv], hs.nonneg, ?_, ?_⟩
      · have := List.length_filter_le (fun m => decide (¬ (0 ≤ m.2 ∧ m.2 ≤ clock us - W))) ms
        unfold kept
        omega
      · by_cases hne : kept (clock us) W ms = []
        · exact .inl hne
        · exact .inr ⟨last, hlast, hs.kept hne, by simp [deadline, hv]⟩
    · refine ⟨[], hempty (visible_eq_none.mpr fun e he => ?_)⟩
      rw [hk] at he
      obtain rfl := Option.some.inj he
      simpa [live] using hl

/-- What is left after pruning has the shape. -/
theorem Found.pruned {ms : List (String × ℚ)} {db' : Db} (h : Found W N K us db ms)
    (hk : db' K = zentry (kept (clock us) W ms) (deadline (clock us) db K)) (hseq : Counted K db') :
    Aged W N K us db' := by
  refine ⟨?_, hseq⟩
  rcases h.aged with hnil | ⟨last, hlast, hs, hd⟩
  · exact .inl (by rw [hk, hnil]; rfl)
  · have hne : kept (clock us) W ms ≠ [] := fun hnil => by
      obtain ⟨m, hmem, -⟩ := hs.mem
      rw [hnil] at hmem
      exact List.not_mem_nil hmem
    exact .inr ⟨_, last, by rw [hk, zentry, if_neg hne, hd], hs, hlast, h.length_le⟩

/-- **Step lemma**: a check of the fixed rate keeps the shape. -/
theorem Aged.check (h : Aged W N K us db) (hW : 0 < W) (hN : 0 ≤ N) :
    Aged W N K us (final ((SLIDING_WINDOW_LUA us K N W).run db)) := by
  obtain ⟨ms, hf⟩ := h.found hN
  by_cases hc : N ≤ ((kept (clock us) W ms).length : ℤ)
  · obtain ⟨ttl, hrun, -⟩ := denies N W hf.members hc
    rw [hrun]
    exact hf.pruned (Function.update_self ..) (h.seq.congr (Function.update_of_ne (seqKey_ne K) ..))
  · obtain ⟨n, hn⟩ := h.seq.counter us
    by_cases hx : Expirable (clock us) W
    · obtain ⟨db', hrun, hz, hseq⟩ := admits N W hf.members hn hx hW (not_le.mp hc)
      rw [hrun]
      refine ⟨.inr ⟨_, us, hz, ⟨insertMember_score _ _, fun m hmem => ?_⟩, le_rfl, ?_⟩,
        .inr ⟨_, _, hseq⟩⟩
      · rcases mem_insertMember hmem with hnew | hold
        · exact ⟨us, le_rfl, hnew⟩
        · rcases hf.aged with hnil | ⟨last, hlast, hs, -⟩
          · rw [hnil] at hold
            exact (List.not_mem_nil hold).elim
          · obtain ⟨a, ha, heq⟩ := hs.le m hold
            exact ⟨a, ha.trans hlast, heq⟩
      · have := length_insertMember_le (clock us) (member (clock us) (n + 1)) (kept (clock us) W ms)
        omega
    · -- the server has refused the deadline after it counted
      obtain ⟨db', hrun, hz, hseq⟩ := refuses N hf.members hn hx (not_le.mp hc)
      rw [hrun]
      exact hf.pruned hz (.inr ⟨_, _, hseq⟩)

end Aged

variable {p key : String} {rate : Rate} {es : List (Timed ℕ Op)} {us : ℕ}

/-- **Run lemma.**  With one rate on the key its set keeps the shape. -/
theorem aged_run (hW : 0 < pyInt rate.perSeconds) (hN : 0 ≤ rate.count) (hc : Clocked es)
    (ha : Apart key es) (hu : ∀ e ∈ es, ∀ r, e.ev = .check key r → r = rate)
    (hnow : ∀ e ∈ es, e.time ≤ us) :
    Aged (pyInt rate.perSeconds) rate.count (fullKey p key) us
      ((throttle p).exec (throttle p).init es) := by
  have huses : Uses (fun _ _ r => r = rate) p key es := by
    rintro l e q rfl r hop
    exact hu e (by simp) r hop
  refine key_induct (P := fun now db _ => Aged (pyInt rate.perSeconds) rate.count (fullKey p key) now db)
    (fun _ => .initial) ?_ ?_ ?_ hc huses ha hnow
  · intro now db db' adm h1 h2 h
    exact ⟨by rw [h1]; exact h.zset, h.seq.congr h2⟩
  · intro t now db adm _ h
    exact ⟨.inl (Function.update_self ..), h.seq.congr (Function.update_of_ne (seqKey_ne _) ..)⟩
  · rintro t now db adm r rfl hle h
    exact (h.check hW hN).later hle

/-- Operations on keys apart leave both entries of the key as they are. -/
theorem exec_alone {fs : List (Timed ℕ Op)} (db : Db) (hfs : ∀ f ∈ fs, f.ev.key ≠ key)
    (ha : Apart key fs) : (throttle p).exec db fs (fullKey p key) = db (fullKey p key) ∧
      (throttle p).exec db fs (seqKey (fullKey p key)) = db (seqKey (fullKey p key)) := by
  induction fs generalizing db with
  | nil => exact ⟨rfl, rfl⟩
  | cons f fs ih =>
    obtain ⟨h1, h2⟩ := next_other (p := p) db (hfs f List.mem_cons_self) (ha f List.mem_cons_self)
    obtain ⟨h3, h4⟩ := ih ((throttle p).next db f) (fun g hg => hfs g (List.mem_cons_of_mem _ hg))
      fun g hg => ha g (List.mem_cons_of_mem _ hg)
    rw [exec_cons]
    exact ⟨h3.trans h1, h4.trans h2⟩

/-- No caller key is the counter of another one, and nobody else asks for `key`. -/
def Alone (key : String) (op : Op) : Prop := op.key ≠ key ∧ op.key ≠ seqKey key ∧ key ≠ seqKey op.key

/-- The times of the admissions that the set still holds, in the window at `us`. -/
def held (W : ℤ) (us : ℕ) (K : String) (db : Db) : Set ℚ :=
  {s | ∃ ms, members? (clock us) db K = some ms ∧ ∃ m ∈ ms, m.2 = s ∧ clock us - W < s}

section Full

variable {W N : ℤ} {K : String} {db : Db} {t' : ℕ} {ms : List (String × ℚ)} {last : ℕ}

theorem Aged.allowed_iff (h : Aged W N K us db) (hW : 0 < W) (hx : Expirable (clock us) W)
    (hm : members? (clock us) db K = some ms) :
    (answer ((SLIDING_WINDOW_LUA us K N W).run db)).2.allowed = true ↔
      ((kept (clock us) W ms).length : ℤ) < N := by
  by_cases hc : ((kept (clock us) W ms).length : ℤ) < N
  · obtain ⟨n, hn⟩ := h.seq.counter us
    obtain ⟨db', hrun, -, -⟩ := admits N W hm hn hx hW hc
    rw [hrun]
    exact iff_of_true rfl hc
  · obtain ⟨ttl, hrun, -⟩ := denies N W hm (not_lt.mp hc)
    rw [hrun]
    exact iff_of_false Bool.false_ne_true hc

/-- A full set lets the next check in as soon as a member is `W` seconds old. -/
theorem Aged.full_allowed_iff (h : Aged W N K t' db) (hW : 0 < W) (hx : Expirable (clock t') W)
    (hk : db K = some ⟨.zset ms, some (clock last + W)⟩) (hs : Scored ms last)
    (hlen : (ms.length : ℤ) = N) :
    (answer ((SLIDING_WINDOW_LUA t' K N W).run db)).2.allowed = true ↔
      ∃ m ∈ ms, m.2 + W ≤ clock t' := by
  by_cases hl : clock t' ≤ clock last + W
  · have hm : members? (clock t') db K = some ms := by
      simp [members?, visible_eq_some.mpr ⟨hk, live_some.mpr hl⟩]
    rw [h.allowed_iff hW hx hm, ← hlen, Nat.cast_lt]
    have hsub : (kept (clock t') W ms).Sublist ms := List.filter_sublist
    constructor
    · intro hlt
      by_contra hnone
      push Not at hnone
      have hall : kept (clock t') W ms = ms := by
        refine List.filter_eq_self.mpr fun m hmem => ?_
        have := hnone m hmem
        have := ((mem_kept hs.nonneg).mpr ⟨hmem, (by linarith : clock t' - W < m.2)⟩)
        exact (List.mem_filter.mp this).2
      rw [hall] at hlt
      exact lt_irrefl _ hlt
    · rintro ⟨m, hmem, hle⟩
      refine lt_of_le_of_ne hsub.length_le fun heq => ?_
      rw [← hsub.eq_of_length heq] at hmem
      have := ((mem_kept hs.nonneg).mp hmem).2
      linarith
  · -- the whole set has expired
    have hnone : visible (clock t') db K = none := by
      refine visible_eq_none.mpr fun e he => ?_
      rw [hk] at he
      obtain rfl := Option.some.inj he
      simpa [live] using hl
    have hm : members? (clock t') db K = some [] := by simp [members?, hnone]
    rw [h.allowed_iff hW hx hm]
    obtain ⟨m, hmem, hlast⟩ := hs.mem
    have hpos : 0 < ms.length := List.length_pos_of_mem hmem
    refine iff_of_true ?_ ⟨m, hmem, by rw [hlast]; exact (not_le.mp hl).le⟩
    simp only [kept, List.filter_nil, List.length_nil]
    omega

theorem held_eq (hm : members? (clock us) db K = some ms) (hpos : ∀ m ∈ ms, 0 ≤ m.2) :
    held W us K db = {s | ∃ m ∈ kept (clock us) W ms, m.2 = s} := by
  ext s
  constructor
  · rintro ⟨ms', hms, m, hmem, rfl, hlt⟩
    obtain rfl := Option.some.inj (hm.symm.trans hms)
    exact ⟨m, (mem_kept hpos).mpr ⟨hmem, hlt⟩, rfl⟩
  · rintro ⟨m, hmem, rfl⟩
    obtain ⟨hold, hlt⟩ := (mem_kept hpos).mp hmem
    exact ⟨ms, hm, m, hold, rfl, hlt⟩

/-- The latest score and some least one bound what the set holds. -/
theorem Scored.bounds (h : Scored ms last) : IsGreatest {s | ∃ m ∈ ms, m.2 = s} (clock last) ∧
    ∃ first ≤ last, IsLeast {s | ∃ m ∈ ms, m.2 = s} (clock first) := by
  obtain ⟨m, hm, hlast⟩ := h.mem
  refine ⟨⟨⟨m, hm, hlast⟩, ?_⟩, ?_⟩
  · rintro s ⟨x, hx, rfl⟩
    obtain ⟨a, hle, ha⟩ := h.le x hx
    rw [ha]
    exact clock_mono hle
  · obtain ⟨x, hx, hmin⟩ := ms.toFinset.exists_min_image Prod.snd ⟨m, List.mem_toFinset.mpr hm⟩
    obtain ⟨a, hle, ha⟩ := h.le x (List.mem_toFinset.mp hx)
    refine ⟨a, hle, ⟨x, List.mem_toFinset.mp hx, ha⟩, ?_⟩
    rintro s ⟨y, hy, rfl⟩
    rw [← ha]
    exact hmin y (List.mem_toFinset.mpr hy)

end Full

/-! ### A denial of the script -/

/-- What a denied check leaves: `count` members, the latest of which sets the deadline and the wait. -/
structure Denied (W N : ℤ) (K : String) (us : ℕ) (db db' : Db) (ttl : ℤ) (last : ℕ)
    (ms : List (String × ℚ)) : Prop where
  aged : Aged W N K us db'
  entry : db' K = some ⟨.zset ms, some (clock last + W)⟩
  scored : Scored ms last
  last_le : last ≤ us
  length_eq : (ms.length : ℤ) = N
  ttl_eq : ttl = restSeconds (clock us) (clock last + W)
  held_eq : held W us K db = {s | ∃ m ∈ ms, m.2 = s}

theorem Aged.deny {W N : ℤ} {K : String} {db : Db} (h : Aged W N K us db) (hW : 0 < W) (hN : 0 < N)
    {reply : Reply} (hout : (answer ((SLIDING_WINDOW_LUA us K N W).run db)).2 = .replied reply)
    (hd : reply.allowed = 0) : ∃ last ms,
      Denied W N K us db (final ((SLIDING_WINDOW_LUA us K N W).run db)) reply.ttl last ms := by
  have haged := h.check hW hN.le
  obtain ⟨ms, hm, hpos, hlen, hcases⟩ := h.found hN.le
  have hc : N ≤ ((kept (clock us) W ms).length : ℤ) := by
    by_contra hlt
    have hroom := not_le.mp hlt
    by_cases hx : Expirable (clock us) W
    · have hallow := (h.allowed_iff hW hx hm).mpr hroom
      rw [hout] at hallow
      simp [Ans.allowed, hd] at hallow
    · obtain ⟨n, hn⟩ := h.seq.counter us
      obtain ⟨db', hrun, -, -⟩ := refuses N hm hn hx hroom
      rw [hrun] at hout
      cases hout
  obtain ⟨ttl, hrun, httl⟩ := denies N W hm hc
  have hne : kept (clock us) W ms ≠ [] := by
    intro hnil
    rw [hnil, List.length_nil] at hc
    omega
  obtain ⟨last, hlast, hs, hdl⟩ := hcases.resolve_left hne
  rw [hrun] at hout haged ⊢
  obtain rfl := Ans.replied.inj hout
  refine ⟨last, _, haged, ?_, hs, hlast, le_antisymm hlen hc, ?_, RedisAsyncThrottle.held_eq hm hpos⟩
  · rw [final, Function.update_self, zentry, if_neg hne, hdl]
  · have hyoung : clock us - W < clock last := by
      obtain ⟨m, hmem, heq⟩ := hs.mem
      rw [← heq]
      exact ((mem_kept hpos).mp hmem).2
    rw [httl _ hne hdl, if_neg (not_lt.mpr (restSeconds_nonneg (by linarith)))]

/-- The check at a later instant is allowed once the oldest member is `W` seconds old. -/
theorem Denied.decides_iff {K : String} {db db' : Db} {ttl : ℤ} {last : ℕ} {ms : List (String × ℚ)}
    (hK : K = fullKey p key) (hW : 0 < pyInt rate.perSeconds)
    (h : Denied (pyInt rate.perSeconds) rate.count K us db db' ttl last ms)
    (hc : Clocked (es ++ [⟨us, .check key rate⟩]))
    (hexec : (throttle p).exec (throttle p).init (es ++ [⟨us, .check key rate⟩]) = db')
    {t' : ℕ} (ht : us ≤ t') (hx : Expirable (clock t') (pyInt rate.perSeconds)) (b : Bool) :
    Decides (throttle p) Ans.allowed (Alone key) (es ++ [⟨us, .check key rate⟩])
        ⟨t', .check key rate⟩ b ↔
      (b = true ↔ ∃ m ∈ ms, m.2 + pyInt rate.perSeconds ≤ clock t') := by
  subst hK
  refine decides_iff_of_alone hc ht (fun fs hfs => ?_) b
  obtain ⟨hz, hseq⟩ := exec_alone (p := p) db' (fun f hf => (hfs f hf).1) fun f hf => (hfs f hf).2
  rw [exec_append, hexec]
  have haged : Aged (pyInt rate.perSeconds) rate.count (fullKey p key) t' ((throttle p).exec db' fs) :=
    ⟨by rw [hz]; exact (h.aged.later ht).zset, h.aged.seq.congr hseq⟩
  exact haged.full_allowed_iff hW hx (hz.trans h.entry) h.scored h.length_eq

/-- The rounded wait up to the latest member serves for the oldest one. -/
def Near (W : ℤ) (t first last : ℚ) : Prop :=
  (restSeconds t (last + W) : ℚ) - 1 ≤ first + W - t ∧
    first + W - t ≤ (max 1 (restSeconds t (last + W)) : ℤ)

section Waiting

variable {W N ttl : ℤ} {K : String} {db db' : Db} {ms : List (String × ℚ)} {last a : ℕ}

/-- A member has left as soon as the oldest one has. -/
theorem exists_left_iff {first : ℚ} (hfirst : IsLeast {s | ∃ m ∈ ms, m.2 = s} first) (t' : ℕ) :
    (∃ m ∈ ms, m.2 + W ≤ clock t') ↔ first + W ≤ clock t' := by
  constructor
  · rintro ⟨m, hm, hmt⟩
    have := hfirst.2 ⟨m, hm, rfl⟩
    linarith
  · intro ht
    obtain ⟨m, hm, heq⟩ := hfirst.1
    exact ⟨m, hm, by rw [heq]; exact ht⟩

theorem Denied.near_iff (h : Denied W N K us db db' ttl last ms)
    (hfirst : IsLeast {s | ∃ m ∈ ms, m.2 = s} (clock a)) :
    (∃ first last, IsLeast (held W us K db) first ∧ IsGreatest (held W us K db) last ∧
      Near W (clock us) first last) ↔
        (ttl : ℚ) - 1 ≤ clock a + W - clock us ∧ clock a + W - clock us ≤ (max 1 ttl : ℤ) := by
  have hlast := h.scored.bounds.1
  rw [h.held_eq, h.ttl_eq]
  constructor
  · rintro ⟨f, l, hf, hl, hn⟩
    rw [hf.unique hfirst, hl.unique hlast] at hn
    exact hn
  · intro hn
    exact ⟨_, _, hfirst, hlast, hn⟩

/-- The wait of `ttl` seconds is right at every instant if and only if it is right at two: where the oldest member
leaves, and where the caller has waited. -/
theorem waits_all_iff (hW : 0 < W) (hx : Expirable (clock us) (2 * |W| + 2)) (hpos : 0 ≤ ttl) (hhi : ttl ≤ W)
    (hle : a ≤ us) (hyoung : clock us < clock a + W) :
    (∀ t', Expirable (clock t') W →
      (clock us + ttl + 1 ≤ clock t' ∨ clock us + (max 1 ttl : ℤ) ≤ clock t' → clock a + W ≤ clock t') ∧
        (clock us < clock t' → clock t' < clock us + ttl - 1 → ¬ clock a + W ≤ clock t')) ↔
      (ttl : ℚ) - 1 ≤ clock a + W - clock us ∧ clock a + W - clock us ≤ (max 1 ttl : ℤ) := by
  have hcast : ∀ {n : ℤ}, 0 ≤ n → ((n.toNat : ℕ) : ℤ) = n := fun h => Int.toNat_of_nonneg h
  have habs := le_abs_self W
  have hage := clock_mono hle
  constructor
  · intro hall
    constructor
    · by_contra hlt
      have hle' : a + W.toNat * 1000000 ≤ us + W.toNat * 1000000 := by omega
      have hx' : Expirable (clock (a + W.toNat * 1000000)) W :=
        expirable_within hx hle' (by rw [hcast hW.le]; omega)
      have hw := hall _ hx'
      have hWn : ((W.toNat : ℕ) : ℚ) = W := by exact_mod_cast hcast hW.le
      rw [clock_add, hWn] at hw
      exact hw.2 hyoung (by linarith) le_rfl
    · have hmax : 0 ≤ max 1 ttl := by omega
      have hx' : Expirable (clock (us + (max 1 ttl).toNat * 1000000)) W :=
        expirable_within hx le_rfl (by rw [hcast hmax]; omega)
      have hw := hall _ hx'
      have hn : (((max 1 ttl).toNat : ℕ) : ℚ) = (max 1 ttl : ℤ) := by exact_mod_cast hcast hmax
      rw [clock_add, hn] at hw
      have := hw.1 (.inr le_rfl)
      linarith
  · rintro ⟨h1, h2⟩ t' _
    refine ⟨?_, fun _ hlt hge => ?_⟩
    · have hmax : ((max 1 ttl : ℤ) : ℚ) ≤ ttl + 1 := by
        have : max 1 ttl ≤ ttl + 1 := by omega
        exact_mod_cast this
      rintro (hge | hge)
      · linarith
      · linarith
    · linarith

theorem Denied.waits_iff (h : Denied W N K us db db' ttl last ms) (hW : 0 < W)
    (hx : Expirable (clock us) (2 * |W| + 2)) {decides : ℕ → Bool → Prop}
    (hdec : ∀ {t'}, us ≤ t' → Expirable (clock t') W → ∀ b,
      decides t' b ↔ (b = true ↔ ∃ m ∈ ms, m.2 + W ≤ clock t')) :
    (∀ t', Expirable (clock t') W → Waits clock decides 1 (clock us) ttl t') ↔
      ∃ first last, IsLeast (held W us K db) first ∧ IsGreatest (held W us K db) last ∧
        Near W (clock us) first last := by
  obtain ⟨-, a, hle, hfirst⟩ := h.scored.bounds
  -- the oldest member is still in the window at `us`
  have hyoung : clock us < clock a + W := by
    have hmem : clock a ∈ held W us K db := by
      rw [h.held_eq]
      exact hfirst.1
    obtain ⟨-, -, -, -, -, hlt⟩ := hmem
    linarith
  have hold := clock_mono hle
  have hnew := clock_mono h.last_le
  have hpos : 0 ≤ ttl := by
    rw [h.ttl_eq]
    exact restSeconds_nonneg (by linarith)
  have hhi : ttl ≤ W := by
    rw [h.ttl_eq]
    exact restSeconds_le (by linarith)
  rw [h.near_iff hfirst, ← waits_all_iff hW hx hpos hhi (hle.trans h.last_le) hyoung]
  refine forall_congr' fun t' => imp_congr_right fun hx' => ?_
  rw [← retryAfter_intCast hpos, ← exists_left_iff hfirst t']
  refine waits_iff_of_decides (fun ht b => hdec ?_ hx' b) (by exact_mod_cast hpos) zero_le_one
  by_contra hlt
  have hlt' : (t' : ℚ) < us := by exact_mod_cast not_le.mp hlt
  unfold clock at ht
  linarith

end Waiting

/-- **Where a denial of the script is right**: where the wait up to the latest member is, rounded, the
wait up to the oldest. -/
theorem waits_iff (hc : Clocked (es ++ [⟨us, .check key rate⟩])) (ha : Apart key es)
    (hu : ∀ e ∈ es, ∀ r, e.ev = .check key r → r = rate) {reply : Reply}
    (hout : (throttle p).out ((throttle p).exec (throttle p).init es) ⟨us, .check key rate⟩ =
      .replied reply) (now : ℚ) (hd : (decision now rate reply).allowed = false)
    (hx : Expirable (clock us) (2 * |pyInt rate.perSeconds| + 2)) :
    (∀ t', Expirable (clock t') (pyInt rate.perSeconds) →
        Waits clock (fun t' => Decides (throttle p) Ans.allowed (Alone key)
          (es ++ [⟨us, .check key rate⟩]) ⟨t', .check key rate⟩) 1 (clock us)
          (decision now rate reply).resetAfter t') ↔
      ∃ first last,
        IsLeast (held (pyInt rate.perSeconds) us (fullKey p key) ((throttle p).exec (throttle p).init es))
          first ∧
        IsGreatest (held (pyInt rate.perSeconds) us (fullKey p key)
          ((throttle p).exec (throttle p).init es)) last ∧
        Near (pyInt rate.perSeconds) (clock us) first last := by
  obtain ⟨db, hdb⟩ : ∃ db, (throttle p).exec (throttle p).init es = db := ⟨_, rfl⟩
  have hzero : reply.allowed = 0 := by simpa [decision] using hd
  have hnext : (throttle p).exec (throttle p).init (es ++ [⟨us, .check key rate⟩]) =
      final ((eval p us key rate).run db) := by rw [exec_concat, next_check, hdb]
  have hnow : ∀ e ∈ es, e.time ≤ us := fun e he => hc.le_of_split he
  rw [hdb] at hout ⊢
  have heval : (answer ((eval p us key rate).run db)).2 = .replied reply := hout
  by_cases hopen : 0 < pyInt rate.perSeconds ∧ 0 < rate.count
  · obtain ⟨hW, hN⟩ := hopen
    have haged := aged_run (p := p) hW hN.le hc.of_append ha hu hnow
    rw [hdb] at haged
    obtain ⟨last, ms, hden⟩ := haged.deny hW hN heval hzero
    exact hden.waits_iff hW hx fun ht hx' b => hden.decides_iff rfl hW hc hnext ht hx' b
  · obtain ⟨hk, hs⟩ := nothing_kept (p := p) hc.of_append ha fun e he r hop => by
      rw [hu e he r hop]
      omega
    rw [hdb] at hk hs
    by_cases hN : 0 < rate.count
    · -- a check of a window of no seconds is allowed, or refused by the server
      have hW : pyInt rate.perSeconds ≤ 0 := by omega
      by_cases hx' : Expirable (clock us) (pyInt rate.perSeconds)
      · obtain ⟨db', hrun, -⟩ := forgets hk hs hN hW hx'
        have hone : (eval p us key rate).run db = .ok ⟨1, 1, pyInt rate.perSeconds⟩ db' := hrun
        rw [hone] at heval
        obtain rfl := Ans.replied.inj heval
        cases hzero
      · obtain ⟨n, hn⟩ := hs.counter us
        have hm : members? (clock us) db (fullKey p key) = some [] := by simp [members?, visible_none hk]
        obtain ⟨db', hrun, -, -⟩ := refuses rate.count hm hn hx' (by simpa [kept] using hN)
        have hno : (eval p us key rate).run db = .error .invalidExpire db' := hrun
        rw [hno] at heval
        cases heval
    · have hshut (t' : ℕ) : (eval p t' key rate).run db = .ok ⟨0, 0, pyInt rate.perSeconds⟩ db :=
        lets_none t' _ hk (by omega)
      rw [hshut us] at heval
      obtain rfl := Ans.replied.inj heval
      constructor
      · intro hall
        obtain ⟨n, hn⟩ : ∃ n : ℕ, (n : ℤ) = |pyInt rate.perSeconds| + 1 :=
          ⟨_, Int.toNat_of_nonneg (by positivity)⟩
        have hge : clock us + (decision now rate ⟨0, 0, pyInt rate.perSeconds⟩).resetAfter + 1 ≤
            clock (us + n * 1000000) := by
          have hle : (pyInt rate.perSeconds : ℚ) + 1 ≤ n := by
            have := le_abs_self (pyInt rate.perSeconds)
            exact_mod_cast (by omega : pyInt rate.perSeconds + 1 ≤ (n : ℤ))
          rw [clock_add]
          show clock us + (pyInt rate.perSeconds : ℚ) + 1 ≤ _
          linarith
        have hdec := (hall _ (expirable_within hx le_rfl hn.le)).opens hge [] (by simp) (by
          rw [List.append_nil]
          refine List.pairwise_append.mpr ⟨hc, List.pairwise_singleton _ _, fun e he f hf => ?_⟩
          rw [List.mem_singleton.mp hf]
          exact (hc.le_last e he).trans (Nat.le_add_right _ _))
        rw [List.append_nil, hnext, hshut us] at hdec
        have hno : (answer ((eval p (us + n * 1000000) key rate).run db)).2.allowed = true := hdec
        rw [hshut] at hno
        cases hno
      · rintro ⟨first, -, ⟨⟨ms, hms, m, hmem, -⟩, -⟩, -⟩
        rw [members?, visible_none hk] at hms
        obtain rfl := Option.some.inj hms
        exact (List.not_mem_nil hmem).elim

end RedisAsyncThrottle

/-! ### Both throttles -/

end ResilienceKit

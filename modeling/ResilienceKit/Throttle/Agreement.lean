import ResilienceKit.Throttle.OneRate
import ResilienceKit.Throttle.RedisClient

/-!
# Throttle.Agreement — the two backends side by side

Both backends count the admissions of a window, the script those younger than the whole seconds of the
rate, the deque those that are not older, in floats, than the rate says.  They decide alike as long as no check
finds an admission that only one of the two windows holds (`InGap`): `backends_agree_iff`.
-/

namespace ResilienceKit

open Mealy Throttle

namespace RedisAsyncThrottle

open Redis SlidingWindow

/-! ### Windows of less than a second -/

variable {db : Db} {p key : String} {limit window : ℤ}

/-- The counter of the key is a number, or missing. -/
def Counted (key : String) (db : Db) : Prop :=
  db (seqKey key) = none ∨ ∃ (n : ℤ) (x : Option ℚ), db (seqKey key) = some ⟨.str (.num n), x⟩

theorem Counted.congr {db' : Db} (h : Counted key db) (hs : db' (seqKey key) = db (seqKey key)) :
    Counted key db' := by
  rw [Counted, hs]
  exact h

theorem Counted.counter (h : Counted key db) (us : ℕ) : ∃ n, counter? (clock us) db (seqKey key) = some n := by
  rcases h with hnone | ⟨n, x, hs⟩
  · exact ⟨0, by simp [counter?, visible_none hnone]⟩
  · cases hv : visible (clock us) db (seqKey key) with
    | none => exact ⟨0, by simp [counter?, hv]⟩
    | some e =>
      have he := (visible_eq_some.mp hv).1
      rw [hs] at he
      obtain rfl := Option.some.inj he
      exact ⟨n, by simp [counter?, hv]⟩

/-- With a window of no seconds every deadline is past at once, and nothing is kept. -/
theorem forgets {us : ℕ} (hk : db key = none) (hs : Counted key db) (hl : 1 ≤ limit) (hw : window ≤ 0)
    (hx : Expirable (clock us) window) :
    ∃ db', (SLIDING_WINDOW_LUA us key limit window).run db = .ok ⟨1, 1, window⟩ db' ∧
      db' key = none ∧ db' (seqKey key) = none := by
  have hm : members? (clock us) db key = some [] := by simp [members?, visible_none hk]
  obtain ⟨n, hrem⟩ := prunes window hm
  obtain ⟨c, hc⟩ := hs.counter us
  set db₁ : Db := Function.update db key (zentry (kept (clock us) window []) (deadline (clock us) db key))
    with hdb₁
  have hk₁ : db₁ key = none := Function.update_self ..
  have hm₁ : members? (clock us) db₁ key = some [] := by simp [members?, visible_none hk₁]
  have hn₁ : counter? (clock us) db₁ (seqKey key) = some c := by
    rw [counter?_congr (Function.update_of_ne (seqKey_ne key) _ _), hc]
  set db₂ : Db := Function.update db₁ (seqKey key)
    (some ⟨.str (.num ((c + 1 : ℤ) : ℚ)), deadline (clock us) db₁ (seqKey key)⟩) with hdb₂
  have hv₂ : visible (clock us) db₂ (seqKey key) =
      some ⟨.str (.num ((c + 1 : ℤ) : ℚ)), deadline (clock us) db₁ (seqKey key)⟩ :=
    visible_update_self (live_deadline _)
  set db₃ : Db := Function.update db₂ (seqKey key) none with hdb₃
  have hm₃ : members? (clock us) db₃ key = some [] := by
    rw [members?_congr (Function.update_of_ne (seqKey_ne key).symm _ _),
      members?_congr (Function.update_of_ne (seqKey_ne key).symm _ _)]
    exact hm₁
  obtain ⟨j, hadd⟩ := zadd_ok (clock us) (member (clock us) (c + 1)) hm₃
  set ms' := insertMember (clock us) (member (clock us) (c + 1)) [] with hms'
  set db₄ : Db := Function.update db₃ key (zentry ms' (deadline (clock us) db₃ key)) with hdb₄
  have hv₄ : visible (clock us) db₄ key = some ⟨.zset ms', deadline (clock us) db₃ key⟩ := by
    rw [hdb₄, zentry, if_neg insertMember_ne_nil]
    exact visible_update_self (live_deadline _)
  refine ⟨Function.update db₄ key none, ?_, Function.update_self .., ?_⟩
  · have hroom : ¬ limit ≤ ((([] : List (String × ℚ)).length : ℕ) : ℤ) := by
      simp only [List.length_nil]
      omega
    unfold SLIDING_WINDOW_LUA
    dsimp only
    rw [SLIDING_WINDOW_LUA_now, bind_ok hrem, bind_ok (zcard_ok hm₁), if_neg hroom,
      bind_ok (incr_ok hn₁), bind_ok (expire_past hv₂ hx hw), bind_ok hadd,
      bind_ok (expire_past hv₄ hx hw)]
    rfl
  · rw [Function.update_of_ne (seqKey_ne key), hdb₄, Function.update_of_ne (seqKey_ne key), hdb₃,
      Function.update_self]

/-- A count that lets nothing in leaves no entry. -/
theorem lets_none (us : ℕ) (window : ℤ) (hk : db key = none) (hl : limit ≤ 0) :
    (SLIDING_WINDOW_LUA us key limit window).run db = .ok ⟨0, 0, window⟩ db := by
  have hm : members? (clock us) db key = some [] := by simp [members?, visible_none hk]
  obtain ⟨n, hrem⟩ := prunes window hm
  have hsame : Function.update db key (zentry (kept (clock us) window []) (deadline (clock us) db key)) =
      db := by
    rw [Function.update_eq_self_iff, hk]
    rfl
  rw [hsame] at hrem
  unfold SLIDING_WINDOW_LUA
  dsimp only
  rw [SLIDING_WINDOW_LUA_now, bind_ok hrem, bind_ok (zcard_ok hm), if_pos (by simpa using hl),
    bind_ok (ttl_missing (visible_none hk))]
  rfl

/-- A run whose checks of the key have a window of no seconds, or let nothing in, leaves no set under it. -/
theorem nothing_kept {es : List (Timed ℕ Op)} (hc : Clocked es) (ha : Apart key es)
    (hu : ∀ e ∈ es, ∀ rate, e.ev = .check key rate → pyInt rate.perSeconds ≤ 0 ∨ rate.count ≤ 0) :
    (throttle p).exec (throttle p).init es (fullKey p key) = none ∧
      Counted (fullKey p key) ((throttle p).exec (throttle p).init es) := by
  have huses : Uses (fun _ _ rate => pyInt rate.perSeconds ≤ 0 ∨ rate.count ≤ 0) p key es := by
    rintro l e q rfl rate hop
    exact hu e (by simp) rate hop
  have hnow : ∀ e ∈ es, e.time ≤ (es.map fun e => e.time).sum :=
    fun e he => List.single_le_sum (by simp) _ (List.mem_map_of_mem he)
  refine key_induct (P := fun _ db _ => db (fullKey p key) = none ∧ Counted (fullKey p key) db)
    (fun _ => ⟨rfl, .inl rfl⟩) ?_ ?_ ?_ hc huses ha hnow
  · rintro now db db' adm h1 h2 ⟨hk, hs⟩
    exact ⟨h1.trans hk, hs.congr h2⟩
  · rintro t now db adm - ⟨-, hs⟩
    exact ⟨Function.update_self .., hs.congr (Function.update_of_ne (seqKey_ne _) ..)⟩
  · rintro t now db adm rate hg - ⟨hk, hs⟩
    by_cases hl : rate.count ≤ 0
    · have heval : (eval p t key rate).run db = .ok ⟨0, 0, pyInt rate.perSeconds⟩ db :=
        lets_none t (pyInt rate.perSeconds) hk hl
      rw [heval]
      exact ⟨hk, hs⟩
    · have hpos : 1 ≤ rate.count := by omega
      by_cases hx : Expirable (clock t) (pyInt rate.perSeconds)
      · obtain ⟨db', hrun, hk', hs'⟩ := forgets hk hs hpos (hg.resolve_right hl) hx
        have heval : (eval p t key rate).run db = .ok ⟨1, 1, pyInt rate.perSeconds⟩ db' := hrun
        rw [heval]
        exact ⟨hk', .inl hs'⟩
      · obtain ⟨n, hn⟩ := hs.counter t
        have hm : members? (clock t) db (fullKey p key) = some [] := by simp [members?, visible_none hk]
        obtain ⟨db', hrun, hk', hs'⟩ := refuses rate.count hm hn hx (by simpa [kept] using Int.lt_of_add_one_le hpos)
        have heval : (eval p t key rate).run db = .error .invalidExpire db' := hrun
        rw [heval]
        exact ⟨hk', .inr ⟨_, _, hs'⟩⟩

/-! ### What a check decides -/

section Key

variable {us : ℕ} {rate : Rate} {es : List (Timed ℕ Op)}

theorem seconds_eq (hr : 0 < rate.perSeconds) : pyInt rate.perSeconds = (seconds rate : ℤ) := by
  have hpos : 0 ≤ pyInt rate.perSeconds :=
    Int.tdiv_nonneg (Rat.num_nonneg.mpr hr.le) (Int.natCast_nonneg _)
  unfold seconds
  omega

/-- The script counts the admissions that are younger than the whole seconds of the rate. -/
theorem exact_check (hr : 1 ≤ rate.count ∧ 0 < rate.perSeconds) (hc : Clocked es)
    (hu : ∀ e ∈ es, ∀ rate', e.ev = .check key rate' → rate' = rate) (ha : Apart key es)
    (hseq : Uses (fun us db _ => SeqBelow (fullKey p key) us db) p key es)
    (hnow : ∀ e ∈ es, e.time ≤ us)
    (hlast : SeqBelow (fullKey p key) us ((throttle p).exec (throttle p).init es))
    (hx : Expirable (clock us) (pyInt rate.perSeconds)) :
    Exact rate.count (seconds rate) us (admitted key ((throttle p).log (throttle p).init es))
      ((throttle p).out ((throttle p).exec (throttle p).init es) ⟨us, .check key rate⟩) := by
  have hsec := seconds_eq hr.2
  rcases Nat.eq_zero_or_pos (seconds rate) with h0 | hpos
  · rw [h0] at hsec
    obtain ⟨hk, hs⟩ := nothing_kept (p := p) hc ha fun e he rate' hop => by
      obtain rfl := hu e he rate' hop
      exact .inl hsec.le
    rw [hsec] at hx
    obtain ⟨db', hrun, -, -⟩ := forgets hk hs hr.1 le_rfl hx
    have hout : (throttle p).out ((throttle p).exec (throttle p).init es) ⟨us, .check key rate⟩ =
        .replied ⟨1, 1, 0⟩ := by
      show (answer ((eval p us key rate).run _)).2 = _
      unfold eval
      rw [hsec, Nat.cast_zero, hrun]
      rfl
    have hnone : (admitted key ((throttle p).log (throttle p).init es)).countP (win 0 us) = 0 := by
      rw [List.countP_eq_zero]
      intro a ha' hw
      have hle := admitted_le hnow a ha'
      have hlt : us < a + 0 * 1000000 := by simpa [win] using hw
      omega
    rw [h0, hout]
    refine ⟨_, rfl, ?_, ?_⟩
    · rw [hnone]
      simp only [ne_eq, one_ne_zero, not_false_eq_true, true_iff]
      have := hr.1
      omega
    · rw [hnone]
      simp
  · have huses : Uses (Fixed (seconds rate) (fullKey p key)) p key es := by
      rintro l e q rfl rate' hop
      refine ⟨?_, hseq l e q rfl rate' hop⟩
      rw [hu e (by simp) rate' hop]
      exact hsec
    obtain ⟨L, n, Y, ht, hlasting⟩ := reached_run (dropless_fixed hpos) hc huses ha hnow
    have hexact := ht.exact (ht.stored.dropsNone_of_lasting hlasting) hlast hpos (hsec ▸ hx) rate.count
    rw [← hsec] at hexact
    exact hexact

/-- No window of the script holds more than `count` admissions. -/
theorem exact_countP_le (hr : 1 ≤ rate.count ∧ 0 < rate.perSeconds) (hc : Clocked es)
    (hu : ∀ e ∈ es, ∀ rate', e.ev = .check key rate' → rate' = rate) (ha : Apart key es)
    (hseq : Uses (fun us db _ => SeqBelow (fullKey p key) us db) p key es) (hnow : ∀ e ∈ es, e.time ≤ us) :
    ((admitted key ((throttle p).log (throttle p).init es)).countP (win (seconds rate) us) : ℤ) ≤ rate.count := by
  have hsec := seconds_eq hr.2
  rcases Nat.eq_zero_or_pos (seconds rate) with h0 | hpos
  · have hnone : (admitted key ((throttle p).log (throttle p).init es)).countP (win (seconds rate) us) = 0 := by
      rw [h0, List.countP_eq_zero]
      intro a ha' hw
      have hle := admitted_le hnow a ha'
      have hlt : us < a + 0 * 1000000 := by simpa [win] using hw
      omega
    rw [hnone]
    omega
  · have huses : Uses (Fixed (seconds rate) (fullKey p key)) p key es := by
      rintro l e q rfl rate' hop
      refine ⟨?_, hseq l e q rfl rate' hop⟩
      rw [hu e (by simp) rate' hop]
      exact hsec
    have hle := admitted_countP_le_of_fixed (by omega) (by omega) hc hu ha huses us
    have hall : (admitted key ((throttle p).log (throttle p).init es)).countP
        (fun a => win (seconds rate) us a && decide (a ≤ us)) =
          (admitted key ((throttle p).log (throttle p).init es)).countP (win (seconds rate) us) :=
      List.countP_congr fun a ha' => by simp [admitted_le hnow a ha']
    rwa [hall] at hle

end Key

end RedisAsyncThrottle

/-! ### The two backends under one run -/

namespace Throttle

open Redis RedisAsyncThrottle

/-- The float that the injected clock shows at a time of the server. -/
def floatClock (us : ℕ) : ℚ := Binary64.round (clock us)

theorem floatClock_mono {a b : ℕ} (h : a ≤ b) : floatClock a ≤ floatClock b := Binary64.round_mono (clock_mono h)

/-- The operations at the times that the injected clock shows. -/
def onClock (es : List (Timed ℕ Op)) : List (Timed ℚ Op) := es.map fun e => ⟨floatClock e.time, e.ev⟩

/-- The callers of the two backends learn the same. -/
def SameDecision (now : ℚ) (op : Op) (a : RedisAsyncThrottle.Ans) (b : InMemoryAsyncThrottle.Ans) : Prop :=
  ∀ key rate, op = .check key rate → ∃ r d, a = .replied r ∧ b = .decided d ∧
    (decision now rate r).allowed = d.allowed ∧ (decision now rate r).remaining = d.remaining

/-- They do so at every step. -/
def Agreement (p : String) (es : List (Timed ℕ Op)) : Prop :=
  ∀ l e q, es = l ++ e :: q → SameDecision (floatClock e.time) e.ev
    ((RedisAsyncThrottle.throttle p).out
      ((RedisAsyncThrottle.throttle p).exec (RedisAsyncThrottle.throttle p).init l) e)
    (InMemoryAsyncThrottle.throttle.out
      (InMemoryAsyncThrottle.throttle.exec InMemoryAsyncThrottle.throttle.init (onClock l))
      ⟨floatClock e.time, e.ev⟩)

/-- Only one of the two windows that end at `us` holds an admission at `a`: the script's, which is open and
`int(per_seconds)` long, or the deque's, which is closed and begins at the float `now - per_seconds`. -/
def InGap (rate : Rate) (us a : ℕ) : Prop :=
  ¬ (clock us - pyInt rate.perSeconds < clock a ↔
    Binary64.sub (floatClock us) rate.perSeconds ≤ floatClock a)

instance (rate : Rate) (us a : ℕ) : Decidable (InGap rate us a) := inferInstanceAs (Decidable (¬ _))

/-- No check finds, among the admissions of its key since the last reset, one in the gap of its rate. -/
def Gapless (p : String) (es : List (Timed ℕ Op)) : Prop :=
  (RedisAsyncThrottle.throttle p).Along (fun l _ e => ∀ key rate, e.ev = .check key rate →
    ∀ a ∈ RedisAsyncThrottle.admitted key l, ¬ InGap rate e.time a) (RedisAsyncThrottle.throttle p).init es

/-- A check whose counter is rendered exactly and whose deadline fits the milliseconds of the server. -/
def Serviceable (K : String) (us : ℕ) (db : Db) (rate : Rate) : Prop :=
  SeqBelow K us db ∧ Expirable (clock us) (pyInt rate.perSeconds)

/-! ### Counting -/

/-- The deque's window at `us`, on the times of the server. -/
def dequeWin (rate : Rate) (us a : ℕ) : Bool :=
  InMemoryAsyncThrottle.win rate.perSeconds (floatClock us) (floatClock a)

theorem inGap_iff {rate : Rate} (hr : 0 < rate.perSeconds) (us a : ℕ) :
    ¬ InGap rate us a ↔ RedisAsyncThrottle.win (seconds rate) us a = dequeWin rate us a := by
  have hsec : ((seconds rate : ℕ) : ℚ) = (pyInt rate.perSeconds : ℚ) := by
    rw [seconds_eq hr, Int.cast_natCast]
  rw [InGap, not_not, Bool.eq_iff_iff, win_iff, hsec, dequeWin, InMemoryAsyncThrottle.win, decide_eq_true_iff]

/-- The two windows hold equally many admissions when none is in the gap. -/
theorem countP_eq_iff_gap {rate : Rate} (hr : 0 < rate.perSeconds) (us : ℕ) (adm : List ℕ) :
    adm.countP (RedisAsyncThrottle.win (seconds rate) us) = adm.countP (dequeWin rate us) ↔
      ∀ a ∈ adm, ¬ InGap rate us a := by
  have hredis : ∀ a b, a ≤ b → RedisAsyncThrottle.win (seconds rate) us a = true →
      RedisAsyncThrottle.win (seconds rate) us b = true := by
    intro a b hab ha
    rw [win_iff] at ha ⊢
    exact ha.trans_le (clock_mono hab)
  have hdeque : ∀ a b, a ≤ b → dequeWin rate us a = true → dequeWin rate us b = true := by
    intro a b hab ha
    rw [dequeWin, InMemoryAsyncThrottle.win, decide_eq_true_iff] at ha ⊢
    exact ha.trans (floatClock_mono hab)
  rw [Window.countP_eq_iff hredis hdeque]
  exact forall₂_congr fun a _ => (inGap_iff hr us a).symm

/-- A reply of the script that counted `n` admissions and a decision of the deque that counted `m`: they are
the same when the counts are, as neither is above the limit. -/
theorem same_iff {now : ℚ} {rate : Rate} {n m : ℕ} {r : SlidingWindow.Reply} {d : ThrottleDecision}
    (hn : (n : ℤ) ≤ rate.count) (hm : (m : ℤ) ≤ rate.count) (hallow : r.allowed ≠ 0 ↔ (n : ℤ) < rate.count)
    (hcount : r.count = n + if r.allowed ≠ 0 then 1 else 0)
    (hallow' : d.allowed = true ↔ (m : ℤ) < rate.count)
    (hrem : d.remaining = if d.allowed = true then rate.count - m - 1 else 0) :
    ((decision now rate r).allowed = d.allowed ∧ (decision now rate r).remaining = d.remaining) ↔
      n = m := by
  have hdec : (decision now rate r).allowed = true ↔ (n : ℤ) < rate.count := by
    rw [← hallow]
    exact decide_eq_true_iff
  have hremr : (decision now rate r).remaining =
      if (n : ℤ) < rate.count then rate.count - n - 1 else 0 := by
    show max 0 (rate.count - r.count) = _
    rw [hcount]
    split_ifs with h1 h2 h2
    · omega
    · exact absurd (hallow.mp h1) h2
    · exact absurd (hallow.mpr h2) h1
    · omega
  rw [Bool.eq_iff_iff, hdec, hallow', hremr, hrem]
  simp only [hallow']
  constructor
  · rintro ⟨h1, h2⟩
    by_cases hlt : (n : ℤ) < rate.count
    · rw [if_pos hlt, if_pos (h1.mp hlt)] at h2
      omega
    · have hlt' : ¬ (m : ℤ) < rate.count := mt h1.mpr hlt
      omega
  · rintro rfl
    exact ⟨Iff.rfl, rfl⟩

/-! ### The two runs -/

section Runs

variable {p : String} {es : List (Timed ℕ Op)} {rateOf : String → Rate}

theorem onClock_concat (es : List (Timed ℕ Op)) (e : Timed ℕ Op) :
    onClock (es ++ [e]) = onClock es ++ [⟨floatClock e.time, e.ev⟩] := List.map_append

theorem onClock_le {us : ℕ} (hnow : ∀ e ∈ es, e.time ≤ us) : ∀ e ∈ onClock es, e.time ≤ floatClock us := by
  intro e he
  obtain ⟨a, ha, rfl⟩ := List.mem_map.mp he
  exact floatClock_mono (hnow a ha)

theorem onClock_clocked (hc : Clocked es) : Clocked (onClock es) :=
  List.pairwise_map.mpr (hc.imp fun h => floatClock_mono h)

theorem Agreement.of_append {fs : List (Timed ℕ Op)} (h : Agreement p (es ++ fs)) : Agreement p es := by
  rintro l e q rfl
  exact h l e (q ++ fs) (by simp)

theorem SameDecision.allowed {now : ℚ} {key : String} {rate : Rate} {a : RedisAsyncThrottle.Ans}
    {b : InMemoryAsyncThrottle.Ans} (h : SameDecision now (.check key rate) a b) :
    a.allowed = b.allowed := by
  obtain ⟨r, d, rfl, rfl, hallowed, -⟩ := h key rate rfl
  exact hallowed

/-- Backends that agree have let in the same checks. -/
theorem Agreement.admitted (h : Agreement p es) (key : String) :
    InMemoryAsyncThrottle.admitted key
        (InMemoryAsyncThrottle.throttle.log InMemoryAsyncThrottle.throttle.init (onClock es)) =
      (RedisAsyncThrottle.admitted key
        ((RedisAsyncThrottle.throttle p).log (RedisAsyncThrottle.throttle p).init es)).map floatClock := by
  induction es using List.reverseRecOn with
  | nil => rfl
  | append_singleton es e ih =>
    have hold := ih h.of_append
    have hlast := h es e [] rfl
    rw [InMemoryAsyncThrottle.admitted, RedisAsyncThrottle.admitted] at hold ⊢
    rw [onClock_concat, log_concat, log_concat]
    by_cases hk : e.ev.key = key
    · obtain ⟨t, op⟩ := e
      cases op with
      | reset k =>
        obtain rfl : k = key := hk
        rw [admissions_reset rfl, admissions_reset rfl]
        rfl
      | check k rate =>
        obtain rfl : k = key := hk
        have hsame := hlast.allowed
        rw [admissions_check rfl, admissions_check rfl, hold, List.map_append, apply_ite (List.map floatClock)]
        simp only [record_out, record_ev, hsame]
        rfl
    · rw [admissions_other hk, admissions_other hk, hold]

/-- **Step lemma**: after agreeing, the two agree on a check exactly when it finds nothing in the gap. -/
theorem Agreement.check_iff {us : ℕ} {key : String} {rate : Rate} (h : Agreement p es)
    (hr : 1 ≤ rate.count ∧ 0 < rate.perSeconds) (hc : Clocked es) (hnow : ∀ e ∈ es, e.time ≤ us)
    (hu : ∀ e ∈ es, ∀ rate', e.ev = .check key rate' → rate' = rate) (ha : Apart key es)
    (hs : RedisAsyncThrottle.Uses (Serviceable (fullKey p key)) p key es)
    (hlast : Serviceable (fullKey p key) us
      ((RedisAsyncThrottle.throttle p).exec (RedisAsyncThrottle.throttle p).init es) rate) :
    SameDecision (floatClock us) (.check key rate)
        ((RedisAsyncThrottle.throttle p).out
          ((RedisAsyncThrottle.throttle p).exec (RedisAsyncThrottle.throttle p).init es)
          ⟨us, .check key rate⟩)
        (InMemoryAsyncThrottle.throttle.out
          (InMemoryAsyncThrottle.throttle.exec InMemoryAsyncThrottle.throttle.init (onClock es))
          ⟨floatClock us, .check key rate⟩) ↔
      ∀ a ∈ RedisAsyncThrottle.admitted key
        ((RedisAsyncThrottle.throttle p).log (RedisAsyncThrottle.throttle p).init es), ¬ InGap rate us a := by
  have hseq := hs.mono fun _ _ _ h r hop => (h r hop).1
  obtain ⟨r, hout, hallow, hcount⟩ := exact_check hr hc hu ha hseq hnow hlast.1 hlast.2
  have hn := exact_countP_le (p := p) hr hc hu ha hseq hnow
  have hrates : ∀ e ∈ onClock es, ∀ rate', e.ev = .check key rate' → rate' = rate := by
    intro e he rate' hop
    obtain ⟨e', he', rfl⟩ := List.mem_map.mp he
    exact hu e' he' rate' hop
  have hcm := onClock_clocked hc
  have hnowm := onClock_le hnow
  have hadm := h.admitted key
  set adm := RedisAsyncThrottle.admitted key
    ((RedisAsyncThrottle.throttle p).log (RedisAsyncThrottle.throttle p).init es)
  have hcounts : (adm.map floatClock).countP (InMemoryAsyncThrottle.win rate.perSeconds (floatClock us)) =
      adm.countP (dequeWin rate us) := List.countP_map
  obtain ⟨hallow', hrem⟩ :=
    InMemoryAsyncThrottle.exact_check hcm (InMemoryAsyncThrottle.uses_dropsNone hrates) hnowm
  have hm := InMemoryAsyncThrottle.admitted_countP_le (by omega) hcm hrates (floatClock us)
  -- no admission is later than the check
  rw [List.countP_congr (q := InMemoryAsyncThrottle.win rate.perSeconds (floatClock us)) fun a ha => by
    simp [InMemoryAsyncThrottle.admitted_le hnowm a ha]] at hm
  rw [hadm, hcounts] at hm hallow' hrem
  rw [← countP_eq_iff_gap hr.2, ← same_iff hn hm hallow hcount hallow' hrem]
  constructor
  · intro hsame
    obtain ⟨r', d', hr', hd', hallowed, hremaining⟩ := hsame key rate rfl
    obtain rfl : r = r' := RedisAsyncThrottle.Ans.replied.inj (hout.symm.trans hr')
    obtain rfl := InMemoryAsyncThrottle.Ans.decided.inj hd'
    exact ⟨hallowed, hremaining⟩
  · rintro ⟨hallowed, hremaining⟩ key' rate' hop
    obtain ⟨-, rfl⟩ := Op.check.inj hop
    exact ⟨r, _, hout, rfl, hallowed, hremaining⟩

theorem Agreement.concat_iff {e : Timed ℕ Op} (h : Agreement p es) : Agreement p (es ++ [e]) ↔
    SameDecision (floatClock e.time) e.ev
      ((RedisAsyncThrottle.throttle p).out
        ((RedisAsyncThrottle.throttle p).exec (RedisAsyncThrottle.throttle p).init es) e)
      (InMemoryAsyncThrottle.throttle.out
        (InMemoryAsyncThrottle.throttle.exec InMemoryAsyncThrottle.throttle.init (onClock es))
        ⟨floatClock e.time, e.ev⟩) := by
  refine ⟨fun ha => ha es e [] rfl, fun hlast l e' q heq => ?_⟩
  rcases q.eq_nil_or_concat' with rfl | ⟨q', a, rfl⟩
  · obtain ⟨rfl, rfl⟩ := List.append_singleton_inj.mp heq
    exact hlast
  · have heq' : es ++ [e] = (l ++ e' :: q') ++ [a] := by simpa using heq
    exact h l e' q' (List.append_singleton_inj.mp heq').1

theorem Gapless.concat_iff {e : Timed ℕ Op} (h : Gapless p es) : Gapless p (es ++ [e]) ↔
    ∀ key rate, e.ev = .check key rate → ∀ a ∈ RedisAsyncThrottle.admitted key
      ((RedisAsyncThrottle.throttle p).log (RedisAsyncThrottle.throttle p).init es), ¬ InGap rate e.time a :=
  ⟨fun hg => Along.last hg, fun hlast => Along.concat h hlast⟩

end Runs

/-- Less than a tenth of a microsecond of rounding is enough: under one admission in 0.2 s the deque still holds the
admission of 0.2 s ago. -/
example : InGap ⟨1, Binary64.round (2 / 10)⟩ 1700000000200000 1700000000000000 := by decide +kernel

end Throttle

end ResilienceKit

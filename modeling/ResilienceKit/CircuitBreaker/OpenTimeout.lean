import ResilienceKit.CircuitBreaker.LuaRuns
import ResilienceKit.CircuitBreaker.Memory

/-!
# CircuitBreaker.OpenTimeout — how long OPEN lasts

After an opening at `t` calls admitted before still end, and their outcomes land in OPEN or HALF_OPEN.
A late counted failure can move the end of OPEN: in memory when it is the `failMax`-th in a row, over
the script always.  `Waiting t` holds as long as no late outcome interferes, and lets in the first call
from `t + resetTimeout` on.
-/

namespace ResilienceKit

open Mealy AsyncBreaker

variable {V : Type}

theorem AsyncBreaker.ev_of_isReset {S : Type} {r : AsyncBreaker.Rec S V} (hr : isReset r = true) :
    r.ev.ev = .reset := by
  unfold isReset at hr
  split at hr
  · assumption
  · cases hr

/-- The answer to a call that the backend admits. -/
theorem AsyncBreaker.call_admitted {S : Type} (B : AsyncBreaker S) (cfg : BreakerConfig) (init : S)
    {s : Sys S} {t : ℚ} (id : ℕ) (ha : (B.admission t s.brk).2.admitted = true) :
    (B.overlapped (V := V) cfg init).out s ⟨t, .call id⟩ = .admitted ∧
      ((B.overlapped (V := V) cfg init).next s ⟨t, .call id⟩).brk = (B.admission t s.brk).1 := by
  simp [Mealy.out, Mealy.next, overlapped, ha]

/-! ### In memory -/

namespace InMemoryAsyncBreaker

variable (cfg : BreakerConfig)

/-- The step enters OPEN. -/
def Opens (r : AsyncBreaker.Rec InMemoryAsyncBreaker V) : Prop :=
  r.pre.brk.state ≠ .OPEN ∧ r.post.brk.state = .OPEN

/-- What the step records neither starts OPEN again nor ends HALF_OPEN. -/
def Harmless (r : AsyncBreaker.Rec InMemoryAsyncBreaker V) : Prop :=
  (recorded cfg r = .failure →
    r.pre.brk.state = .OPEN ∧ (r.pre.brk.failureCount + 1 : ℤ) < cfg.failMax) ∧
  (recorded cfg r = .success → r.pre.brk.state = .HALF_OPEN →
    (r.pre.brk.successCount + 1 : ℤ) < cfg.successThreshold)

instance (r : AsyncBreaker.Rec InMemoryAsyncBreaker V) : Decidable (Opens r) :=
  inferInstanceAs (Decidable (_ ∧ _))

instance (r : AsyncBreaker.Rec InMemoryAsyncBreaker V) : Decidable (Harmless cfg r) :=
  inferInstanceAs (Decidable (_ ∧ _))

/-- OPEN since `t`, or HALF_OPEN already. -/
def Waiting (t : ℚ) (s : InMemoryAsyncBreaker) : Prop :=
  (s.state = .OPEN ∧ s.openedAt = some t) ∨ s.state = .HALF_OPEN

variable {cfg}

theorem Opens.waiting {r : AsyncBreaker.Rec InMemoryAsyncBreaker V} (ho : Opens r)
    (hm : Moved (breaker cfg) cfg r) : Waiting r.ev.time r.post.brk := by
  obtain ⟨hpre, hpost⟩ := ho
  have hcheck : r.post.brk ≠ maybeHalfOpen cfg r.ev.time r.pre.brk := by
    intro hb
    rcases maybeHalfOpen_cases cfg r.ev.time r.pre.brk with he | ⟨_, ho, -, -, -⟩
    · exact hpre (by rw [← hpost, hb, he])
    · exact hpre ho
  cases hm with
  | admission _ _ _ hb => exact absurd hb hcheck
  | state _ _ _ hb => exact absurd hb hcheck
  | idle _ _ hb => exact absurd (hb ▸ hpost) hpre
  | reset _ _ hb =>
    rw [hb] at hpost
    cases hpost
  | success _ _ _ hb =>
    have hb' : r.post.brk = recordSuccess cfg r.pre.brk := hb
    by_cases hh : r.pre.brk.state = .HALF_OPEN
    · by_cases ht : cfg.successThreshold ≤ (r.pre.brk.successCount : ℤ) + 1
      · rw [hb', recordSuccess_closes hh ht] at hpost
        cases hpost
      · rw [hb', recordSuccess_counts hh (not_le.mp ht)] at hpost
        exact absurd hpost hpre
    · rw [hb', recordSuccess_other hh] at hpost
      exact absurd hpost hpre
  | failure _ _ _ hb =>
    have hb' : r.post.brk = recordFailure cfg r.ev.time r.pre.brk := hb
    by_cases hh : r.pre.brk.state = .HALF_OPEN
    · rw [hb', recordFailure_halfOpen hh]
      exact .inl ⟨rfl, rfl⟩
    · by_cases ht : cfg.failMax ≤ (r.pre.brk.failureCount : ℤ) + 1
      · rw [hb', recordFailure_opens hh ht]
        exact .inl ⟨rfl, rfl⟩
      · rw [hb', recordFailure_counts hh (not_le.mp ht)] at hpost
        exact absurd hpost hpre

theorem Waiting.check {t : ℚ} {s : InMemoryAsyncBreaker} (hw : Waiting t s) (now : ℚ) :
    Waiting t (maybeHalfOpen cfg now s) := by
  rcases maybeHalfOpen_cases cfg now s with he | ⟨_, -, -, -, he⟩
  · rwa [he]
  · rw [he]
    exact .inr rfl

/-- **Step lemma.** -/
theorem Waiting.step {t : ℚ} {r : AsyncBreaker.Rec InMemoryAsyncBreaker V}
    (hw : Waiting t r.pre.brk) (hm : Moved (breaker cfg) cfg r) (hr : r.ev.ev ≠ .reset)
    (hh : Harmless cfg r) : Waiting t r.post.brk := by
  cases hm with
  | admission _ _ _ hb => exact (hb : r.post.brk = maybeHalfOpen cfg _ _) ▸ hw.check r.ev.time
  | state _ _ _ hb => exact (hb : r.post.brk = maybeHalfOpen cfg _ _) ▸ hw.check r.ev.time
  | idle _ _ hb => rwa [hb]
  | reset hr' _ _ => exact absurd (ev_of_isReset hr') hr
  | success _ _ hv hb =>
    have hb' : r.post.brk = recordSuccess cfg r.pre.brk := hb
    rw [hb']
    rcases hw with ⟨ho, hat⟩ | ho
    · rw [recordSuccess_other (by simp [ho])]
      exact .inl ⟨ho, hat⟩
    · rw [recordSuccess_counts ho (hh.2 hv ho)]
      exact .inr ho
  | failure _ _ hv hb =>
    have hb' : r.post.brk = recordFailure cfg r.ev.time r.pre.brk := hb
    obtain ⟨ho, hlt⟩ := hh.1 hv
    have hne : r.pre.brk.state ≠ .HALF_OPEN := by simp [ho]
    rw [hb', recordFailure_counts hne hlt]
    rcases hw with ⟨-, hat⟩ | ho'
    · exact .inl ⟨ho, hat⟩
    · exact absurd ho' hne

/-- From the end of the timeout on, the check of a waiting breaker ends in HALF_OPEN. -/
theorem Waiting.due {t now : ℚ} {s : InMemoryAsyncBreaker} (hw : Waiting t s)
    (ht : t + cfg.resetTimeout ≤ now) : (maybeHalfOpen cfg now s).state = .HALF_OPEN := by
  unfold maybeHalfOpen
  rcases hw with ⟨ho, hat⟩ | hh
  · have hge : now - t ≥ cfg.resetTimeout := by
      show cfg.resetTimeout ≤ now - t
      linarith
    rw [if_neg (not_not.mpr ho), hat]
    simp only [hge, if_true]
  · rw [if_pos (by simp [hh])]
    exact hh

/-- **Run lemma.** -/
theorem waiting_run {t : ℚ} {s : Sys InMemoryAsyncBreaker} {fs : List (Timed ℚ (Ev V))}
    (hw : Waiting t s.brk) (hg : (system cfg V).Along (fun _ s e => e.ev ≠ .reset ∧
      Harmless cfg ((system cfg V).record s e)) s fs) :
    Waiting t ((system cfg V).exec s fs).brk :=
  Along.induct (M := system cfg V) (P := fun _ s => Waiting t s.brk) hw
    (fun _ s e h hg => Waiting.step (r := (system cfg V).record s e) h (moved _ _ _ _ _) hg.1 hg.2)
    hg

/-- A waiting breaker admits the call that finds the timeout over. -/
theorem Waiting.admits {t t' : ℚ} {s : Sys InMemoryAsyncBreaker} (hw : Waiting t s.brk)
    (ht : t + cfg.resetTimeout ≤ t') (id : ℕ) :
    (system cfg V).out s ⟨t', .call id⟩ = .admitted ∧
      ((system cfg V).next s ⟨t', .call id⟩).brk.state = .HALF_OPEN := by
  have hdue := hw.due ht
  have hadm : ((breaker cfg).admission t' s.brk).2.admitted = true :=
    decide_eq_true (by rw [hdue]; simp)
  obtain ⟨hout, hbrk⟩ := call_admitted (V := V) (breaker cfg) cfg {} id hadm
  refine ⟨hout, ?_⟩
  have hbrk' : ((system cfg V).next s ⟨t', .call id⟩).brk = maybeHalfOpen cfg t' s.brk := hbrk
  rw [hbrk']
  exact hdue

end InMemoryAsyncBreaker

/-! ### Over the script -/

namespace BreakerLua

open Redis

variable (cfg : BreakerConfig) (key : String)

/-- The step enters OPEN, or leaves it for HALF_OPEN and enters it again in one script. -/
def Opens (r : Rec V) : Prop :=
  (seen r.ev.time key r.post.brk).state = .OPEN ∧ ((seen r.ev.time key r.pre.brk).state ≠ .OPEN ∨
    (recorded cfg r = .failure ∧
      (checked cfg r.ev.time (seen r.ev.time key r.pre.brk)).state = .HALF_OPEN))

/-- What the step records neither starts OPEN again, which every later failure does, nor ends
HALF_OPEN. -/
def Harmless (t : ℚ) (r : Rec V) : Prop :=
  (recorded cfg r = .failure → r.ev.time ≤ t) ∧
  (recorded cfg r = .success →
    (checked cfg r.ev.time (hashOf key r.pre.brk)).state = .HALF_OPEN →
    ((checked cfg r.ev.time (hashOf key r.pre.brk)).successCount + 1 : ℤ) < cfg.successThreshold)

instance (r : Rec V) : Decidable (Opens cfg key r) := inferInstanceAs (Decidable (_ ∧ _))

instance (t : ℚ) (r : Rec V) : Decidable (Harmless cfg key t r) :=
  inferInstanceAs (Decidable (_ ∧ _))

/-- OPEN since `t`, or HALF_OPEN after the timeout. -/
def Waiting (t now : ℚ) (h : Hash) : Prop :=
  (h.state = .OPEN ∧ h.lastFailure = t) ∨ (h.state = .HALF_OPEN ∧ t + cfg.resetTimeout ≤ now)

variable {cfg key}

/-- A hash that is seen OPEN is stored. -/
theorem hashOf_of_open {now : ℚ} {db : Db} (hw : Wf key db) (ho : (seen now key db).state = .OPEN) :
    hashOf key db = seen now key db := by
  rcases hw.seen_cases now with hs | hs
  · exact hs.symm
  · rw [hs] at ho
    cases ho

theorem Opens.waiting {r : Rec V} (ho : Opens cfg key r) (hw : Wf key r.post.brk)
    (hm : HashMoved cfg r (seen r.ev.time key r.pre.brk) (seen r.ev.time key r.post.brk)) :
    Waiting cfg r.ev.time r.ev.time (hashOf key r.post.brk) := by
  obtain ⟨hpost, hpre⟩ := ho
  rw [hashOf_of_open hw hpost]
  have hfail : recorded cfg r ≠ .failure → (seen r.ev.time key r.pre.brk).state ≠ .OPEN := by
    intro hv
    rcases hpre with hpre | ⟨hv', -⟩
    · exact hpre
    · exact absurd hv' hv
  cases hm with
  | check _ hv hb =>
    rw [hb] at hpost
    exact absurd (open_of_checked hpost) (hfail (by simp [hv]))
  | idle _ hv hb =>
    rw [hb] at hpost
    exact absurd hpost (hfail (by simp [hv]))
  | reset _ _ hb =>
    rw [hb] at hpost
    cases hpost
  | success _ hv hb =>
    rw [hb, succeeded_open_iff] at hpost
    exact absurd (open_of_checked hpost) (hfail (by simp [hv]))
  | failure _ _ hb =>
    refine .inl ⟨hpost, ?_⟩
    rw [hb]
    exact (failed_state_cases cfg _ _).1

theorem Waiting.check {t now now' : ℚ} {h : Hash} (hw : Waiting cfg t now h) (hle : now ≤ now') :
    Waiting cfg t now' (checked cfg now' h) := by
  rcases hw with ⟨ho, hat⟩ | ⟨hh, hT⟩
  · rcases checked_cases cfg now' h with he | ⟨-, hT, he⟩
    · rw [he]
      exact .inl ⟨ho, hat⟩
    · rw [he]
      exact .inr ⟨rfl, by rw [hat] at hT; linarith⟩
  · rw [checked_of_ne_open (by simp [hh])]
    exact .inr ⟨hh, hT.trans hle⟩

/-- **Step lemma.** -/
theorem Waiting.step {t now : ℚ} {r : Rec V} (hw : Waiting cfg t now (hashOf key r.pre.brk))
    (hm : HashMoved cfg r (hashOf key r.pre.brk) (hashOf key r.post.brk)) (hT : 0 < cfg.resetTimeout)
    (ht : t ≤ r.ev.time)
    (hle : now ≤ r.ev.time) (hr : r.ev.ev ≠ .reset) (hh : Harmless cfg key t r) :
    Waiting cfg t r.ev.time (hashOf key r.post.brk) := by
  have hc := hw.check hle
  cases hm with
  | check _ _ hb => rwa [hb]
  | idle _ _ hb =>
    rw [hb]
    exact hw.imp id fun hw => ⟨hw.1, hw.2.trans hle⟩
  | reset hr' _ _ => exact absurd (ev_of_isReset hr') hr
  | success _ hv hb =>
    rw [hb]
    rcases hc with ⟨ho, hat⟩ | ⟨ho, hle'⟩
    · rw [succeeded_open ho]
      exact .inl ⟨ho, hat⟩
    · rw [succeeded_counts ho (hh.2 hv ho)]
      exact .inr ⟨ho, hle'⟩
  | failure _ hv hb =>
    rw [hb]
    have heq : r.ev.time = t := le_antisymm (hh.1 hv) ht
    rcases hc with ⟨ho, -⟩ | ⟨-, hle'⟩
    · rw [failed_open ho]
      exact .inl ⟨ho, heq⟩
    · -- at the time of the opening the timeout is not over
      linarith

theorem Waiting.due {t now now' : ℚ} {h : Hash} (hw : Waiting cfg t now h)
    (ht : t + cfg.resetTimeout ≤ now') : (checked cfg now' h).state = .HALF_OPEN := by
  rcases hw with ⟨ho, hat⟩ | ⟨hh, -⟩
  · rw [checked_halfOpen ho (by rw [hat]; linarith)]
  · rwa [checked_of_ne_open (by simp [hh])]

/-- **Run lemma.**  The hash is well formed and waiting, as of the last step. -/
theorem waiting_run {t : ℚ} {s : Sys Db} {fs : List (Timed ℚ (Ev V))} (hT : 0 < cfg.resetTimeout)
    (hwf : Wf key s.brk) (hw : Waiting cfg t t (hashOf key s.brk)) (hc : Clocked fs)
    (ht : ∀ e ∈ fs, t ≤ e.time)
    (hg : (system cfg key V).Along (fun _ s e => Fresh key e.time s.brk ∧ e.ev ≠ .reset ∧
      Harmless cfg key t ((system cfg key V).record s e)) s fs) :
    Wf key ((system cfg key V).exec s fs).brk ∧
      ∃ now, Waiting cfg t now (hashOf key ((system cfg key V).exec s fs).brk) := by
  have htimes : (system cfg key V).Along (fun _ _ e => t ≤ e.time) s fs := by
    intro p e q heq
    exact ht e (by simp [heq])
  have hrun := Along.induct (M := system cfg key V)
    (P := fun l s => Wf key s.brk ∧ ∃ now, (now = t ∨ ∃ r ∈ l, r.ev.time = now) ∧
      Waiting cfg t now (hashOf key s.brk))
    ⟨hwf, t, .inl rfl, hw⟩
    (by
      rintro l s e ⟨hwf, now, hnow, hw⟩ ⟨⟨hbefore, hte⟩, hf, hr, hh⟩
      have hle : now ≤ e.time := by
        rcases hnow with rfl | ⟨r, hr, rfl⟩
        · exact hte
        · exact hbefore r hr
      obtain ⟨hwf', hm⟩ :=
        hashMoved (r := (system cfg key V).record s e) (moved _ _ _ _ _) hwf hf hT
      exact ⟨hwf', e.time, .inr ⟨_, List.mem_append_right _ (List.mem_singleton_self _), rfl⟩,
        Waiting.step (r := (system cfg key V).record s e) hw hm hT hte hle hr hh⟩)
    (Along.and (Along.and hc.along htimes) hg)
  obtain ⟨hwf', now, -, hw'⟩ := hrun
  exact ⟨hwf', now, hw'⟩

/-- A waiting hash admits the call that finds the timeout over. -/
theorem Waiting.admits {t now t' : ℚ} {s : Sys Db} (hw : Waiting cfg t now (hashOf key s.brk))
    (hT : 0 < cfg.resetTimeout) (hwf : Wf key s.brk) (hf : Fresh key t' s.brk)
    (ht : t + cfg.resetTimeout ≤ t') (id : ℕ) :
    (system cfg key V).out s ⟨t', .call id⟩ = .admitted ∧
      (hashOf key ((system cfg key V).next s ⟨t', .call id⟩).brk).state = .HALF_OPEN := by
  have hdue := hw.due ht
  rw [← hwf.seen_fresh hf] at hdue
  obtain ⟨hflag, -⟩ := eval_available hwf hT t'
  have hadm : ((breaker cfg key).admission t' s.brk).2.admitted = true :=
    decide_eq_true (hflag.mpr (by simp [hdue]))
  obtain ⟨hout, hbrk⟩ := call_admitted (V := V) (breaker cfg key) cfg (fun _ => none) id hadm
  refine ⟨hout, ?_⟩
  have hbrk' : ((system cfg key V).next s ⟨t', .call id⟩).brk =
      (eval cfg key t' .is_available s.brk).1 := hbrk
  rw [hbrk', (eval_ok hwf hT t' .is_available).hashOf_fresh hwf hf]
  exact hdue

end BreakerLua

/-! ### The first call after the timeout -/

/-- OPEN lasts `resetTimeout`, in memory and over the script: after an opening at `t`, as long as what is
recorded is harmless and nobody resets, a call from `t + resetTimeout` on is admitted and finds HALF_OPEN.  Over
the script the hash must not expire after the opening. -/
theorem open_lasts_reset_timeout (cfg : BreakerConfig) (key : String) :
    let M := InMemoryAsyncBreaker.system cfg V
    let R := BreakerLua.system cfg key V
    (∀ es e fs id t', InMemoryAsyncBreaker.Opens (M.record (M.exec M.init es) e) →
      M.Along (fun _ s e => e.ev ≠ .reset ∧ InMemoryAsyncBreaker.Harmless cfg (M.record s e))
        (M.exec M.init (es ++ [e])) fs →
      e.time + cfg.resetTimeout ≤ t' →
      M.out (M.exec M.init (es ++ [e] ++ fs)) ⟨t', .call id⟩ = .admitted ∧
        (M.next (M.exec M.init (es ++ [e] ++ fs)) ⟨t', .call id⟩).brk.state = .HALF_OPEN) ∧
    (∀ es e fs id t', Clocked (e :: fs) →
      R.Along (fun _ s f => BreakerLua.Fresh key f.time s.brk) (R.exec R.init (es ++ [e]))
        (fs ++ [(⟨t', .call id⟩ : Timed ℚ (Ev V))]) →
      BreakerLua.Opens cfg key (R.record (R.exec R.init es) e) →
      R.Along (fun _ s f => f.ev ≠ .reset ∧ BreakerLua.Harmless cfg key e.time (R.record s f))
        (R.exec R.init (es ++ [e])) fs →
      e.time + cfg.resetTimeout ≤ t' →
      R.out (R.exec R.init (es ++ [e] ++ fs)) ⟨t', .call id⟩ = .admitted ∧
        (BreakerLua.hashOf key
          (R.next (R.exec R.init (es ++ [e] ++ fs)) ⟨t', .call id⟩).brk).state = .HALF_OPEN) := by
  intro M R
  refine ⟨fun es e fs id t' ho hg ht => ?_, fun es e fs id t' hc hf ho hg ht => ?_⟩
  · have hopen : InMemoryAsyncBreaker.Waiting e.time (M.exec M.init (es ++ [e])).brk := by
      rw [exec_concat]
      exact ho.waiting (moved _ _ _ _ _)
    have hw := InMemoryAsyncBreaker.waiting_run hopen hg
    rw [← exec_append] at hw
    exact hw.admits ht id
  · rcases le_or_gt cfg.resetTimeout 0 with hT | hT
    · have hnone := BreakerLua.past_run (V := V) key hT (es ++ [e])
      rw [exec_concat] at hnone
      have hpost := ho.1
      rw [record_post, BreakerLua.seen_of_invisible (Redis.visible_none hnone)] at hpost
      cases hpost
    obtain ⟨hwf, hm⟩ := BreakerLua.seenMoved (r := R.record (R.exec R.init es) e)
      (moved _ _ _ _ _) (BreakerLua.wf_run hT es) hT
    have hopen := ho.waiting hwf hm
    rw [record_post, ← exec_concat] at hwf hopen
    obtain ⟨hwf', now, hw⟩ := BreakerLua.waiting_run hT hwf hopen (List.pairwise_cons.mp hc).2
      (List.pairwise_cons.mp hc).1 (Along.and (Along.of_append hf) hg)
    have hlast := Along.last hf
    rw [← exec_append] at hwf' hw hlast
    exact hw.admits hT hwf' hlast ht id

/-- After minutes in CLOSED, in which the hash expires: two calls, the first fails and opens, the second succeeds
while the breaker is OPEN, and a third is admitted ten seconds after the opening. -/
theorem open_lasts_reset_timeout_late_success :
    let cfg : BreakerConfig := { failMax := 1, resetTimeout := 10 }
    let es : List (Timed ℚ (Ev ℕ)) := [⟨0, .call 0⟩, ⟨0, .finish 0 (.returned 7)⟩, ⟨200, .call 1⟩,
      ⟨200, .call 2⟩, ⟨200, .finish 1 (.raised ⟨.transientError, 0⟩)⟩, ⟨205, .finish 2 (.returned 7)⟩]
    let M := InMemoryAsyncBreaker.system cfg ℕ
    let R := BreakerLua.system cfg "cb:svc" ℕ
    M.out (M.exec M.init es) ⟨210, .call 3⟩ = .admitted ∧
      R.out (R.exec R.init es) ⟨210, .call 3⟩ = .admitted := by
  intro cfg es M R
  obtain ⟨hmemory, hredis⟩ := open_lasts_reset_timeout (V := ℕ) cfg "cb:svc"
  have hM := hmemory [⟨0, .call 0⟩, ⟨0, .finish 0 (.returned 7)⟩, ⟨200, .call 1⟩, ⟨200, .call 2⟩]
    ⟨200, .finish 1 (.raised ⟨.transientError, 0⟩)⟩ [⟨205, .finish 2 (.returned 7)⟩] 3 210
    (by decide +kernel) (by decide +kernel) (by decide +kernel)
  have hR := hredis [⟨0, .call 0⟩, ⟨0, .finish 0 (.returned 7)⟩, ⟨200, .call 1⟩, ⟨200, .call 2⟩]
    ⟨200, .finish 1 (.raised ⟨.transientError, 0⟩)⟩ [⟨205, .finish 2 (.returned 7)⟩] 3 210
    (by decide +kernel) (by decide +kernel) (by decide +kernel) (by decide +kernel) (by decide +kernel)
  exact ⟨hM.1, hR.1⟩

/-- A late failure moves the end of OPEN: two calls at 0, the first fails at once and opens, the second
fails at 5, and the call at 10 is turned away. -/
theorem late_failure_extends_open :
    let cfg : BreakerConfig := { failMax := 1, resetTimeout := 10 }
    let es : List (Timed ℚ (Ev ℕ)) := [⟨0, .call 1⟩, ⟨0, .call 2⟩]
    let e : Timed ℚ (Ev ℕ) := ⟨0, .finish 1 (.raised ⟨.transientError, 0⟩)⟩
    let fs : List (Timed ℚ (Ev ℕ)) := [⟨5, .finish 2 (.raised ⟨.transientError, 1⟩)⟩]
    let M := InMemoryAsyncBreaker.system cfg ℕ
    let R := BreakerLua.system cfg "cb:svc" ℕ
    (InMemoryAsyncBreaker.Opens (M.record (M.exec M.init es) e) ∧
      M.out (M.exec M.init (es ++ [e] ++ fs)) ⟨10, .call 3⟩ = .shortCircuit) ∧
    (BreakerLua.Opens cfg "cb:svc" (R.record (R.exec R.init es) e) ∧
      R.out (R.exec R.init (es ++ [e] ++ fs)) ⟨10, .call 3⟩ = .shortCircuit) := by
  decide +kernel

end ResilienceKit

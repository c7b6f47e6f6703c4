import Mathlib.Data.Nat.Find
import Mathlib.Tactic.Positivity
import Mathlib.Tactic.Push
import ResilienceKit.Retry.Runs

/-!
# Retry.Contract — what a wrapped call does, from outside

While metrics are silent and callbacks raise nothing worse than an `Exception`, the call either ends with
the first outcome that settles or with the last failure, after as many invocations as that takes
(`Specified`).  Two things are in the way.  The delay between two attempts: a float power can overflow, and
`time.sleep` takes neither a negative delay nor one whose nanoseconds exceed 64 bits (`CanWait`).  And the name
of the function, which its metrics carry and a `functools.partial` has not (`Named`).
-/

namespace ResilienceKit.Retry

open Program Code Py

variable {V : Type} (args : RetryArgs) (mode : Mode) (w : Scenario (Option V))

/-- What `n` attempts look like: each is followed by its callback, and any but the last by one sleep. -/
def story (n : ℕ) : List Visible :=
  (List.range n).flatMap fun j =>
    .invoked :: notes args w j ++ if j + 1 < n then [.slept] else []

/-- The contract of a wrapped call. -/
structure Specified : Prop where
  /-- The first outcome that settles, if it comes in time, ends the call. -/
  settled : ∀ k : ℕ, (k : ℤ) < args.maxAttempts → settles args (w.outcome k) = true →
    (∀ j < k, settles args (w.outcome j) = false) →
    visible (call args mode w).1 = story args w (k + 1) ∧
      (call args mode w).2 = (w.outcome k).result
  /-- Otherwise every attempt is made, and the last failure is raised or swallowed. -/
  exhausted : (∀ j : ℕ, (j : ℤ) < args.maxAttempts → settles args (w.outcome j) = false) →
    visible (call args mode w).1 = story args w args.maxAttempts.toNat ∧
      ∃ e, w.outcome (args.maxAttempts.toNat - 1) = .raised e ∧
        (call args mode w).2 = if args.raiseOnFailure then .error e else .ok none

/-- Every delay that a run of failures comes to can be computed and slept. -/
def Waits : Prop :=
  ∀ i : ℕ, (i : ℤ) + 1 < args.maxAttempts → (∀ j ≤ i, settles args (w.outcome j) = false) →
    CanWait args mode w i

/-- After a failure the loop finds a name to count it under. -/
def Named : Prop := settles args (w.outcome 0) = true ∨ args.funcName ≠ none

/-- Metrics that do not raise, and callbacks that raise at most an `Exception`. -/
structure Tame : Prop where
  sink : ∀ n name, w.sink n name = none
  callback : ∀ n, suppressed (w.callback n) = .ok ()

variable {args mode w} {h : History (Option V)} {i : ℕ}

theorem story_succ (n : ℕ) : story args w (n + 1) = told args w n ++ .invoked :: notes args w n := by
  have hfront : (List.range n).flatMap (fun j =>
      .invoked :: notes args w j ++ if j + 1 < n + 1 then [.slept] else []) = told args w n := by
    refine List.flatMap_congr fun j hj => ?_
    rw [if_pos (Nat.add_lt_add_right (List.mem_range.mp hj) 1)]
  rw [story, List.range_succ, List.flatMap_append, hfront]
  simp

theorem invoked_notMem_notes (i : ℕ) : (notes args w i).count .invoked = 0 := by
  unfold notes
  split
  · rfl
  · split_ifs <;> rfl

/-- The story tells how many attempts were made. -/
theorem count_story (n : ℕ) : (story args w n).count .invoked = n := by
  have htold : ∀ n, (told args w n).count .invoked = n := by
    intro n
    induction n with
    | zero => rfl
    | succ n ih => simp [told_succ, ih, invoked_notMem_notes]
  cases n with
  | zero => rfl
  | succ n => simp [story_succ, htold, invoked_notMem_notes]

theorem exists_of_not_settles {o : Outcome (Option V)} (ho : settles args o = false) :
    ∃ e, o = .raised e ∧ retryable args e = true := by
  cases o with
  | returned v => cases ho
  | raised e => exact ⟨e, rfl, by simpa [settles] using ho⟩

theorem notes_of_settles (hs : settles args (w.outcome i) = true) : notes args w i = [] := by
  unfold notes
  cases ho : w.outcome i with
  | returned v => rfl
  | raised e =>
    have hm : retryable args e = false := by simpa [settles, ho] using hs
    simp [hm]

/-- A first outcome settles in time, or none does. -/
theorem first_settled_or_none (args : RetryArgs) (w : Scenario (Option V)) :
    (∃ k : ℕ, (k : ℤ) < args.maxAttempts ∧ settles args (w.outcome k) = true ∧
      ∀ j < k, settles args (w.outcome j) = false) ∨
    ∀ j : ℕ, (j : ℤ) < args.maxAttempts → settles args (w.outcome j) = false := by
  by_cases hex : ∃ k : ℕ, (k : ℤ) < args.maxAttempts ∧ settles args (w.outcome k) = true
  · refine .inl ⟨Nat.find hex, (Nat.find_spec hex).1, (Nat.find_spec hex).2, fun j hj => ?_⟩
    by_contra hne
    have hlt := (Nat.find_spec hex).1
    exact Nat.find_min hex hj ⟨by omega, by simpa using hne⟩
  · refine .inr fun j hj => ?_
    by_contra hne
    exact hex ⟨j, hj, by simpa using hne⟩

/-! ### How the loop ends at an attempt -/

/-- An outcome that settles ends the loop. -/
theorem ends_settled (mode : Mode) (n : ℕ) (last : Option PyExc) (previousDelay : PyNum) (ht : Tame w)
    (hat : At args i h) (hname : 0 < i → args.funcName ≠ none) (hs : settles args (w.outcome i) = true) : ∃ h',
    exec w.env h (attempts args mode.sleep invoke (n + 1) i last previousDelay) =
      (h', (w.outcome i).result) ∧ visible h' = visible h ++ .invoked :: notes args w i := by
  rw [attempts, exec_tryElse, notes_of_settles hs]
  cases ho : w.outcome i with
  | returned v =>
    have hinv : exec w.env h (invoke : Py (Option V) (Option V)) =
        (h ++ [⟨.invoke, w.outcome i⟩], .ok v) := by
      rw [exec_invoke_env hat.calls, ho]
      rfl
    by_cases hi : i > 0
    · obtain ⟨tags, hcount⟩ := exec_count_silent (h := h ++ [⟨.invoke, w.outcome i⟩]) (i := i) "retry.success"
        "attempt" (toString (i + 1)) (hname hi) (by simp [hat.emissions]) (ht.sink _ _)
      rw [attemptOnce, exec_bind_ok hinv, countSuccess, if_pos hi, exec_bind_ok hcount]
      exact ⟨_, rfl, by simp [shown]⟩
    · rw [attemptOnce, exec_bind_ok hinv, countSuccess, if_neg hi]
      exact ⟨_, rfl, by simp [shown]⟩
  | raised e =>
    rw [exec_attemptOnce_raised hat.calls ho]
    have hm : retryable args e = false := by simpa [settles, ho] using hs
    refine ⟨h ++ [⟨.invoke, w.outcome i⟩], ?_, by simp [shown]⟩
    simp only [onFailure]
    by_cases hsu : isinstance e .serviceUnavailableError = true
    · rw [if_pos hsu]
      rfl
    · have hc : catches (filterRetryOn args.exceptions) e = false := by
        simpa [retryable, hsu] using hm
      rw [if_neg hsu, if_neg (by simp [hc])]
      rfl

/-- A failure of the last attempt is raised, or swallowed. -/
theorem ends_last (mode : Mode) (n : ℕ) (last : Option PyExc) (previousDelay : PyNum)
    {e : PyExc} (ht : Tame w) (hname : args.funcName ≠ none)
    (hat : At args i h) (hi : w.outcome i = .raised e) (hm : retryable args e = true)
    (hlast : (i : ℤ) = args.maxAttempts - 1) : ∃ h',
    exec w.env h (attempts args mode.sleep invoke (n + 1) i last previousDelay) =
      (h', if args.raiseOnFailure then .error e else .ok none) ∧
    visible h' = visible h ++ .invoked :: notes args w i := by
  obtain ⟨h₁, hnotify, -, -, hem₁, -, hv₁⟩ := exec_notify hat hi hm (fun _ => ht.callback i) _ rfl
  obtain ⟨hsu, hcatch⟩ := Bool.and_eq_true_iff.mp hm
  obtain ⟨tags, hcount⟩ := exec_count_silent "retry.exhausted" "attempts" (toString args.maxAttempts) hname hem₁
    (ht.sink _ _)
  rw [attempts, exec_tryElse, exec_attemptOnce_raised hat.calls hi]
  simp only
  rw [onFailure, if_neg (by simpa using hsu), if_pos hcatch, exec_bind_ok hnotify, if_pos hlast, afterLoop,
    exec_bind_ok hcount]
  refine ⟨h₁ ++ [⟨.incr "retry.exhausted" tags, none⟩], ?_, ?_⟩
  · split_ifs <;> rfl
  · simp [shown, hv₁]

/-- The last attempt of a function without a name ends with the error of the lookup. -/
theorem ends_nameless (mode : Mode) (n : ℕ) (last : Option PyExc) (previousDelay : PyNum) {e : PyExc}
    (ht : Tame w) (hname : args.funcName = none) (hat : At args i h) (hi : w.outcome i = .raised e)
    (hm : retryable args e = true) (hlast : (i : ℤ) = args.maxAttempts - 1) :
    (exec w.env h (attempts args mode.sleep invoke (n + 1) i last previousDelay)).2 = .error noName := by
  obtain ⟨h₁, hnotify, -⟩ := exec_notify hat hi hm (fun _ => ht.callback i) _ rfl
  obtain ⟨hsu, hcatch⟩ := Bool.and_eq_true_iff.mp hm
  rw [attempts, exec_tryElse, exec_attemptOnce_raised hat.calls hi]
  simp only
  rw [onFailure, if_neg (by simpa using hsu), if_pos hcatch, exec_bind_ok hnotify, if_pos hlast, afterLoop,
    exec_bind_error (exec_count_nameless _ _ _ hname)]

/-- Without a delay that can be slept, or a name, the wait ends with an error and shows nothing. -/
theorem exec_backOff_stuck (mode : Mode) {previousDelay : PyNum} (ht : Tame w) (hb : Before args w i previousDelay)
    (hem : emissions h = i) (hdr : draws h = if args.jitter = "none" then 0 else i)
    (hwait : args.funcName ≠ none → ¬ CanWait args mode w i) : ∃ h' e,
    exec w.env h (backOff args mode.sleep i previousDelay) = (h', .error e) ∧ visible h' = visible h := by
  obtain ⟨h₂, hexec, hh₂, -⟩ := exec_nextDelay args w h i previousDelay
  have hu : delayFor args i previousDelay (w.draw (draws h)) = w.delay args i := by
    rw [hb.delay]
    by_cases hn : args.jitter = "none"
    · simp [delayFor, hn]
    · rw [hdr, if_neg hn]
  rw [hu] at hexec
  have hv₂ : visible h₂ = visible h := by
    rcases hh₂ with rfl | rfl <;> simp [shown]
  have hem₂ : emissions h₂ = i := by
    rcases hh₂ with rfl | rfl <;> simp [hem]
  cases hd : w.delay args i with
  | error e =>
    rw [hd] at hexec
    exact ⟨h₂, e, exec_bind_error hexec, hv₂⟩
  | ok d =>
    rw [hd] at hexec
    by_cases hname : args.funcName = none
    · refine ⟨h₂, noName, ?_, hv₂⟩
      rw [backOff, exec_bind_ok hexec, exec_bind_error (exec_count_nameless _ _ _ hname)]
    · obtain ⟨tags, hcount⟩ := exec_count_silent "retry.attempt" "attempt" (toString (i + 1)) hname hem₂
        (ht.sink i "retry.attempt")
      cases hdue : mode.due d with
      | ok _ => exact absurd ⟨d, hd, hdue⟩ (hwait hname)
      | error e =>
        refine ⟨h₂ ++ [⟨.incr "retry.attempt" tags, none⟩], e, ?_, by simp [shown, hv₂]⟩
        rw [backOff, exec_bind_ok hexec, exec_bind_ok hcount, mode.sleep_eq,
          exec_bind_error (exec_sleepFor_error hdue d)]

/-- Then the loop ends with that error. -/
theorem ends_waiting (mode : Mode) (n : ℕ) (last : Option PyExc) (previousDelay : PyNum)
    {e : PyExc} (ht : Tame w)
    (hat : At args i h) (hb : Before args w i previousDelay) (hi : w.outcome i = .raised e)
    (hm : retryable args e = true) (hlast : (i : ℤ) ≠ args.maxAttempts - 1)
    (hwait : args.funcName ≠ none → ¬ CanWait args mode w i) : ∃ h' e',
    exec w.env h (attempts args mode.sleep invoke (n + 1) i last previousDelay) = (h', .error e') ∧
    visible h' = visible h ++ .invoked :: notes args w i := by
  obtain ⟨h₁, hnotify, -, -, hem₁, hdr₁, hv₁⟩ :=
    exec_notify hat hi hm (fun _ => ht.callback i) _ rfl
  rw [hat.draws] at hdr₁
  obtain ⟨hsu, hcatch⟩ := Bool.and_eq_true_iff.mp hm
  obtain ⟨h₂, e', hback, hv₂⟩ := exec_backOff_stuck mode ht hb hem₁ hdr₁ hwait
  refine ⟨h₂, e', ?_, hv₂.trans hv₁⟩
  rw [attempts, exec_tryElse, exec_attemptOnce_raised hat.calls hi]
  simp only
  rw [onFailure, if_neg (by simpa using hsu), if_pos hcatch, exec_bind_ok hnotify, if_neg hlast,
    exec_bind_error hback]

/-! ### The contract -/

theorem Tame.retried (ht : Tame w) (hs : settles args (w.outcome i) = false) (hname : args.funcName ≠ none)
    (hw : CanWait args mode w i) : Retried args mode w i := by
  obtain ⟨e, hi, hm⟩ := exists_of_not_settles hs
  exact ⟨e, hi, hm, fun _ => ht.callback i, hname, ht.sink _ _, hw⟩

theorem Named.of_failed (hnamed : Named args w) (hs : settles args (w.outcome 0) = false) :
    args.funcName ≠ none :=
  hnamed.resolve_left (by simp [hs])

/-- The call at the attempt `k` that settles it. -/
theorem call_settled {k : ℕ} (ht : Tame w) (hk : (k : ℤ) < args.maxAttempts)
    (hname : 0 < k → args.funcName ≠ none) (hs : settles args (w.outcome k) = true)
    (hr : ∀ j < k, Retried args mode w j) :
    visible (call args mode w).1 = story args w (k + 1) ∧
      (call args mode w).2 = (w.outcome k).result := by
  obtain ⟨h, last, previousDelay, hcall, hat, -, hv⟩ := reached hk hr
  have hn : args.maxAttempts.toNat - k = (args.maxAttempts.toNat - (k + 1)) + 1 := by omega
  obtain ⟨h', hexec, hv'⟩ := ends_settled mode (args.maxAttempts.toNat - (k + 1)) last previousDelay
    ht hat hname hs
  rw [hcall, hn, hexec, story_succ, ← hv]
  exact ⟨hv', rfl⟩

theorem specified_of_waits (hmax : 1 ≤ args.maxAttempts) (ht : Tame w) (hnamed : Named args w)
    (hw : Waits args mode w) : Specified args mode w := by
  refine ⟨fun k hk hs hfirst => ?_, fun hnone => ?_⟩
  · have hname : 0 < k → args.funcName ≠ none := fun hpos => hnamed.of_failed (hfirst 0 hpos)
    refine call_settled ht hk hname hs fun j hj => ?_
    exact ht.retried (hfirst j hj) (hname (by omega)) (hw j (by omega) fun j' hj' => hfirst j' (by omega))
  · obtain ⟨m, hm⟩ : ∃ m : ℕ, args.maxAttempts.toNat = m + 1 :=
      Nat.exists_eq_succ_of_ne_zero (by omega)
    have hlast : (m : ℤ) = args.maxAttempts - 1 := by omega
    have hname := hnamed.of_failed (hnone 0 (by omega))
    obtain ⟨e, hi, hret⟩ := exists_of_not_settles (hnone m (by omega))
    obtain ⟨h, last, previousDelay, hcall, hat, -, hv⟩ := reached (i := m) (by omega) fun j hj =>
      ht.retried (hnone j (by omega)) hname (hw j (by omega) fun j' hj' => hnone j' (by omega))
    obtain ⟨h', hexec, hv'⟩ := ends_last mode 0 last previousDelay ht hname hat hi hret hlast
    rw [hcall, hm, show m + 1 - m = 0 + 1 by omega, hexec, story_succ, ← hv]
    exact ⟨hv', e, by simpa using hi, rfl⟩

/-- A call that ends in the wait after attempt `i` breaks the contract, which tells of another attempt. -/
theorem not_specified_of_ended (hfail : ∀ j ≤ i, settles args (w.outcome j) = false)
    (hi : (i : ℤ) + 1 < args.maxAttempts) (hstory : visible (call args mode w).1 = story args w (i + 1)) :
    ¬ Specified args mode w := by
  intro hsp
  have hcount : ∀ n, visible (call args mode w).1 = story args w n → n = i + 1 := by
    intro n hn
    have := congrArg (List.count .invoked) (hn.symm.trans hstory)
    rwa [count_story, count_story] at this
  rcases first_settled_or_none args w with ⟨k, hk, hs, hmin⟩ | hnone
  · have hlt : i < k := by
      by_contra hle
      rw [hfail k (not_lt.mp hle)] at hs
      cases hs
    have := hcount _ (hsp.settled k hk hs hmin).1
    omega
  · have := hcount _ (hsp.exhausted hnone).1
    omega

/-- The call that ends in the wait after attempt `i`. -/
theorem call_waiting (ht : Tame w) (hi : (i : ℤ) + 1 < args.maxAttempts)
    (hs : settles args (w.outcome i) = false) (hr : ∀ j < i, Retried args mode w j)
    (hwait : args.funcName ≠ none → ¬ CanWait args mode w i) :
    visible (call args mode w).1 = story args w (i + 1) := by
  obtain ⟨e, hout, hret⟩ := exists_of_not_settles hs
  obtain ⟨h, last, previousDelay, hcall, hat, hb, hv⟩ := reached (i := i) (by omega) hr
  have hn : args.maxAttempts.toNat - i = (args.maxAttempts.toNat - (i + 1)) + 1 := by omega
  obtain ⟨h', e', hexec, hv'⟩ := ends_waiting mode (args.maxAttempts.toNat - (i + 1)) last
    previousDelay ht hat hb hout hret (by omega) hwait
  rw [hcall, hn, hexec, story_succ, ← hv]
  exact hv'

theorem named_of_specified (hmax : 1 ≤ args.maxAttempts) (ht : Tame w)
    (hfresh : args.funcName = none → w.outcome 0 ≠ .raised noName) (hsp : Specified args mode w) :
    Named args w := by
  by_contra hnot
  obtain ⟨hs, hname⟩ := not_or.mp hnot
  have hname : args.funcName = none := not_not.mp hname
  have hs : settles args (w.outcome 0) = false := by simpa using hs
  by_cases hone : args.maxAttempts = 1
  · have hnone : ∀ j : ℕ, (j : ℤ) < args.maxAttempts → settles args (w.outcome j) = false := by
      intro j hj
      obtain rfl : j = 0 := by omega
      exact hs
    obtain ⟨-, e, he, hres⟩ := hsp.exhausted hnone
    obtain ⟨e', hout, hret⟩ := exists_of_not_settles hs
    obtain ⟨h, last, previousDelay, hcall, hat, -, -⟩ :=
      reached (by omega : ((0 : ℕ) : ℤ) < args.maxAttempts) (by simp : ∀ j < 0, Retried args mode w j)
    have hend := ends_nameless mode 0 last previousDelay ht hname hat hout hret (by omega)
    rw [hcall, hone] at hres
    rw [hone] at he
    have hres' := hend.symm.trans hres
    split_ifs at hres'
    · obtain rfl : noName = e := Except.error.inj hres'
      exact hfresh hname he
  · refine not_specified_of_ended (i := 0) (fun j hj => ?_) (by omega) ?_ hsp
    · obtain rfl : j = 0 := by omega
      exact hs
    · exact call_waiting ht (by omega) hs (by simp) fun h => absurd hname h

/-- The first delay in the way ends the call early. -/
theorem waits_of_specified (ht : Tame w) (hnamed : Named args w) (hsp : Specified args mode w) :
    Waits args mode w := by
  intro i
  induction i using Nat.strong_induction_on with
  | _ i ih =>
    intro hi hfail
    by_contra hwait
    have hname := hnamed.of_failed (hfail 0 (by omega))
    refine not_specified_of_ended hfail hi ?_ hsp
    refine call_waiting ht hi (hfail i le_rfl) (fun j hj => ?_) fun _ => hwait
    exact ht.retried (hfail j (by omega)) hname (ih j hj (by omega) fun j' hj' => hfail j' (by omega))

theorem CanWait.async (hw : CanWait args .sync w i) : CanWait args .async w i := by
  obtain ⟨d, hd, hdue⟩ := hw
  exact ⟨d, hd, asyncioDue_of_timeDue hdue⟩

/-- While metrics are silent and callbacks raise at most an `Exception`: either wrapper keeps the
contract exactly when every delay that the failures come to can be computed and slept and the function has a
name if it fails; and where the one of a plain function keeps it the two do the same.  The error for a missing
name is an object of its own. -/
theorem retry_contract (args : RetryArgs) (w : Scenario (Option V)) (hmax : 1 ≤ args.maxAttempts)
    (ht : Tame w) (hfresh : args.funcName = none → w.outcome 0 ≠ .raised noName) :
    (∀ mode, Specified args mode w ↔ Waits args mode w ∧ Named args w) ∧
    (Waits args .sync w ∧ Named args w → visible (call args .async w).1 = visible (call args .sync w).1 ∧
      (call args .async w).2 = (call args .sync w).2) := by
  refine ⟨fun mode => ⟨fun hsp => ?_, fun ⟨hw, hnamed⟩ => specified_of_waits hmax ht hnamed hw⟩,
    fun ⟨hw, hnamed⟩ => ?_⟩
  · have hnamed := named_of_specified hmax ht hfresh hsp
    exact ⟨waits_of_specified ht hnamed hsp, hnamed⟩
  have hsync := specified_of_waits hmax ht hnamed hw
  have hwa : Waits args .async w := fun i hi hfail => (hw i hi hfail).async
  have hasync := specified_of_waits hmax ht hnamed hwa
  rcases first_settled_or_none args w with ⟨k, hk, hs, hmin⟩ | hnone
  · obtain ⟨hv, hr⟩ := hsync.settled k hk hs hmin
    obtain ⟨hv', hr'⟩ := hasync.settled k hk hs hmin
    exact ⟨hv'.trans hv.symm, hr'.trans hr.symm⟩
  · obtain ⟨hv, e, he, hr⟩ := hsync.exhausted hnone
    obtain ⟨hv', e', he', hr'⟩ := hasync.exhausted hnone
    obtain rfl : e = e' := by
      rw [he] at he'
      exact Outcome.raised.inj he'
    exact ⟨hv'.trans hv.symm, hr'.trans hr.symm⟩

theorem retry_contract_second_attempt :
    let args : RetryArgs := { maxAttempts := 2, onError := true }
    let w : Scenario (Option ℕ) :=
      { outcome := fun n => if n = 0 then .raised ⟨.transientError, 0⟩ else .returned (some 7) }
    (call args .async w).2 = .ok (some 7) ∧ (call args .sync w).2 = .ok (some 7) ∧
      visible (call args .async w).1 =
        [.invoked, .notified ⟨.transientError, 0⟩ 1, .slept, .invoked] := by
  intro args w
  have hwaits : Waits args .sync w := by
    intro i hi _
    have hi' : (i : ℤ) + 1 < 2 := hi
    obtain rfl : i = 0 := by omega
    exact ⟨.float 1, by decide +kernel, by decide +kernel⟩
  have hnamed : Named args w := .inr (by decide)
  have hcontract := retry_contract args w (by decide) ⟨fun _ _ => rfl, fun _ => rfl⟩ fun h => absurd h (by decide)
  obtain ⟨hv, hr⟩ := ((hcontract.1 .sync).mpr ⟨hwaits, hnamed⟩).settled 1 (by decide) (by decide)
    (by decide +kernel)
  obtain ⟨hsame, hres⟩ := hcontract.2 ⟨hwaits, hnamed⟩
  exact ⟨hres.trans hr, hr, hsame.trans (hv.trans (by decide +kernel))⟩

/-- The 1025th failure in the mode `"none"` ends the call with an `OverflowError`, one attempt early:
`2.0 ** 1024` is out of the range of a float. -/
theorem backoff_overflows :
    let args : RetryArgs := { maxAttempts := 1026, jitter := "none" }
    let w : Scenario (Option ℕ) := { outcome := fun _ => .raised ⟨.transientError, 0⟩ }
    ¬ Specified args .async w ∧ ¬ Specified args .sync w := by
  intro args w
  have hbad : ∀ mode, ¬ CanWait args mode w 1024 := by
    rintro mode ⟨d, hd, -⟩
    have hpow : (PyNum.float 2).pow 1024 = .error ⟨.overflowError, 0⟩ := by
      rw [PyNum.pow, if_pos]
      rw [floatLimit, abs_of_nonneg (by positivity)]
      exact sub_le_self _ (by positivity)
    have hlast : ∀ k previousDelay u, k = 1024 →
        delayFor args k previousDelay u = .error ⟨.overflowError, 0⟩ := by
      rintro k previousDelay u rfl
      rw [delayFor, if_pos rfl, exponentialBackoff, hpow]
      rfl
    rw [Scenario.delay] at hd
    cases hprev : w.delay args 1023 with
    | error e =>
      rw [hprev] at hd
      cases hd
    | ok previousDelay =>
      rw [hprev] at hd
      dsimp only [bind, Except.bind] at hd
      rw [hlast _ _ _ rfl] at hd
      cases hd
  have htame : Tame w := ⟨fun _ _ => rfl, fun _ => rfl⟩
  have hnamed : Named args w := .inr (by decide)
  have hretry : settles args (.raised ⟨.transientError, 0⟩ : Outcome (Option ℕ)) = false := by decide
  have hfails : ∀ mode, ¬ Specified args mode w := by
    intro mode hsp
    apply hbad mode
    apply waits_of_specified htame hnamed hsp
    · decide
    · intro j _
      exact hretry
  exact ⟨hfails .async, hfails .sync⟩

end ResilienceKit.Retry

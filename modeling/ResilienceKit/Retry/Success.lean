import ResilienceKit.Retry.Contract

/-!
# Retry.Success — a success ends the call, unless the metrics sink raises

`retry.success` is emitted inside the `try` of the loop, so what the sink raises there is taken for a
failure of the function, which has returned already.  `ReturnsOnce` is the law that a success is final;
it holds exactly when no such emission raises (`Undisturbed`).
-/

namespace ResilienceKit.Retry

open Program Code Py

variable {V : Type} (args : RetryArgs) (mode : Mode) (w : Scenario (Option V))

/-- Once an invocation has returned `v` there is no other, and the call returns `v`. -/
def ReturnsOnce (r : History (Option V) × Except PyExc (Option V)) : Prop :=
  ∀ i v, i < calls r.1 → w.outcome i = .returned v → calls r.1 = i + 1 ∧ r.2 = .ok v

/-- The last attempt returns `None`, the sink raises, and the loop returns `None` as for a failure. -/
def Swallowed (i : ℕ) (v : Option V) : Prop :=
  v = none ∧ (i : ℤ) = args.maxAttempts - 1 ∧ args.raiseOnFailure = false ∧
    w.sink (i + 1) "retry.exhausted" = none ∧
    ∃ e, w.sink i "retry.success" = some e ∧ retryable args e = true ∧
      (args.onError = true → suppressed (w.callback i) = .ok ())

/-- The emission after the success of attempt `i` does no harm. -/
def Undisturbed (i : ℕ) (v : Option V) : Prop :=
  i = 0 ∨ w.sink i "retry.success" = none ∨ Swallowed args w i v

variable {args mode w} {h : History (Option V)} {i : ℕ}

/-! ### One attempt under any metrics sink -/

/-- What a failure can lead to: an end without another invocation, or the next attempt. -/
inductive Handled (args : RetryArgs) (env : Env (Answer (Option V)))
    (sleep : PyNum → Py (Option V) Unit) (h : History (Option V)) (exc : PyExc) (i : ℕ)
    (previousDelay : PyNum) (again : PyNum → Py (Option V) (Option V))
    (r : History (Option V) × Except PyExc (Option V)) : Prop
  | raised (e : PyExc) (hc : calls r.1 = calls h) (hr : r.2 = .error e)
  | last (h' : History (Option V)) (hm : retryable args exc = true)
      (hn : exec env h (notify args exc i) = (h', .ok ())) (hl : (i : ℤ) = args.maxAttempts - 1)
      (hr : r = exec env h' (afterLoop args (some exc)))
  | again (h₁ h₂ : History (Option V)) (d : PyNum) (hm : retryable args exc = true)
      (hn : exec env h (notify args exc i) = (h₁, .ok ())) (hl : (i : ℤ) ≠ args.maxAttempts - 1)
      (hb : exec env h₁ (backOff args sleep i previousDelay) = (h₂, .ok d))
      (hr : r = exec env h₂ (again d))

theorem handled (args : RetryArgs) (env : Env (Answer (Option V))) {sleep : PyNum → Py (Option V) Unit}
    (hs : ∀ d, Aside (sleep d)) (h : History (Option V)) (exc : PyExc) (i : ℕ) (previousDelay : PyNum)
    (again : PyNum → Py (Option V) (Option V)) :
    Handled args env sleep h exc i previousDelay again
      (exec env h (onFailure args sleep i previousDelay exc again)) := by
  unfold onFailure
  by_cases hsu : isinstance exc .serviceUnavailableError = true
  · rw [if_pos hsu]
    exact .raised exc rfl rfl
  rw [if_neg hsu]
  by_cases hc : catches (filterRetryOn args.exceptions) exc = true
  · have hm : retryable args exc = true := by simp [retryable, hsu, hc]
    rw [if_pos hc]
    have hcalls : calls (exec env h (notify args exc i)).1 = calls h :=
      aside_calls (aside_notify exc i) env h
    rcases hn : exec env h (notify args exc i) with ⟨h₁, e | _⟩
    · rw [hn] at hcalls
      rw [exec_bind_error hn]
      exact .raised e hcalls rfl
    · rw [exec_bind_ok hn]
      rw [hn] at hcalls
      by_cases hl : (i : ℤ) = args.maxAttempts - 1
      · rw [if_pos hl]
        exact .last h₁ hm hn hl rfl
      · rw [if_neg hl]
        have hcalls' : calls (exec env h₁ (backOff args sleep i previousDelay)).1 = calls h₁ :=
          aside_calls (aside_backOff hs i previousDelay) env h₁
        rcases hb : exec env h₁ (backOff args sleep i previousDelay) with ⟨h₂, e | d⟩
        · rw [hb] at hcalls'
          rw [exec_bind_error hb]
          exact .raised e (hcalls'.trans hcalls) rfl
        · rw [exec_bind_ok hb]
          exact .again h₁ h₂ d hm hn hl hb rfl
  · rw [if_neg hc]
    exact .raised exc rfl rfl

theorem callback_of_notify {e : PyExc} {h₁ : History (Option V)}
    (hc : args.onError = true → callbacks h = i)
    (hn : exec w.env h (notify args e i) = (h₁, .ok ())) :
    args.onError = true → suppressed (w.callback i) = .ok () := by
  intro ho
  rw [exec_notify_eq e hc, if_pos ho] at hn
  exact congrArg Prod.snd hn

/-- An attempt after whose failure the loop goes on was retried. -/
theorem retried_of_backOff {e : PyExc} {h₁ h₂ : History (Option V)} {previousDelay d : PyNum}
    (hat : At args i h) (hb : Before args w i previousDelay) (hi : w.outcome i = .raised e)
    (hm : retryable args e = true)
    (hn : exec w.env (h ++ [⟨.invoke, w.outcome i⟩]) (notify args e i) = (h₁, .ok ()))
    (hback : exec w.env h₁ (backOff args mode.sleep i previousDelay) = (h₂, .ok d)) :
    Retried args mode w i := by
  have hcb := callback_of_notify (fun ho => by simp [hat.callbacks, ho]) hn
  obtain ⟨h', hn', -, -, hem, hdr, -⟩ := exec_notify hat hi hm hcb _ rfl
  obtain rfl : h' = h₁ := congrArg Prod.fst (hn'.symm.trans hn)
  rw [hat.draws] at hdr
  obtain ⟨h₃, hexec, hh₃, -⟩ := exec_nextDelay args w h' i previousDelay
  have hu : delayFor args i previousDelay (w.draw (draws h')) = w.delay args i := by
    rw [hb.delay]
    by_cases hj : args.jitter = "none"
    · simp [delayFor, hj]
    · rw [hdr, if_neg hj]
  rw [hu] at hexec
  have hem₃ : emissions h₃ = i := by
    rcases hh₃ with rfl | rfl <;> simp [hem]
  cases hd : w.delay args i with
  | error e' =>
    rw [hd] at hexec
    rw [backOff, exec_bind_error hexec] at hback
    cases hback
  | ok d' =>
    rw [hd] at hexec
    rw [backOff, exec_bind_ok hexec] at hback
    by_cases hname : args.funcName = none
    · rw [exec_bind_error (exec_count_nameless _ _ _ hname)] at hback
      cases hback
    cases hs : w.sink i "retry.attempt" with
    | some e' =>
      obtain ⟨tags, hcount⟩ := exec_count_raises "retry.attempt" "attempt" (toString (i + 1)) hname hem₃ hs
      rw [exec_bind_error hcount] at hback
      cases hback
    | none =>
      obtain ⟨tags, hcount⟩ := exec_count_silent "retry.attempt" "attempt" (toString (i + 1)) hname hem₃ hs
      rw [exec_bind_ok hcount, mode.sleep_eq] at hback
      cases hdue : mode.due d' with
      | ok _ => exact ⟨e, hi, hm, hcb, hname, hs, d', hd, hdue⟩
      | error e' =>
        rw [exec_bind_error (exec_sleepFor_error hdue d')] at hback
        cases hback

/-- A success that is counted without harm. -/
theorem exec_attemptOnce_returned {v : Option V} (hat : At args i h) (hi : w.outcome i = .returned v)
    (hname : 0 < i → args.funcName ≠ none) (hq : i = 0 ∨ w.sink i "retry.success" = none) : ∃ h',
    exec w.env h (attemptOnce args invoke i) = (h', .ok v) ∧ calls h' = i + 1 := by
  have hinv : exec w.env h (invoke : Py (Option V) (Option V)) =
      (h ++ [⟨.invoke, w.outcome i⟩], .ok v) := by
    rw [exec_invoke_env hat.calls, hi]
    rfl
  rw [attemptOnce, exec_bind_ok hinv, countSuccess]
  split_ifs with hpos
  · have hs : w.sink i "retry.success" = none := hq.resolve_left (by omega)
    obtain ⟨tags, hcount⟩ := exec_count_silent (h := h ++ [⟨.invoke, w.outcome i⟩]) (i := i) "retry.success"
      "attempt" (toString (i + 1)) (hname hpos) (by simp [hat.emissions]) hs
    rw [exec_bind_ok hcount]
    exact ⟨_, rfl, by simp [hat.calls]⟩
  · exact ⟨_, rfl, by simp [hat.calls]⟩

/-- A success whose emission raises looks like a failure. -/
theorem exec_attemptOnce_disturbed {v : Option V} {e : PyExc} (hat : At args i h)
    (hi : w.outcome i = .returned v) (hpos : 0 < i) (hname : args.funcName ≠ none)
    (hs : w.sink i "retry.success" = some e) : ∃ h',
    exec w.env h (attemptOnce args invoke i) = (h', .error e) ∧ calls h' = i + 1 ∧
      callbacks h' = callbacks h ∧ emissions h' = i + 1 := by
  have hinv : exec w.env h (invoke : Py (Option V) (Option V)) =
      (h ++ [⟨.invoke, w.outcome i⟩], .ok v) := by
    rw [exec_invoke_env hat.calls, hi]
    rfl
  obtain ⟨tags, hcount⟩ := exec_count_raises (h := h ++ [⟨.invoke, w.outcome i⟩]) (i := i) "retry.success"
    "attempt" (toString (i + 1)) hname (by simp [hat.emissions]) hs
  rw [attemptOnce, exec_bind_ok hinv, countSuccess, if_pos hpos, exec_bind_error hcount]
  exact ⟨_, rfl, by simp [hat.calls], by simp, by simp [hat.emissions]⟩

/-! ### What is returned -/

theorem lastSeen_aside {α : Type} {x : Py V α} (hx : Aside x) (env : Env (Answer V)) (h : History V) :
    lastSeen Ask.outcome? (exec env h x).1 = lastSeen Ask.outcome? h := by
  refine (hx.mono fun q hq a => ?_).lastSeen_eq env h
  cases q <;> first | rfl | cases hq

/-- After a failure the end of the wrapper raises. -/
theorem exec_afterLoop_raises (hraise : args.raiseOnFailure = true) (env : Env (Answer (Option V))) (e : PyExc)
    {h' : History (Option V)} {v : Option V} : exec env h (afterLoop args (some e)) ≠ (h', .ok v) := by
  intro hexec
  rw [afterLoop] at hexec
  rcases hc : exec env h (count args "retry.exhausted" "attempts" (toString args.maxAttempts)) with ⟨h₁, e' | _⟩
  · rw [exec_bind_error hc] at hexec
    cases congrArg Prod.snd hexec
  · rw [exec_bind_ok hc] at hexec
    simp only [hraise, if_true, exec_throw] at hexec
    cases congrArg Prod.snd hexec

/-- Where failures are raised, what is returned is what the last invocation returned. -/
theorem lastSeen_attempts (hraise : args.raiseOnFailure = true) {env : Env (Answer (Option V))}
    {sleep : PyNum → Py (Option V) Unit} (hs : ∀ d, Aside (sleep d)) (n attempt : ℕ) (lastExc : Option PyExc)
    (previousDelay : PyNum) (hlast : n = 0 → lastExc ≠ none) {h' : History (Option V)} {v : Option V}
    (hexec : exec env h (attempts args sleep invoke n attempt lastExc previousDelay) = (h', .ok v)) :
    lastSeen Ask.outcome? h' = some (.returned v) := by
  induction n generalizing attempt lastExc previousDelay h with
  | zero =>
    obtain ⟨e, rfl⟩ := Option.ne_none_iff_exists'.mp (hlast rfl)
    exact absurd hexec (exec_afterLoop_raises hraise env e)
  | succ n ih =>
    rw [attempts, exec_tryElse] at hexec
    rcases honce : exec env h (attemptOnce args invoke attempt) with ⟨h₁, e | v'⟩
    · rw [honce] at hexec
      rcases handled args env hs h₁ e attempt previousDelay
        (fun delay => attempts args sleep invoke n (attempt + 1) (some e) delay) with
        ⟨e', -, hr⟩ | ⟨h₂, -, -, -, hr⟩ | ⟨h₂, h₃, d, -, -, -, -, hr⟩
      · cases hr.symm.trans (congrArg Prod.snd hexec)
      · exact absurd (hr.symm.trans hexec) (exec_afterLoop_raises hraise env e)
      · exact ih (attempt + 1) (some e) d (fun _ => Option.some_ne_none e) (hr.symm.trans hexec)
    · rw [honce] at hexec
      cases hexec
      rw [attemptOnce, exec_bind, exec_invoke] at honce
      cases ho : env h .invoke with
      | raised e =>
        rw [ho] at honce
        cases congrArg Prod.snd honce
      | returned v' =>
        rw [ho] at honce
        dsimp only [Outcome.result] at honce
        have haside : Aside (countSuccess args attempt : Py (Option V) Unit) := aside_countSuccess attempt
        have hcount := lastSeen_aside haside env (h ++ [⟨.invoke, .returned v'⟩])
        rcases hc : exec env (h ++ [⟨.invoke, .returned v'⟩]) (countSuccess args attempt) with ⟨h₂, e | _⟩
        · rw [exec_bind_error hc] at honce
          cases congrArg Prod.snd honce
        · rw [exec_bind_ok hc] at honce
          rw [hc, lastSeen_concat] at hcount
          cases honce
          exact hcount

/-! ### The law -/

/-- Without a success there is nothing to repeat. -/
theorem returnsOnce_of_failures {r : History (Option V) × Except PyExc (Option V)} {n : ℕ}
    (hc : calls r.1 = n) (hf : ∀ k < n, ∀ v, w.outcome k ≠ .returned v) : ReturnsOnce w r := by
  intro k v hk hv
  exact absurd hv (hf k (hc ▸ hk) v)

/-- The first success ends the loop when its emission does no harm. -/
theorem returnsOnce_success (n : ℕ) (last : Option PyExc) (previousDelay : PyNum) {v : Option V}
    (hat : At args i h) (hname : 0 < i → args.funcName ≠ none) (hpast : ∀ k < i, ∀ v, w.outcome k ≠ .returned v)
    (ho : w.outcome i = .returned v) (hu : Undisturbed args w i v) :
    ReturnsOnce w (exec w.env h (attempts args mode.sleep invoke (n + 1) i last previousDelay)) := by
  obtain ⟨h', hexec, hc⟩ : ∃ h',
      exec w.env h (attempts args mode.sleep invoke (n + 1) i last previousDelay) = (h', .ok v) ∧
      calls h' = i + 1 := by
    rw [attempts, exec_tryElse]
    by_cases hq : i = 0 ∨ w.sink i "retry.success" = none
    · obtain ⟨h', hexec, hc⟩ := exec_attemptOnce_returned hat ho hname hq
      rw [hexec]
      exact ⟨h', rfl, hc⟩
    · obtain ⟨hpos, hsome⟩ := not_or.mp hq
      obtain ⟨rfl, hl, hret, hsink, e, hs, hm, hcb⟩ := (hu.resolve_left hpos).resolve_left hsome
      obtain ⟨h', hexec, hc, hcbs, hem⟩ :=
        exec_attemptOnce_disturbed hat ho (Nat.pos_of_ne_zero hpos) (hname (Nat.pos_of_ne_zero hpos)) hs
      obtain ⟨hsu, hcatch⟩ := Bool.and_eq_true_iff.mp hm
      obtain ⟨h₁, hn, hc₁, hem₁⟩ : ∃ h₁, exec w.env h' (notify args e i) = (h₁, .ok ()) ∧
          calls h₁ = i + 1 ∧ emissions h₁ = i + 1 := by
        rw [exec_notify_eq e fun hon => by rw [hcbs, hat.callbacks, if_pos hon]]
        split_ifs with hon
        · exact ⟨_, by rw [hcb hon], by simp [hc], by simp [hem]⟩
        · exact ⟨h', rfl, hc, hem⟩
      obtain ⟨tags, hcount⟩ := exec_count_silent "retry.exhausted" "attempts" (toString args.maxAttempts)
        (hname (Nat.pos_of_ne_zero hpos)) hem₁ hsink
      rw [hexec]
      simp only
      rw [onFailure, if_neg (by simpa using hsu), if_pos hcatch, exec_bind_ok hn, if_pos hl, afterLoop,
        exec_bind_ok hcount, hret]
      exact ⟨_, rfl, by simp [hc₁]⟩
  rw [hexec]
  rintro k v' hk hv'
  rcases Nat.lt_succ_iff_lt_or_eq.mp (hc ▸ hk) with hk | rfl
  · exact absurd hv' (hpast k hk v')
  · obtain rfl : v = v' := Outcome.returned.inj (ho.symm.trans hv')
    exact ⟨hc, rfl⟩

/-- **Loop lemma**: while emissions after a success do no harm, a success is final. -/
theorem returnsOnce_attempts (n i : ℕ) (h : History (Option V)) (last : Option PyExc)
    (previousDelay : PyNum) (hn : args.maxAttempts.toNat - i = n) (hat : At args i h)
    (hb : Before args w i previousDelay) (hr : ∀ j < i, Retried args mode w j)
    (hu : ∀ (k : ℕ) v, (k : ℤ) < args.maxAttempts → (∀ j < k, Retried args mode w j) →
      w.outcome k = .returned v → Undisturbed args w k v) :
    ReturnsOnce w (exec w.env h (attempts args mode.sleep invoke n i last previousDelay)) := by
  have hpast : ∀ k < i, ∀ v, w.outcome k ≠ .returned v := by
    intro k hk v hv
    obtain ⟨e, hraised, -⟩ := hr k hk
    cases hv.symm.trans hraised
  induction n generalizing i h last previousDelay with
  | zero =>
    refine returnsOnce_of_failures ?_ hpast
    rw [attempts, aside_calls (aside_afterLoop last) w.env, hat.calls]
  | succ n ih =>
    have hlt : (i : ℤ) < args.maxAttempts := by omega
    cases ho : w.outcome i with
    | returned v =>
      exact returnsOnce_success n last previousDelay hat (fun hpos => (hr 0 hpos).named) hpast ho (hu i v hlt hr ho)
    | raised e =>
      have hnow : ∀ k < i + 1, ∀ v, w.outcome k ≠ .returned v := by
        intro k hk v hv
        rcases Nat.lt_succ_iff_lt_or_eq.mp hk with hk | rfl
        · exact hpast k hk v hv
        · cases hv.symm.trans ho
      have hcalls : calls (h ++ [⟨.invoke, w.outcome i⟩]) = i + 1 := by simp [hat.calls]
      have hrun : exec w.env h (attempts args mode.sleep invoke (n + 1) i last previousDelay) =
          exec w.env (h ++ [⟨.invoke, w.outcome i⟩]) (onFailure args mode.sleep i previousDelay e
            fun d => attempts args mode.sleep invoke n (i + 1) (some e) d) := by
        rw [attempts, exec_tryElse, exec_attemptOnce_raised hat.calls ho]
      rcases handled args w.env mode.aside_sleep (h ++ [⟨.invoke, w.outcome i⟩]) e i
        previousDelay (fun d => attempts args mode.sleep invoke n (i + 1) (some e) d) with
        ⟨e', hc, -⟩ | ⟨h', hm, hnot, hl, hres⟩ | ⟨h₁, h₂, d, hm, hnot, hl, hback, -⟩
      · rw [hrun]
        exact returnsOnce_of_failures (hc.trans hcalls) hnow
      · have hc' : calls h' = i + 1 := by
          have hside : Aside (notify (V := Option V) args e i) := aside_notify e i
          have hsame := aside_calls hside w.env (h ++ [⟨.invoke, w.outcome i⟩])
          rw [hnot] at hsame
          exact hsame.trans hcalls
        rw [hrun, hres]
        refine returnsOnce_of_failures ?_ hnow
        rw [aside_calls (aside_afterLoop (some e)) w.env, hc']
      · have hnow' : Retried args mode w i := retried_of_backOff hat hb ho hm hnot hback
        obtain ⟨h', e', d', hexec, hat', hb', -⟩ := exec_retried n last hat hb hnow' hl
        rw [hexec]
        refine ih (i + 1) h' (some e') d' (by omega) hat' hb' (fun j hj => ?_) hnow
        rcases Nat.lt_succ_iff_lt_or_eq.mp hj with hj | rfl
        · exact hr j hj
        · exact hnow'

/-- Only a swallowed failure makes the end of the wrapper return, and then it returns `None`. -/
theorem afterLoop_returned {e : PyExc} {v : Option V} {h' : History (Option V)} (hname : args.funcName ≠ none)
    (hem : emissions h = i) (hexec : exec w.env h (afterLoop args (some e)) = (h', .ok v)) :
    w.sink i "retry.exhausted" = none ∧ args.raiseOnFailure = false ∧ v = none := by
  rw [afterLoop] at hexec
  cases hs : w.sink i "retry.exhausted" with
  | some e' =>
    obtain ⟨tags, hcount⟩ := exec_count_raises "retry.exhausted" "attempts" (toString args.maxAttempts) hname hem hs
    rw [exec_bind_error hcount] at hexec
    cases hexec
  | none =>
    obtain ⟨tags, hcount⟩ := exec_count_silent "retry.exhausted" "attempts" (toString args.maxAttempts) hname hem hs
    rw [exec_bind_ok hcount] at hexec
    cases hret : args.raiseOnFailure with
    | true =>
      simp only [hret, if_true] at hexec
      cases hexec
    | false =>
      simp only [hret] at hexec
      cases hexec
      exact ⟨rfl, rfl, rfl⟩

/-- A success whose emission does harm is not final. -/
theorem undisturbed_of_returnsOnce {v : Option V} (hi : (i : ℤ) < args.maxAttempts)
    (hr : ∀ j < i, Retried args mode w j) (ho : w.outcome i = .returned v)
    (honce : ReturnsOnce w (call args mode w)) : Undisturbed args w i v := by
  rcases Nat.eq_zero_or_pos i with hzero | hpos
  · exact .inl hzero
  cases hs : w.sink i "retry.success" with
  | none => exact .inr (.inl hs)
  | some e =>
    refine .inr (.inr ?_)
    obtain ⟨h, last, previousDelay, hcall, hat, -, -⟩ := reached hi hr
    obtain ⟨h', hexec, hc, hcbs, hem⟩ := exec_attemptOnce_disturbed hat ho hpos (hr 0 hpos).named hs
    have hn : args.maxAttempts.toNat - i = (args.maxAttempts.toNat - (i + 1)) + 1 := by omega
    obtain ⟨again, hagain⟩ : ∃ again, again = fun d => attempts args mode.sleep invoke
        (args.maxAttempts.toNat - (i + 1)) (i + 1) (some e) d := ⟨_, rfl⟩
    have hrun : call args mode w =
        exec w.env h' (onFailure args mode.sleep i previousDelay e again) := by
      rw [hcall, hn, attempts, exec_tryElse, hexec, hagain]
    have hle : calls h' ≤ calls (call args mode w).1 := by
      rw [hrun]
      exact asked_le Ask.isInvoke (prefix_exec _)
    obtain ⟨hcalls, hres⟩ := honce i v (by omega) ho
    rw [hrun] at hcalls hres
    rcases handled args w.env mode.aside_sleep h' e i previousDelay again with
      ⟨e', -, hraise⟩ | ⟨h₁, hm, hnot, hl, hlast⟩ | ⟨h₁, h₂, d, -, hnot, hl, hback, hnext⟩
    · cases hraise.symm.trans hres
    · have hon : args.onError = true → callbacks h' = i := by
        intro hon
        rw [hcbs, hat.callbacks, if_pos hon]
      have hem₁ : emissions h₁ = i + 1 := by
        rw [exec_notify_eq e hon] at hnot
        split_ifs at hnot with honerr
        · obtain rfl := congrArg Prod.fst hnot
          simp [hem]
        · obtain rfl := congrArg Prod.fst hnot
          exact hem
      obtain ⟨hsink, hret, rfl⟩ := afterLoop_returned (v := v) (hr 0 hpos).named hem₁ (Prod.ext rfl (hlast ▸ hres))
      exact ⟨rfl, hl, hret, hsink, e, hs, hm, callback_of_notify hon hnot⟩
    · exfalso
      have hmore : ∃ m, args.maxAttempts.toNat - (i + 1) = m + 1 :=
        Nat.exists_eq_succ_of_ne_zero (by omega)
      obtain ⟨m, hm⟩ := hmore
      have hlt : calls h₂ < calls (exec w.env h₂ (again d)).1 := by
        rw [hagain, hm]
        exact calls_lt_attempts m (i + 1) (some e) d h₂
      have hp : h' <+: h₂ := (prefix_of_exec hnot).trans (prefix_of_exec hback)
      have hle₂ : calls h' ≤ calls h₂ := asked_le Ask.isInvoke hp
      rw [hnext] at hcalls
      omega

/-- A success is final exactly when no emission after the success of an attempt that can be reached does
harm, whatever the sink and the callbacks do elsewhere. -/
theorem success_final_iff (args : RetryArgs) (mode : Mode) (w : Scenario (Option V)) :
    ReturnsOnce w (call args mode w) ↔
      ∀ (i : ℕ) v, (i : ℤ) < args.maxAttempts → (∀ j < i, Retried args mode w j) →
        w.outcome i = .returned v → Undisturbed args w i v := by
  constructor
  · intro honce i v hi hr ho
    exact undisturbed_of_returnsOnce hi hr ho honce
  · intro hu
    have hcall : call args mode w = exec w.env []
        (attempts args mode.sleep invoke args.maxAttempts.toNat 0 none args.baseDelay) := by
      cases mode <;> rfl
    rw [hcall]
    refine returnsOnce_attempts args.maxAttempts.toNat 0 [] none args.baseDelay rfl ?_ rfl ?_ hu
    · exact ⟨rfl, by simp, rfl, by simp⟩
    · intro j hj
      omega

/-- The second attempt succeeds, the sink raises a `ValueError` on its `retry.success`, and the function
runs a third time. -/
theorem success_repeated :
    let w : Scenario (Option ℕ) := {
      outcome := fun n => if n = 0 then .raised ⟨.transientError, 0⟩ else .returned (some n)
      sink := fun n name => if name = "retry.success" ∧ n = 1 then some ⟨.valueError, 1⟩ else none }
    ∀ mode, calls (call {} mode w).1 = 3 ∧ ¬ ReturnsOnce w (call {} mode w) := by
  intro w mode
  have hcalls : calls (call {} mode w).1 = 3 := by
    cases mode <;> decide +kernel
  refine ⟨hcalls, fun honce => ?_⟩
  have htwice := (honce 1 (some 1) (by omega) rfl).1
  omega

end ResilienceKit.Retry

import ResilienceKit.Lib.Ensures
import ResilienceKit.Registry
import ResilienceKit.Retry.Runs

/-!
# Retry.Repeats — the failures after which the function is called again

`retry_on` comes from the registry.  After a failure that the loop does not retry there is no further call; what
the loop retries is what the list says, unless the list is empty.
-/

namespace ResilienceKit.Retry

open Program Code Py

variable {V : Type}

/-- The function raised `e` in a call that is not the last. -/
def Again (h : History (Option V)) (e : PyExc) : Prop :=
  ∃ p q, h = p ++ ⟨.invoke, .raised e⟩ :: q ∧ 0 < calls q

/-- Each failure before the last call is one of these, and none that the breaker has raised. -/
def Honoured (classes : List PyClass) (h : History (Option V)) : Prop :=
  ∀ e, Again h e → catches classes e = true ∧ isinstance e .serviceUnavailableError = false

/-! ### The loop -/

section Loop

variable {args : RetryArgs} {h : History (Option V)}

/-- All failures are retried. -/
def Tried (args : RetryArgs) (h : History (Option V)) : Prop :=
  ∀ e, ⟨.invoke, .raised e⟩ ∈ h → retryable args e = true

/-- All failures before the last call are retried. -/
def Repeats (args : RetryArgs) (h : History (Option V)) : Prop := ∀ e, Again h e → retryable args e = true

theorem Tried.repeats (ht : Tried args h) : Repeats args h := by
  rintro e ⟨p, q, rfl, -⟩
  exact ht e (List.mem_append_right p List.mem_cons_self)

theorem Tried.aside (ht : Tried args h) {q : Ask} (hq : q.isAside = true) (a : Answer (Option V) q) :
    Tried args (h ++ [⟨q, a⟩]) := by
  intro e he
  obtain he | he := List.mem_append.mp he
  · exact ht e he
  · cases List.mem_singleton.mp he
    cases hq

theorem Tried.invoke (ht : Tried args h) (o : Outcome (Option V)) : Repeats args (h ++ [⟨.invoke, o⟩]) := by
  rintro e ⟨p, q, hsplit, hq⟩
  obtain ⟨rfl, -, -⟩ | ⟨q', rfl, rfl⟩ := split_concat hsplit
  · simp at hq
  · exact ht e (List.mem_append_right p List.mem_cons_self)

/-- A call that returned, or raised what is retried. -/
theorem Tried.concat (ht : Tried args h) {o : Outcome (Option V)}
    (ho : ∀ e, o = .raised e → retryable args e = true) : Tried args (h ++ [⟨.invoke, o⟩]) := by
  intro e he
  obtain he | he := List.mem_append.mp he
  · exact ht e he
  · cases List.mem_singleton.mp he
    exact ho e rfl

theorem ensures_tried {α : Type} {x : Py (Option V) α} (hx : Aside x) (ht : Tried args h) :
    Ensures (fun h _ => Tried args h) h x :=
  Asks.ensures hx (fun _ _ a hq ht => ht.aside hq a) ht

theorem repeats_onFailure {sleep : PyNum → Py (Option V) Unit} (hs : ∀ d, Aside (sleep d)) (attempt : ℕ)
    (previousDelay : PyNum) {e : PyExc} {again : PyNum → Py (Option V) (Option V)}
    (hagain : ∀ h d, Tried args h → Ensures (fun h _ => Repeats args h) h (again d))
    (hrep : Repeats args h) (ht : retryable args e = true → Tried args h) :
    Ensures (fun h _ => Repeats args h) h (onFailure args sleep attempt previousDelay e again) := by
  unfold onFailure
  split_ifs with hsu hc hlast
  · exact hrep
  · have htried := ht (by simp [retryable, hsu, hc])
    refine (ensures_bind _ _).mpr ((ensures_tried (aside_notify e attempt) htried).mono fun h r ht => ?_)
    cases r with
    | error _ => exact ht.repeats
    | ok _ => exact (ensures_tried (aside_afterLoop _) ht).mono fun _ _ ht => ht.repeats
  · have htried := ht (by simp [retryable, hsu, hc])
    refine (ensures_bind _ _).mpr ((ensures_tried (aside_notify e attempt) htried).mono fun h r ht => ?_)
    cases r with
    | error _ => exact ht.repeats
    | ok _ =>
      refine (ensures_bind _ _).mpr
        ((ensures_tried (aside_backOff hs attempt previousDelay) ht).mono fun h r ht => ?_)
      cases r with
      | error _ => exact ht.repeats
      | ok d => exact hagain h d ht
  · exact hrep

/-- **Loop lemma**: only what is retried is followed by another call. -/
theorem repeats_attempts {sleep : PyNum → Py (Option V) Unit} (hs : ∀ d, Aside (sleep d)) (n attempt : ℕ)
    (last : Option PyExc) (previousDelay : PyNum) (ht : Tried args h) :
    Ensures (fun h _ => Repeats args h) h (attempts args sleep invoke n attempt last previousDelay) := by
  induction n generalizing attempt last previousDelay h with
  | zero => exact (ensures_tried (aside_afterLoop last) ht).mono fun _ _ ht => ht.repeats
  | succ n ih =>
    have hfails : ∀ {h} e, Repeats args h → (retryable args e = true → Tried args h) →
        Ensures (fun h _ => Repeats args h) h (onFailure args sleep attempt previousDelay e fun delay =>
          attempts args sleep invoke n (attempt + 1) (some e) delay) :=
      fun e => repeats_onFailure hs attempt previousDelay fun h d ht => ih (attempt + 1) (some e) d ht
    refine (ensures_tryElse _ _ _).mpr ((ensures_bind _ _).mpr fun o => ?_)
    cases o with
    | raised e =>
      exact hfails e (ht.invoke _) fun hr => ht.concat fun e' he' => by cases he'; exact hr
    | returned v =>
      have ht₁ : Tried args (h ++ [⟨.invoke, .returned v⟩]) := ht.concat nofun
      have hcount := ensures_tried (((aside_countSuccess attempt).bind fun _ => .pure v) :
        Aside (countSuccess args attempt >>= fun _ => (pure v : Py (Option V) (Option V)))) ht₁
      refine hcount.mono fun h r ht => ?_
      cases r with
      | ok v => exact ht.repeats
      | error e => exact hfails e ht.repeats fun _ => ht

end Loop

/-! ### Policies that leave no room for another call -/

/-- For some random number the delay before the second attempt can be computed and slept. -/
def CanWaitOnce (args : RetryArgs) (mode : Mode) : Prop :=
  ∃ u, 0 ≤ u ∧ u < 1 ∧ ∃ d, delayFor args 0 args.baseDelay u = .ok d ∧ mode.due d = .ok ()

/-- After a first failure that is retried the loop can get to a second attempt: there is one, the function has a
name to count the first under, and the delay can be slept. -/
def CanRepeat (args : RetryArgs) (mode : Mode) : Prop :=
  2 ≤ args.maxAttempts ∧ args.funcName ≠ none ∧ CanWaitOnce args mode

/-- `random.random()` lies in `[0, 1)`. -/
def Draws (env : Env (Answer V)) : Prop := ∀ h, 0 ≤ env h .random ∧ env h .random < 1

section Room

variable {args : RetryArgs} {mode : Mode} {env : Env (Answer (Option V))} {h : History (Option V)}

theorem two_le_calls {e : PyExc} (ha : Again h e) : 2 ≤ calls h := by
  obtain ⟨p, q, rfl, hq⟩ := ha
  show 2 ≤ asked Ask.isInvoke (p ++ ⟨.invoke, .raised e⟩ :: q)
  rw [asked_append, asked_cons, Ask.isInvoke, if_pos rfl]
  have : 0 < asked Ask.isInvoke q := hq
  omega

/-- The wait before the second attempt does not end well. -/
theorem exec_backOff_fails (hd : Draws env) (hno : ¬ (args.funcName ≠ none ∧ CanWaitOnce args mode))
    (h : History (Option V)) :
    ∃ h' e, exec env h (backOff args mode.sleep 0 args.baseDelay) = (h', .error e) ∧ calls h' = calls h := by
  suffices hfails : ∃ h' e, exec env h (backOff args mode.sleep 0 args.baseDelay) = (h', .error e) by
    obtain ⟨h', e, he⟩ := hfails
    have hback : Aside (backOff (V := V) args mode.sleep 0 args.baseDelay) :=
      aside_backOff mode.aside_sleep 0 args.baseDelay
    have hcalls := aside_calls hback env h
    rw [he] at hcalls
    exact ⟨h', e, he, hcalls⟩
  obtain ⟨h₁, hexec, -, -⟩ := exec_nextDelay_env args env h 0 args.baseDelay
  cases hx : delayFor args 0 args.baseDelay (env h .random) with
  | error e =>
    rw [hx] at hexec
    exact ⟨h₁, e, exec_bind_error hexec⟩
  | ok d =>
    rw [hx] at hexec
    by_cases hname : args.funcName = none
    · refine ⟨h₁, noName, ?_⟩
      rw [backOff, exec_bind_ok hexec, exec_bind_error (exec_count_nameless _ _ _ hname)]
    · cases hdue : mode.due d with
      | ok _ => exact absurd ⟨hname, _, (hd h).1, (hd h).2, d, hx, hdue⟩ hno
      | error e =>
        rw [backOff, exec_bind_ok hexec, exec_bind, mode.sleep_eq]
        rcases exec env h₁ (count args "retry.attempt" "attempt" (toString (0 + 1))) with ⟨h₂, e' | _⟩
        · exact ⟨h₂, e', rfl⟩
        · exact ⟨h₂, e, exec_bind_error (exec_sleepFor_error hdue d)⟩

/-- The handler of the first attempt calls nothing more. -/
theorem calls_onFailure (hd : Draws env) (hno : ¬ (args.funcName ≠ none ∧ CanWaitOnce args mode))
    (e : PyExc) (again : PyNum → Py (Option V) (Option V)) (h : History (Option V)) :
    calls (exec env h (onFailure args mode.sleep 0 args.baseDelay e again)).1 = calls h := by
  have hnote : Aside (notify args e 0 : Py (Option V) Unit) := aside_notify e 0
  unfold onFailure
  split_ifs
  · rfl
  · exact aside_calls (hnote.bind fun _ => aside_afterLoop (some e)) env h
  · have hnotify := aside_calls hnote env h
    rw [exec_bind]
    generalize exec env h (notify args e 0) = x at hnotify ⊢
    rcases x with ⟨h₁, e' | u⟩
    · exact hnotify
    · obtain ⟨h₂, e', hback, hcalls⟩ := exec_backOff_fails hd hno h₁
      show calls (exec env h₁ (backOff args mode.sleep 0 args.baseDelay >>= again)).1 = calls h
      rw [exec_bind_error hback, hcalls]
      exact hnotify
  · rfl

/-- One call is all there is. -/
theorem calls_le_one (hd : Draws env) (hno : ¬ CanRepeat args mode) (h : History (Option V)) :
    calls (exec env h (attempts args mode.sleep invoke args.maxAttempts.toNat 0 none args.baseDelay)).1 ≤
      calls h + 1 := by
  by_cases hmax : 2 ≤ args.maxAttempts
  · obtain ⟨m, hm⟩ : ∃ m : ℕ, args.maxAttempts.toNat = m + 1 := Nat.exists_eq_succ_of_ne_zero (by omega)
    rw [hm, attempts, exec_tryElse, attemptOnce, exec_bind, exec_invoke]
    cases env h .invoke with
    | returned v =>
      show calls (h ++ [⟨.invoke, .returned v⟩] : History (Option V)) ≤ calls h + 1
      simp
    | raised e =>
      show calls (exec env (h ++ [⟨.invoke, .raised e⟩]) (onFailure args mode.sleep 0 args.baseDelay e _)).1 ≤ _
      rw [calls_onFailure hd fun hex => hno ⟨hmax, hex⟩]
      simp
  · have hle := calls_attempts_le args env mode.aside_sleep args.maxAttempts.toNat 0 none args.baseDelay h
    omega

theorem again_of_calls {e : PyExc} (hall : ∀ o, ⟨.invoke, o⟩ ∈ h → o = .raised e) (hcalls : 2 ≤ calls h) :
    Again h e := by
  induction h with
  | nil => simp at hcalls
  | cons x h ih =>
    obtain ⟨q, a⟩ := x
    change 2 ≤ asked Ask.isInvoke (⟨q, a⟩ :: h) at hcalls
    rw [asked_cons] at hcalls
    by_cases hq : q = .invoke
    · subst hq
      obtain rfl := hall a List.mem_cons_self
      refine ⟨[], h, rfl, ?_⟩
      simp only [Ask.isInvoke, if_true] at hcalls
      show 0 < asked Ask.isInvoke h
      omega
    · have hnot : q.isInvoke = false := by
        cases q <;> first | rfl | exact absurd rfl hq
      rw [hnot] at hcalls
      obtain ⟨p, r, rfl, hr⟩ := ih (fun o ho => hall o (List.mem_cons_of_mem _ ho)) (by simpa using hcalls)
      exact ⟨⟨q, a⟩ :: p, r, rfl, hr⟩

/-- A function that always fails shows nothing else. -/
theorem raised_of_invoked {α : Type} {x : Py (Option V) α} {e : PyExc} (henv : ∀ h, env h .invoke = .raised e)
    (o : Outcome (Option V)) (ho : ⟨.invoke, o⟩ ∈ (exec env [] x).1) : o = .raised e := by
  have hasks : Asks (fun _ => True) x := asks_of_forall (fun _ => trivial) x
  refine hasks.invariant env (I := fun h => ∀ o, ⟨.invoke, o⟩ ∈ h → o = .raised e) ?_ ?_ o ho
  · intro h q _ hI o ho
    obtain ho | ho := List.mem_append.mp ho
    · exact hI o ho
    · cases List.mem_singleton.mp ho
      exact henv h
  · exact fun o ho => absurd ho List.not_mem_nil

/-- Where there is room a function that keeps failing is called again. -/
theorem again_of_canRepeat (hcan : CanRepeat args mode) (hcallback : args.onError = false) {e : PyExc}
    (he : retryable args e = true) :
    ∃ env : Env (Answer (Option V)), Draws env ∧ Again (exec env [] (mode.wrapper args invoke)).1 e := by
  obtain ⟨hmax, hname, u, hu₀, hu₁, d, hd, hs⟩ := hcan
  let w : Scenario (Option V) := { outcome := fun _ => .raised e, draw := fun _ => u }
  have hretried : ∀ j < 1, Retried args mode w j := by
    intro j hj
    obtain rfl : j = 0 := by omega
    exact ⟨e, rfl, he, fun hon => absurd hon (by simp [hcallback]), hname, rfl, d, hd, hs⟩
  obtain ⟨h, last, previousDelay, hcall, hat, -, -⟩ := reached (by omega) hretried
  refine ⟨w.env, fun h => ⟨hu₀, hu₁⟩, again_of_calls (raised_of_invoked fun _ => rfl) ?_⟩
  show 2 ≤ calls (call args mode w).1
  obtain ⟨m, hm⟩ : ∃ m : ℕ, args.maxAttempts.toNat - 1 = m + 1 := Nat.exists_eq_succ_of_ne_zero (by omega)
  rw [hcall, hm]
  have hlt : calls h < calls (exec w.env h (attempts args mode.sleep invoke (m + 1) 1 last previousDelay)).1 :=
    calls_lt_attempts m 1 last previousDelay h
  have := hat.calls
  omega

end Room

/-! ### The list of the registry -/

/-- The overrides give this list or tuple of classes. -/
def GivesRetryOn (given : Dict) (classes : List PyClass) : Prop :=
  given "retry_on" = some (.list (classes.map .cls)) ∨ given "retry_on" = some (.tuple (classes.map .cls))

theorem GivesRetryOn.normalise {given : Dict} {classes : List PyClass} (h : GivesRetryOn given classes) :
    normaliseRetryOn ((given "retry_on").getD .none) = .ok classes := by
  obtain h | h := h
  · rw [h]
    exact ResilienceRegistry.mapM_exceptionClass classes
  · rw [h]
    exact ResilienceRegistry.mapM_exceptionClass classes

section Registered

variable {B : Type} {r : ResilienceRegistry B} {b : Builtins} {defaults : Defaults} {service : String}
  {cfg : ServiceConfig} {classes : List PyClass}

theorem retryable_iff {policy : RetryPolicy} (hne : policy.retryOn ≠ []) (funcName : Option String) {e : PyExc}
    (hr : retryable (policy.retryArgs funcName) e = true) :
    catches policy.retryOn e = true ∧ isinstance e .serviceUnavailableError = false := by
  obtain ⟨hsu, hc⟩ := Bool.and_eq_true_iff.mp hr
  refine ⟨?_, by simpa using hsu⟩
  have hexceptions : (policy.retryArgs funcName).exceptions = policy.retryOn := if_neg hne
  rw [hexceptions] at hc
  obtain ⟨c, hmem, hinst⟩ := List.any_eq_true.mp hc
  exact List.any_eq_true.mpr ⟨c, (List.mem_filter.mp hmem).1, hinst⟩

/-- A list that is not empty is honoured. -/
theorem honoured (hcfg : r.getConfig b defaults service = .ok cfg) (hne : cfg.retry.retryOn ≠ [])
    (funcName : Option String) (mode : Mode) (env : Env (Answer (Option V))) : Honoured cfg.retry.retryOn
      (exec env [] (r.retryOnFailure b defaults service funcName mode invoke)).1 := by
  rw [ResilienceRegistry.retryOnFailure, hcfg]
  intro e he
  have hloop : Ensures (fun h _ => Repeats (cfg.retry.retryArgs funcName) h) []
      (Retry.retryOnFailure cfg.retry funcName mode (invoke : Py (Option V) (Option V))) := by
    have htried : Tried (cfg.retry.retryArgs funcName) ([] : History (Option V)) :=
      fun e he => absurd he List.not_mem_nil
    cases mode with
    | async => exact repeats_attempts (Mode.aside_sleep .async) _ 0 none _ htried
    | sync => exact repeats_attempts (Mode.aside_sleep .sync) _ 0 none _ htried
  exact retryable_iff hne funcName (hloop.exec env e he)

/-- **`retry_on`**: a list or tuple that a registration gives is honoured in all calls exactly if it is not
empty, or the policy leaves no room for another call; and without one the function is called again after a
`TransientError` only. -/
theorem retry_on_iff (r : ResilienceRegistry B) (funcName : Option String) (mode : Mode)
    {overrides : String → Option Dict} {given : Dict} (hover : overrides "retry" = some given) (hon : GivesRetryOn given classes)
    (hcfg : (r.registerService service overrides).getConfig b defaults service = .ok cfg) :
    ((∀ env : Env (Answer (Option V)), Draws env → Honoured classes
        (exec env [] ((r.registerService service overrides).retryOnFailure b defaults service funcName mode
          invoke)).1) ↔
      classes ≠ [] ∨ ¬ CanRepeat (cfg.retry.retryArgs funcName) mode) ∧
    ∀ (r' : ResilienceRegistry B) (cfg' : ServiceConfig),
      ((r'.overrides service).getD {}).retry "retry_on" = none →
      r'.getConfig b defaults service = .ok cfg' →
      ∀ env : Env (Answer (Option V)), Honoured [.transientError]
        (exec env [] (r'.retryOnFailure b defaults service funcName mode invoke)).1 := by
  constructor
  · have hread := (ResilienceRegistry.retryPolicy_ok (ResilienceRegistry.getConfig_retry hcfg)).2
    rw [ResilienceRegistry.registerService_overrides, hover] at hread
    have hclasses : cfg.retry.retryOn = classes := Except.ok.inj (hread.symm.trans hon.normalise)
    by_cases hne : classes = []
    · subst hne
      simp only [ne_eq, not_true_eq_false, false_or]
      constructor
      · intro h hcan
        have he : retryable (cfg.retry.retryArgs funcName) ⟨.valueError, 0⟩ = true := by
          have hexceptions : (cfg.retry.retryArgs funcName).exceptions = [.exception] := if_pos hclasses
          rw [retryable, hexceptions]
          decide
        obtain ⟨env, hd, hagain⟩ := again_of_canRepeat (V := V) hcan rfl he
        have hhonoured := h env hd
        rw [ResilienceRegistry.retryOnFailure, hcfg] at hhonoured
        cases (hhonoured _ hagain).1
      · intro hno env hd e he
        rw [ResilienceRegistry.retryOnFailure, hcfg] at he
        dsimp only at he
        have hle : calls (exec env [] (Retry.retryOnFailure cfg.retry funcName mode invoke)).1 ≤ 0 + 1 := by
          cases mode with
          | async => exact calls_le_one hd hno []
          | sync => exact calls_le_one hd hno []
        have := two_le_calls he
        omega
    · have h := honoured (V := V) hcfg (hclasses ▸ hne) funcName mode
      rw [hclasses] at h
      exact ⟨fun _ => .inl hne, fun _ env _ => h env⟩
  · intro r' cfg' hnone hcfg' env
    have hread := (ResilienceRegistry.retryPolicy_ok (ResilienceRegistry.getConfig_retry hcfg')).2
    rw [hnone] at hread
    have hclasses : [PyClass.transientError] = cfg'.retry.retryOn := Except.ok.inj hread
    rw [hclasses]
    refine honoured hcfg' ?_ funcName mode env
    rw [← hclasses]
    exact List.cons_ne_nil _ _

end Registered

/-! ### Two registrations -/

def listing (classes : List PyClass) : ResilienceRegistry Unit :=
  ResilienceRegistry.registerService {} "svc" (retryOverride "retry_on" (.list (classes.map .cls)))

theorem retry_on_iff_timeouts : Honoured [.externalTimeoutError]
    (exec (fun _ => (Outcome.raised ⟨.externalTimeoutError, 0⟩ : Outcome (Option ℕ)).alone) []
      ((listing [.externalTimeoutError]).retryOnFailure silentBuiltins {} "svc" (some "f") .async invoke)).1 :=
  (retry_on_iff {} (some "f") .async rfl (.inl rfl) rfl).1.mpr (.inl (List.cons_ne_nil _ _)) _
    fun _ => ⟨le_rfl, zero_lt_one⟩

/-- The list is empty, and a function that raises a `ValueError` is called three times. -/
theorem empty_list_retries :
    let o : Outcome (Option ℕ) := .raised ⟨.valueError, 0⟩
    let run := exec (fun _ => o.alone) [] ((listing []).retryOnFailure silentBuiltins {} "svc" (some "f") .async invoke)
    calls run.1 = 3 ∧ ¬ Honoured [] run.1 := by
  intro o run
  refine ⟨by decide +kernel, fun h => ?_⟩
  have hagain : Again run.1 ⟨.valueError, 0⟩ :=
    again_of_calls (raised_of_invoked fun _ => rfl) (by decide +kernel)
  cases (h _ hagain).1

end ResilienceKit.Retry

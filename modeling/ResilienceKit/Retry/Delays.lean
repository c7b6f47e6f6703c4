import Mathlib.Algebra.Order.BigOperators.Group.List
import Mathlib.Tactic.Linarith
import Mathlib.Tactic.Positivity
import ResilienceKit.Lib.Ensures
import ResilienceKit.Retry.Runs

/-!
# Retry.Delays — the delays of a whole call

`Threaded` lists the delays that the loop computes, each from the one before it by `_next_delay`.  A delay is
capped before it is handed on, so the bounds carry from each to the next (`Threaded.bounded`); what a call
sleeps is such a list (`waited_attempts`).
-/

namespace ResilienceKit.Retry

open Program Code Py

variable {V : Type} {args : RetryArgs} {mode : Mode} {attempt n : ℕ} {previousDelay d : PyNum} {u : ℚ}
  {h h' : History (Option V)}

/-- Every random number was drawn from its interval. -/
def Fair (h : History V) : Prop := ∀ u : ℚ, (⟨.random, u⟩ : Exchange (Answer V)) ∈ h → 0 ≤ u ∧ u ≤ 1

theorem Fair.of_prefix (hfair : Fair h') (hp : h <+: h') : Fair h := fun u hu => hfair u (hp.subset hu)

/-- `_next_delay` can return `d`. -/
def Computes (args : RetryArgs) (attempt : ℕ) (previousDelay d : PyNum) : Prop :=
  ∃ log : History Unit, Fair log ∧ Runs (nextDelay args attempt previousDelay) log (.ok d)

/-- The delays from an attempt on, each computed from the one before it. -/
def Threaded (args : RetryArgs) : ℕ → PyNum → List PyNum → Prop
  | _, _, [] => True
  | attempt, previousDelay, d :: ds => Computes args attempt previousDelay d ∧ Threaded args (attempt + 1) d ds

/-- What the delays of a call keep to. -/
structure Bounded (args : RetryArgs) (ds : List PyNum) : Prop where
  range : ∀ d ∈ ds, 0 ≤ d.val ∧ d.val ≤ args.maxDelay.val
  decorrelated : args.jitter ≠ "none" → args.jitter ≠ "full" →
    (args.baseDelay :: ds).IsChain fun previousDelay d =>
      min args.baseDelay.val args.maxDelay.val ≤ d.val ∧
        d.val ≤ max args.baseDelay.val (3 * previousDelay.val)
  none : args.jitter = "none" → ds.Pairwise fun d d' => d.val ≤ d'.val

/-- The delay that is slept. -/
def delay? : Ask → Option PyNum
  | .sleep d => some d
  | _ => none

/-- What the wrapper slept, in order. -/
abbrev slept (h : History V) : List PyNum := seen delay? h

/-! ### One delay -/

theorem delayFor_none (hn : args.jitter = "none") (u v : ℚ) :
    delayFor args attempt previousDelay u = delayFor args attempt previousDelay v := by
  rw [delayFor, delayFor, if_pos hn, if_pos hn]

/-- Of every run of `_next_delay`: the draw, and what comes of it. -/
theorem ensures_nextDelay {W : Type} {h : History W} : Ensures (fun h' r => ∃ u : ℚ,
    r = delayFor args attempt previousDelay u ∧
    (h' = h ∨ h' = h ++ [⟨.random, u⟩]) ∧
    ∀ d, r = .ok d → draws h' = draws h + if args.jitter = "none" then 0 else 1) h
      (nextDelay args attempt previousDelay : Py W PyNum) := by
  refine ensures_of_exec (fun _ => (Outcome.raised noName).alone) fun env => ?_
  obtain ⟨h', hexec, hcases, hdraws⟩ := exec_nextDelay_env args env h attempt previousDelay
  rw [hexec]
  exact ⟨_, rfl, hcases, hdraws⟩

/-- The draw decides the delay. -/
theorem Computes.draw (hc : Computes args attempt previousDelay d) :
    ∃ u, 0 ≤ u ∧ u ≤ 1 ∧ delayFor args attempt previousDelay u = .ok d := by
  obtain ⟨log, hfair, hruns⟩ := hc
  obtain ⟨u, hd, hlog, hdraws⟩ := ensures_nextDelay.runs (h := []) hruns
  by_cases hn : args.jitter = "none"
  · exact ⟨0, le_rfl, zero_le_one, by rw [delayFor_none hn 0 u, hd]⟩
  · rcases hlog with hlog | hlog
    · have hdrawn := hdraws d rfl
      rw [hlog, if_neg hn] at hdrawn
      omega
    · have hmem : (⟨.random, u⟩ : Exchange (Answer Unit)) ∈ log := by
        rw [show log = _ from hlog]
        exact List.mem_singleton_self _
      obtain ⟨h0, h1⟩ := hfair u hmem
      exact ⟨u, h0, h1, hd.symm⟩

/-- And each draw gives one. -/
theorem Computes.of_draw (h0 : 0 ≤ u) (h1 : u ≤ 1) (hd : delayFor args attempt previousDelay u = .ok d) :
    Computes args attempt previousDelay d := by
  let env : Env (Answer Unit) := fun _ => Function.update (Outcome.returned ()).alone .random u
  obtain ⟨h', hexec, hcases, -⟩ := exec_nextDelay_env args env [] attempt previousDelay
  obtain ⟨log, hlog, hruns⟩ := runs_exec env [] (nextDelay args attempt previousDelay)
  have hu : env [] .random = u := Function.update_self ..
  rw [hexec, hu, hd] at hruns
  rw [hexec] at hlog
  refine ⟨log, fun u' hu' => ?_, hruns⟩
  rw [show log = h' from hlog.symm] at hu'
  rcases hcases with rfl | rfl
  · cases hu'
  · cases List.mem_singleton.mp hu'
    rw [hu]
    exact ⟨h0, h1⟩

/-- A draw from an interval lies in it. -/
theorem draw_mem {a b : ℚ} (hab : a ≤ b) (h0 : 0 ≤ u) (h1 : u ≤ 1) :
    a ≤ a + (b - a) * u ∧ a + (b - a) * u ≤ b := by
  have hspan : 0 ≤ b - a := sub_nonneg.mpr hab
  have hlow := mul_nonneg hspan h0
  have hhigh := mul_le_of_le_one_right hspan h1
  exact ⟨by linarith, by linarith⟩

theorem exponentialBackoff_ok {x : PyNum}
    (hx : exponentialBackoff attempt args.baseDelay args.exponentialBase args.maxDelay = .ok x) :
    x.val = min args.maxDelay.val (args.baseDelay.val * args.exponentialBase.val ^ attempt) := by
  unfold exponentialBackoff at hx
  cases hp : args.exponentialBase.pow attempt with
  | error e =>
    rw [hp] at hx
    cases hx
  | ok p =>
    cases hdelay : args.baseDelay.mul p with
    | error e =>
      rw [hp] at hx
      dsimp only [bind, Except.bind] at hx
      rw [hdelay] at hx
      cases hx
    | ok delay =>
      rw [hp] at hx
      dsimp only [bind, Except.bind] at hx
      rw [hdelay] at hx
      obtain rfl := Except.ok.inj hx
      rw [PyNum.val_min, PyNum.mul_ok hdelay, PyNum.pow_ok hp]

/-- The delay of full jitter, by the number it is drawn below. -/
theorem delayFor_full (hn : args.jitter ≠ "none") (hf : args.jitter = "full")
    (hd : delayFor args attempt previousDelay u = .ok d) :
    d.val = min args.maxDelay.val (args.baseDelay.val * args.exponentialBase.val ^ attempt) * u := by
  rw [delayFor, if_neg hn, if_pos hf] at hd
  cases hx : exponentialBackoff attempt args.baseDelay args.exponentialBase args.maxDelay with
  | error e =>
    rw [hx] at hd
    cases hd
  | ok capped =>
    rw [hx] at hd
    rw [between_ok hd, PyNum.val_float, exponentialBackoff_ok hx, zero_add, sub_zero]

/-- The delay of decorrelated jitter. -/
theorem delayFor_decorrelated (hn : args.jitter ≠ "none") (hf : args.jitter ≠ "full")
    (hd : delayFor args attempt previousDelay u = .ok d) :
    d.val = min args.maxDelay.val (args.baseDelay.val +
      (max args.baseDelay.val (previousDelay.val * 3) - args.baseDelay.val) * u) := by
  rw [delayFor, if_neg hn, if_neg hf] at hd
  cases hx : previousDelay.mul (.float 3) with
  | error e =>
    rw [hx] at hd
    cases hd
  | ok tripled =>
    rw [hx] at hd
    dsimp only [bind, Except.bind] at hd
    cases hdrawn : between args.baseDelay (args.baseDelay.max tripled) u with
    | error e =>
      rw [hdrawn] at hd
      cases hd
    | ok drawn =>
      rw [hdrawn] at hd
      obtain rfl := Except.ok.inj hd
      rw [PyNum.val_min, between_ok hdrawn, PyNum.val_max, PyNum.mul_ok hx, PyNum.val_float]

section Bounds

variable (hb : 0 ≤ args.baseDelay.val) (hm : 0 ≤ args.maxDelay.val) (he : 1 ≤ args.exponentialBase.val)
include hb hm he

/-- **Step lemma**: one delay. -/
theorem Computes.bounded (hc : Computes args attempt previousDelay d) :
    (0 ≤ d.val ∧ d.val ≤ args.maxDelay.val) ∧
      (args.jitter ≠ "none" → args.jitter ≠ "full" → min args.baseDelay.val args.maxDelay.val ≤ d.val ∧
        d.val ≤ max args.baseDelay.val (3 * previousDelay.val)) ∧
      (args.jitter = "none" →
        d.val = min args.maxDelay.val (args.baseDelay.val * args.exponentialBase.val ^ attempt)) := by
  obtain ⟨u, h0, h1, hd⟩ := hc.draw
  have hcapped : 0 ≤ min args.maxDelay.val (args.baseDelay.val * args.exponentialBase.val ^ attempt) :=
    le_min hm (mul_nonneg hb (pow_nonneg (zero_le_one.trans he) attempt))
  by_cases hn : args.jitter = "none"
  · rw [delayFor, if_pos hn] at hd
    have hval := exponentialBackoff_ok hd
    exact ⟨⟨hval ▸ hcapped, hval ▸ min_le_left _ _⟩, fun h => absurd hn h, fun _ => hval⟩
  by_cases hf : args.jitter = "full"
  · have hval := delayFor_full hn hf hd
    refine ⟨⟨hval ▸ mul_nonneg hcapped h0, ?_⟩, fun _ h => absurd hf h, fun h => absurd h hn⟩
    rw [hval]
    exact (mul_le_of_le_one_right hcapped h1).trans (min_le_left _ _)
  · have hval := delayFor_decorrelated hn hf hd
    obtain ⟨h2, h3⟩ := draw_mem (le_max_left args.baseDelay.val (previousDelay.val * 3)) h0 h1
    rw [hval]
    refine ⟨⟨le_min hm (hb.trans h2), min_le_left _ _⟩, fun _ _ => ⟨?_, ?_⟩, fun h => absurd h hn⟩
    · exact le_min (min_le_right _ _) ((min_le_left _ _).trans h2)
    · rw [mul_comm 3]
      exact (min_le_right _ _).trans h3

/-- **Run lemma**: the delays from an attempt on. -/
theorem Threaded.bounds {ds : List PyNum} (ht : Threaded args attempt previousDelay ds) :
    (∀ d ∈ ds, 0 ≤ d.val ∧ d.val ≤ args.maxDelay.val) ∧
      (args.jitter ≠ "none" → args.jitter ≠ "full" →
        (previousDelay :: ds).IsChain fun previousDelay d =>
          min args.baseDelay.val args.maxDelay.val ≤ d.val ∧
            d.val ≤ max args.baseDelay.val (3 * previousDelay.val)) ∧
      (args.jitter = "none" → (ds.Pairwise fun d d' => d.val ≤ d'.val) ∧
        ∀ d ∈ ds, min args.maxDelay.val (args.baseDelay.val * args.exponentialBase.val ^ attempt) ≤ d.val) := by
  induction ds generalizing attempt previousDelay with
  | nil => simp
  | cons d ds ih =>
    obtain ⟨hc, ht⟩ := ht
    obtain ⟨hrange, hdecorrelated, hnone⟩ := hc.bounded hb hm he
    obtain ⟨hranges, hchain, hrising⟩ := ih ht
    refine ⟨List.forall_mem_cons.mpr ⟨hrange, hranges⟩,
      fun hn hf => List.isChain_cons_cons.mpr ⟨hdecorrelated hn hf, hchain hn hf⟩, fun hn => ?_⟩
    obtain ⟨hpair, hlow⟩ := hrising hn
    have hstep : d.val ≤
        min args.maxDelay.val (args.baseDelay.val * args.exponentialBase.val ^ (attempt + 1)) := by
      rw [hnone hn]
      refine min_le_min_left _ (mul_le_mul_of_nonneg_left ?_ hb)
      exact pow_le_pow_right₀ he (Nat.le_succ attempt)
    have hle : ∀ d' ∈ ds, d.val ≤ d'.val := fun d' hd' => hstep.trans (hlow d' hd')
    refine ⟨List.pairwise_cons.mpr ⟨hle, hpair⟩, List.forall_mem_cons.mpr ⟨(hnone hn).ge, fun d' hd' => ?_⟩⟩
    exact (hnone hn).ge.trans (hle d' hd')

theorem Threaded.bounded {ds : List PyNum} (ht : Threaded args 0 args.baseDelay ds) : Bounded args ds := by
  obtain ⟨hrange, hchain, hrising⟩ := ht.bounds hb hm he
  exact ⟨hrange, hchain, fun hn => (hrising hn).1⟩

end Bounds

/-! ### The loop -/

/-- What happens from one history to the other sleeps `ds` with `_next_delay` in between, at most `n` times. -/
def Waited (args : RetryArgs) (n attempt : ℕ) (previousDelay : PyNum) (h h' : History (Option V)) : Prop :=
  Fair h' → ∃ ds, slept h' = slept h ++ ds ∧ Threaded args attempt previousDelay ds ∧ ds.length ≤ n

/-- Code that does not sleep. -/
abbrev Awake {α : Type} (x : Py V α) : Prop := Asks (fun q => delay? q = none) x

theorem awake_incr (name : String) (tags : List (String × String)) : Awake (incr name tags : Py V Unit) :=
  Asks.bind (Asks.perform rfl) fun _ => asks_fromExcept _

theorem awake_count (name key value : String) : Awake (count args name key value : Py V Unit) := by
  unfold count
  cases args.funcName with
  | none => exact .throw _
  | some func => exact awake_incr _ _

theorem awake_afterLoop (last : Option PyExc) : Awake (afterLoop (V := V) args last) := by
  refine (awake_count _ _ _).bind fun _ => ?_
  cases last with
  | none => exact .pure _
  | some e =>
    show Awake (if args.raiseOnFailure then _ else _)
    split_ifs
    · exact .throw _
    · exact .pure _

theorem awake_invoke : Awake (invoke : Py V V) := Asks.bind (Asks.perform rfl) fun _ => asks_fromExcept _

theorem awake_attemptOnce : Awake (attemptOnce args (invoke : Py (Option V) (Option V)) attempt) := by
  refine awake_invoke.bind fun _ => Code.Asks.bind ?_ fun _ => .pure _
  unfold countSuccess
  split_ifs
  · exact awake_count _ _ _
  · exact .pure _

theorem awake_notify (exc : PyExc) : Awake (notify args exc attempt : Py V Unit) := by
  unfold notify
  split_ifs
  · exact Asks.bind (Asks.perform rfl) fun _ => asks_fromExcept _
  · exact .pure _

theorem ensures_awake {α : Type} {x : Py (Option V) α} (hx : Awake x) :
    Ensures (fun h' _ => slept h' = slept h) h x := by
  refine Asks.ensures (I := fun h' => slept h' = slept h) hx (fun h' q a hq hI => ?_) rfl
  rw [slept, seen_append, seen_cons, hq]
  exact (List.append_nil _).trans hI

theorem waited_of_slept (hs : slept h' = slept h) : Waited args n attempt previousDelay h h' :=
  fun _ => ⟨[], by rw [hs, List.append_nil], trivial, Nat.zero_le n⟩

theorem ensures_computes : Ensures (fun h' r => slept h' = slept h ∧
    ∀ d, r = .ok d → Fair h' → Computes args attempt previousDelay d) h
      (nextDelay args attempt previousDelay : Py (Option V) PyNum) := by
  refine ensures_nextDelay.mono fun h' r ⟨u, hr, hcases, hdraws⟩ => ⟨?_, fun d hd hfair => ?_⟩
  · rcases hcases with rfl | rfl <;> simp [delay?]
  · by_cases hn : args.jitter = "none"
    · exact Computes.of_draw le_rfl zero_le_one ((delayFor_none hn 0 u).trans (hr.symm.trans hd))
    · have hdrawn := hdraws d hd
      rw [if_neg hn] at hdrawn
      rcases hcases with rfl | rfl
      · omega
      · obtain ⟨h0, h1⟩ := hfair u (List.mem_append_right h (List.mem_singleton_self _))
        exact Computes.of_draw h0 h1 (hr.symm.trans hd)

/-- A sleep that raises may have begun or not. -/
theorem ensures_sleep (mode : Mode) (d : PyNum) :
    Ensures (ends (fun h' _ => slept h' = slept h ++ [d]) fun h' _ => slept h' = slept h ∨ slept h' = slept h ++ [d])
      h (mode.sleep d : Py (Option V) Unit) := by
  rw [mode.sleep_eq]
  cases mode.due d with
  | error e => exact .inl rfl
  | ok _ =>
    intro a
    have hslept : slept (h ++ [(⟨.sleep d, a⟩ : Exchange (Answer (Option V)))]) = slept h ++ [d] := by
      simp [delay?]
    cases a with
    | none => exact hslept
    | some e => exact .inr hslept

/-- **Step lemma**: from a failed attempt to the next one, a computed delay is slept, or the loop ends. -/
theorem waited_onFailure (mode : Mode) {exc : PyExc} {again : PyNum → Py (Option V) (Option V)}
    (hagain : (attempt : ℤ) ≠ args.maxAttempts - 1 → ∃ k, n = k + 1 ∧
      ∀ h d, Ensures (fun h' _ => Waited args k (attempt + 1) d h h') h (again d)) :
    Ensures (fun h' _ => Waited args n attempt previousDelay h h') h
      (onFailure args mode.sleep attempt previousDelay exc again) := by
  unfold onFailure
  split_ifs with hsu hc hlast
  · exact waited_of_slept rfl
  · refine (ensures_bind _ _).mpr ((ensures_awake (awake_notify exc)).mono fun h₁ r h₁s => ?_)
    cases r with
    | error e => exact waited_of_slept h₁s
    | ok _ => exact (ensures_awake (awake_afterLoop _)).mono fun _ _ hs => waited_of_slept (hs.trans h₁s)
  · obtain ⟨k, rfl, hnext⟩ := hagain hlast
    refine (ensures_bind _ _).mpr ((ensures_awake (awake_notify exc)).mono fun h₁ r h₁s => ?_)
    cases r with
    | error e => exact waited_of_slept h₁s
    | ok _ =>
      refine (ensures_bind _ _).mpr ((ensures_bind _ _).mpr (ensures_computes.mono fun h₂ r h₂s => ?_))
      cases r with
      | error e => exact waited_of_slept (h₂s.1.trans h₁s)
      | ok d =>
        have hcount : Awake (count args "retry.attempt" "attempt" (toString (attempt + 1)) : Py (Option V) Unit) :=
          awake_count _ _ _
        have hawake := ensures_awake hcount (h := h₂)
        refine (ensures_bind _ _).mpr (hawake.grown.mono fun h₃ r ⟨hgrown, h₃s⟩ => ?_)
        have hstart : slept h₃ = slept h := h₃s.trans (h₂s.1.trans h₁s)
        cases r with
        | error e => exact waited_of_slept hstart
        | ok _ =>
          refine (ensures_bind _ _).mpr ((ensures_sleep mode d).grown.mono fun h₄ r ⟨hgrown', h₄s⟩ => ?_)
          have hcomputes : Fair h₄ → Computes args attempt previousDelay d := fun hfair =>
            h₂s.2 d rfl (hfair.of_prefix (hgrown.trans hgrown'))
          cases r with
          | error e =>
            rcases h₄s with hs | hs
            · exact waited_of_slept (hs.trans hstart)
            · refine fun hfair => ⟨[d], by rw [hs, hstart], ⟨hcomputes hfair, trivial⟩, ?_⟩
              simp
          | ok _ =>
            refine (hnext h₄ d).grown.mono fun h₅ r ⟨hgrown'', hrest⟩ hfair => ?_
            obtain ⟨ds, hds, ht, hlen⟩ := hrest hfair
            refine ⟨d :: ds, ?_, ⟨hcomputes (hfair.of_prefix hgrown''), ht⟩, Nat.succ_le_succ hlen⟩
            rw [hds, show slept h₄ = slept h₃ ++ [d] from h₄s, hstart, List.append_assoc]
            rfl
  · exact waited_of_slept rfl

/-- **Run lemma** of the loop. -/
theorem waited_attempts (mode : Mode) (n attempt : ℕ) (last : Option PyExc) (previousDelay : PyNum)
    (hn : args.maxAttempts.toNat = attempt + n) :
    Ensures (fun h' _ => Waited args (n - 1) attempt previousDelay h h') h
      (attempts args mode.sleep invoke n attempt last previousDelay) := by
  induction n generalizing attempt last previousDelay h with
  | zero => exact (ensures_awake (awake_afterLoop last)).mono fun _ _ hs => waited_of_slept hs
  | succ n ih =>
    refine (ensures_tryElse _ _ _).mpr ((ensures_awake awake_attemptOnce).mono fun h₁ r h₁s => ?_)
    cases r with
    | ok v => exact waited_of_slept h₁s
    | error e =>
      refine (waited_onFailure mode (n := n) fun hlast => ⟨n - 1, by omega, fun h d => ?_⟩).mono fun h₂ _ hw => ?_
      · exact ih (attempt + 1) (some e) d (by omega)
      · intro hfair
        obtain ⟨ds, hds, ht, hlen⟩ := hw hfair
        exact ⟨ds, by rw [hds, h₁s], ht, hlen⟩

/-- **Bounds of the delays.**  Whatever is drawn, each delay that the loop computes lies between nothing and
`max_delay`, keeps to the interval of its strategy, and without jitter they never fall; a call with `n` attempts
sleeps such delays, at most `n - 1` of them. -/
theorem delays_bounded (args : RetryArgs) (hb : 0 ≤ args.baseDelay.val) (hm : 0 ≤ args.maxDelay.val)
    (he : 1 ≤ args.exponentialBase.val) :
    (∀ ds, Threaded args 0 args.baseDelay ds → Bounded args ds) ∧
      ∀ (mode : Mode) (env : Env (Answer (Option V))), (∀ h, 0 ≤ env h .random ∧ env h .random ≤ 1) →
        Threaded args 0 args.baseDelay (slept (exec env [] (mode.wrapper args invoke)).1) ∧
        ((slept (exec env [] (mode.wrapper args invoke)).1).map PyNum.val).sum ≤
          (args.maxAttempts.toNat - 1 : ℕ) * args.maxDelay.val := by
  refine ⟨fun ds ht => ht.bounded hb hm he, fun mode env henv => ?_⟩
  have hfair : Fair (exec env [] (mode.wrapper args invoke)).1 := by
    refine (Code.asks_of_forall (P := fun _ => True) (fun _ => trivial) _).invariant env (I := Fair) ?_ ?_
    · intro h q _ hI u hu
      rcases List.mem_append.mp hu with hu | hu
      · exact hI u hu
      · cases List.mem_singleton.mp hu
        exact henv h
    · intro u hu
      cases hu
  have hwrapper : Ensures (fun h' _ => Waited args (args.maxAttempts.toNat - 1) 0 args.baseDelay [] h') []
      (mode.wrapper args (invoke : Py (Option V) (Option V))) := by
    cases mode with
    | async => exact waited_attempts .async _ 0 none _ (Nat.zero_add _).symm
    | sync => exact waited_attempts .sync _ 0 none _ (Nat.zero_add _).symm
  obtain ⟨ds, hds, ht, hlen⟩ := hwrapper.exec env hfair
  have hslept : slept (exec env [] (mode.wrapper args invoke)).1 = ds := hds
  rw [hslept]
  refine ⟨ht, (List.sum_le_card_nsmul _ args.maxDelay.val fun x hx => ?_).trans ?_⟩
  · obtain ⟨d, hd, rfl⟩ := List.mem_map.mp hx
    exact ((ht.bounded hb hm he).range d hd).2
  · rw [nsmul_eq_mul, List.length_map]
    exact mul_le_mul_of_nonneg_right (by exact_mod_cast hlen) hm

/-- A function that keeps failing, and draws that take every interval to its end. -/
def failing : Scenario (Option ℕ) where
  outcome _ := .raised ⟨.exception, 0⟩
  draw _ := 1

/-- With the defaults such a call sleeps two minutes at most. -/
theorem delays_bounded_failing :
    (∀ ds, Threaded {} 0 (.float 1) ds → Bounded {} ds) ∧
      Threaded {} 0 (.float 1) (slept (exec failing.env [] (Mode.sync.wrapper {} invoke)).1) ∧
      ((slept (exec failing.env [] (Mode.sync.wrapper {} invoke)).1).map PyNum.val).sum ≤ 2 * 60 := by
  obtain ⟨hbounded, hruns⟩ := @delays_bounded ℕ {} (by decide) (by decide) (by decide)
  obtain ⟨ht, hsum⟩ := hruns .sync failing.env fun _ => ⟨zero_le_one, le_rfl⟩
  exact ⟨hbounded, ht, hsum⟩

end ResilienceKit.Retry

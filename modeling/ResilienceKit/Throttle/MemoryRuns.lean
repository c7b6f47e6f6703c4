import Mathlib.Tactic.Linarith
import Mathlib.Tactic.NormNum
import ResilienceKit.Throttle.Memory

/-!
# Throttle.MemoryRuns — whole runs of the in-process throttle

The deque of a key is pruned lazily, with the rate of the check that comes by.  `window_induct` is the
induction on a run seen from one key; from it follow the invariants that relate the deque to the
admissions of the whole run: it is a part of them (`window_sublist`), and it shows the same windows of
length `W` as long as no check drops an entry that such a window still holds (`window_tracks`).
-/

namespace ResilienceKit.InMemoryAsyncThrottle

open Mealy Throttle
open Binary64 (sub)

/-- The admissions of a history. -/
abbrev admitted (key : String) (h : List Rec) : List ℚ := admissions Ans.allowed key h

variable {key : String} {G : ℚ → List ℚ → Rate → Prop}

/-- Every check of `key` in a run meets the guard `G` on its time, the deque it finds and its rate. -/
def Uses (G : ℚ → List ℚ → Rate → Prop) (key : String) (es : List (Timed ℚ Op)) : Prop :=
  throttle.Along (fun _ s e => ∀ rate, e.ev = .check key rate → G e.time (s.window key) rate)
    throttle.init es

/-- The condition may look at the rate alone. -/
theorem Uses.of_rates {es : List (Timed ℚ Op)}
    (h : ∀ e ∈ es, ∀ rate, e.ev = .check key rate → ∀ t w, G t w rate) : Uses G key es := by
  rintro p e q rfl rate hop
  exact h e (by simp) rate hop _ _

/-- A check with a window of `rate` drops no entry that a window of length `W` holds. -/
def DropsNone (W t : ℚ) (w : List ℚ) (rate : Rate) : Prop :=
  ∀ a ∈ w, win W t a = true → win rate.perSeconds t a = true

theorem DropsNone.of_le {W : ℚ} {rate : Rate} (h : W ≤ rate.perSeconds) (t : ℚ) (w : List ℚ) :
    DropsNone W t w rate := by
  intro a _ ha
  have ha' : sub t W ≤ a := by simpa [win] using ha
  have : sub t rate.perSeconds ≤ a := (Binary64.round_mono (sub_le_sub_left h t)).trans ha'
  simpa [win] using this

theorem admitted_sorted {es : List (Timed ℚ Op)} (hc : Clocked es) :
    (admitted key (throttle.log throttle.init es)).Pairwise (· ≤ ·) :=
  grants_sorted hc.log_pairwise

theorem admitted_le {es : List (Timed ℚ Op)} {now : ℚ} (hnow : ∀ e ∈ es, e.time ≤ now) :
    ∀ a ∈ admitted key (throttle.log throttle.init es), a ≤ now := by
  intro a ha
  obtain ⟨r, hr, rfl⟩ := mem_grants ha
  have hmem : r.ev ∈ (throttle.log throttle.init es).map Step.ev := List.mem_map_of_mem hr
  rw [log_map_ev] at hmem
  exact hnow _ hmem

/-- **Induction on a run, seen from one key.**  `P now w adm` relates its deque to its admissions at
every time the run has not passed; a check of the key is the only case. -/
theorem window_induct {P : ℚ → List ℚ → List ℚ → Prop} (h0 : ∀ now, P now [] [])
    (hcheck : ∀ t now rate w adm, G t w rate → t ≤ now → adm.Pairwise (· ≤ ·) → (∀ a ∈ adm, a ≤ t) →
      P t w adm → P now (checkWindow t rate w).1
        (adm ++ if (checkWindow t rate w).2.allowed = true then [t] else []))
    {es : List (Timed ℚ Op)} (hc : Clocked es) (hu : Uses G key es) {now : ℚ}
    (hnow : ∀ e ∈ es, e.time ≤ now) :
    P now ((throttle.exec throttle.init es).window key)
      (admitted key (throttle.log throttle.init es)) := by
  induction es using List.reverseRecOn generalizing now with
  | nil => exact h0 now
  | append_singleton es e ih =>
    have hold : ∀ {u : ℚ}, (∀ a ∈ es, a.time ≤ u) →
        P u ((throttle.exec throttle.init es).window key)
          (admitted key (throttle.log throttle.init es)) := ih hc.of_append (Along.of_append hu)
    have hes : ∀ a ∈ es, a.time ≤ e.time := fun a ha => hc.le_of_split ha
    rw [exec_concat, log_concat]
    by_cases hk : e.ev.key = key
    · obtain ⟨t, op⟩ := e
      cases op with
      | reset k =>
        obtain rfl : k = key := hk
        rw [next_reset_self, admitted, admissions_reset rfl]
        exact h0 now
      | check k rate =>
        obtain rfl : k = key := hk
        rw [next_check_self, admitted, admissions_check rfl, record_ev, record_out, out_check]
        exact hcheck t now rate _ _ (hu.last rate rfl)
          (hnow ⟨t, .check k rate⟩ (by simp)) (admitted_sorted hc.of_append) (admitted_le hes)
          (hold hes)
    · rw [next_other hk, admitted, admissions_other (by exact hk)]
      exact hold fun a ha => hnow a (List.mem_append_left _ ha)

/-! ### What the deque knows of the admissions -/

/-- The deque is a part of the admissions. -/
theorem window_sublist {es : List (Timed ℚ Op)} (hc : Clocked es) (key : String) :
    ((throttle.exec throttle.init es).window key).Sublist
      (admitted key (throttle.log throttle.init es)) := by
  rcases es.eq_nil_or_concat' with rfl | ⟨es', e, rfl⟩
  · exact List.Sublist.refl _
  · refine window_induct (G := fun _ _ _ => True) (P := fun _ w adm => w.Sublist adm)
      (fun _ => List.Sublist.refl _) ?_ hc (Uses.of_rates fun _ _ _ _ _ _ => trivial)
      hc.le_last
    intro t now rate w adm _ _ _ _ hw
    rw [checkWindow_deque]
    exact ((List.dropWhile_sublist _).trans hw).append (List.Sublist.refl _)

theorem window_sorted {es : List (Timed ℚ Op)} (hc : Clocked es) (key : String) :
    ((throttle.exec throttle.init es).window key).Pairwise (· ≤ ·) :=
  (admitted_sorted hc).sublist (window_sublist hc key)

/-- **Lazy pruning loses nothing**: as long as no check drops an entry that a window of length `W`
still holds, the deque shows the same windows of length `W` as all admissions. -/
theorem window_tracks {W : ℚ} {es : List (Timed ℚ Op)} (hc : Clocked es)
    (hu : Uses (DropsNone W) key es) {now : ℚ}
    (hnow : ∀ e ∈ es, e.time ≤ now) :
    Window.Tracks (win W) now ((throttle.exec throttle.init es).window key)
      (admitted key (throttle.log throttle.init es)) := by
  have hboth := window_induct (G := DropsNone W)
    (P := fun now w adm => w.Sublist adm ∧ Window.Tracks (win W) now w adm)
    (fun now => ⟨List.Sublist.refl _, Window.Tracks.refl _ _ _⟩) ?_ hc hu hnow
  · exact hboth.2
  · rintro t now rate w adm hdrop ht hs - ⟨hw, htr⟩
    rw [checkWindow_deque]
    refine ⟨((List.dropWhile_sublist _).trans hw).append (List.Sublist.refl _), ?_⟩
    rw [Window.dropWhile_lt_eq_filter (hs.sublist hw)]
    have hpruned : Window.Tracks (win W) now
        (w.filter fun a => decide (sub t rate.perSeconds ≤ a)) adm := by
      refine (htr.later ht).prune fun u hu a hmem ha => ?_
      exact hdrop a hmem (leaving_win W (ht.trans hu) ha)
    split_ifs
    · exact hpruned.concat t
    · simpa using hpruned

/-- The deque never exceeds the largest count it was checked with. -/
theorem window_length_le {N : ℤ} (hN : 0 ≤ N) {es : List (Timed ℚ Op)} (hc : Clocked es)
    (hu : Uses (fun _ _ rate => rate.count ≤ N) key es) {now : ℚ}
    (hnow : ∀ e ∈ es, e.time ≤ now) :
    (((throttle.exec throttle.init es).window key).length : ℤ) ≤ N := by
  refine window_induct (G := fun _ _ rate => rate.count ≤ N)
    (P := fun _ w _ => (w.length : ℤ) ≤ N) (fun _ => by simpa using hN) ?_ hc hu hnow
  intro t now rate w adm hcount _ _ _ hw
  rw [checkWindow_deque, List.length_append]
  have hd := (List.dropWhile_sublist (fun a => decide (a < sub t rate.perSeconds)) (l := w)).length_le
  split_ifs with ha
  · have hlt := checkWindow_allowed_iff_length.mp ha
    push_cast
    rw [List.length_singleton]
    omega
  · push_cast
    rw [List.length_nil]
    omega

/-! ### Decisions -/

/-- What a check of `rate` decides when the key has the admissions `adm` since its last reset. -/
structure Exact (rate : Rate) (now : ℚ) (adm : List ℚ) (d : ThrottleDecision) : Prop where
  allowed_iff : d.allowed = true ↔ (adm.countP (win rate.perSeconds now) : ℤ) < rate.count
  remaining_eq : d.remaining =
    if d.allowed = true then rate.count - adm.countP (win rate.perSeconds now) - 1 else 0

/-- A check is exact after a run that dropped nothing from its window. -/
theorem exact_check {rate : Rate} {es : List (Timed ℚ Op)} (hc : Clocked es)
    (hu : Uses (DropsNone rate.perSeconds) key es) {now : ℚ}
    (hnow : ∀ e ∈ es, e.time ≤ now) :
    Exact rate now (admitted key (throttle.log throttle.init es))
      (checkWindow now rate ((throttle.exec throttle.init es).window key)).2 := by
  have hs := window_sorted hc key
  have hcount := (window_tracks hc hu hnow).countP_eq le_rfl
  refine ⟨?_, ?_⟩
  · rw [checkWindow_allowed hs, hcount]
  · rw [checkWindow_remaining hs, hcount]

/-- Exact checks enforce the limit of their rate. -/
theorem limits {rate : Rate} {es : List (Timed ℚ Op)} (hc : Clocked es)
    (hu : Uses (DropsNone rate.perSeconds) key es) :
    Limits Ans.allowed key (fun r => decide (r = rate)) (win rate.perSeconds) rate.count
      (throttle.log throttle.init es) := by
  intro p r q rate' hlog hop hsel hN
  obtain rfl : rate' = rate := by simpa using hsel
  obtain ⟨es₁, e, es₂, rfl, rfl, rfl⟩ := log_split hlog
  obtain ⟨t, op⟩ := e
  obtain rfl : op = .check key rate' := hop
  have hc₁ : Clocked es₁ := hc.of_append
  have hexact : Exact rate' t (admitted key (throttle.log throttle.init es₁))
      (checkWindow t rate' ((throttle.exec throttle.init es₁).window key)).2 :=
    exact_check hc₁ (Along.of_append hu) fun a ha => hc.le_of_split ha
  rw [record_out, out_check]
  cases hd : (checkWindow t rate' ((throttle.exec throttle.init es₁).window key)).2.allowed with
  | false => exact hd
  | true =>
    have hlt := hexact.allowed_iff.mp hd
    have hN' : rate'.count ≤
      ((admitted key (throttle.log throttle.init es₁)).countP (win rate'.perSeconds t) : ℤ) := hN
    omega

/-- With one rate on the key no check drops an entry of its window. -/
theorem uses_dropsNone {rate : Rate} {es : List (Timed ℚ Op)}
    (hu : ∀ e ∈ es, ∀ r, e.ev = .check key r → r = rate) : Uses (DropsNone rate.perSeconds) key es := by
  refine Uses.of_rates fun e he r hop t w => ?_
  rw [hu e he r hop]
  exact DropsNone.of_le le_rfl t w

/-- With one rate on the key no closed interval of its length holds more than `count` admissions. -/
theorem admitted_countP_le {rate : Rate} (hpos : 0 ≤ rate.count) {es : List (Timed ℚ Op)} (hc : Clocked es)
    (hu : ∀ e ∈ es, ∀ r, e.ev = .check key r → r = rate) (t : ℚ) :
    ((admitted key (throttle.log throttle.init es)).countP
      (fun a => win rate.perSeconds t a && decide (a ≤ t)) : ℤ) ≤ rate.count := by
  have hall : grants Ans.allowed key (fun r => decide (r = rate)) (throttle.log throttle.init es) =
      admitted key (throttle.log throttle.init es) :=
    grants_eq_admissions fun r hr rate' hop => by
      have hmem : r.ev ∈ (throttle.log throttle.init es).map Step.ev := List.mem_map_of_mem hr
      rw [log_map_ev] at hmem
      simpa using hu r.ev hmem rate' hop
  rw [← hall]
  exact ((limits hc (uses_dropsNone hu)).paced hc.log_pairwise).countP_le (leaving_win _) hpos t

/-! ### Keys do not touch each other -/

/-- The answers of a key are those of the run of its own operations. -/
theorem isolated (key : String) (es : List (Timed ℚ Op)) :
    ((throttle.log throttle.init es).filter fun r => decide (r.ev.ev.key = key)).map Step.out =
      throttle.outs throttle.init (es.filter fun e => decide (e.ev.key = key)) := by
  refine (outs_filter_of_erase (M := throttle) (N := throttle) (G := fun _ _ _ => True)
    (fun e : Timed ℚ Op => decide (e.ev.key = key))
    (R := fun _ s s' => s.window key = s'.window key) rfl ?_ ?_ (fun _ _ _ _ => trivial)).1
  · rintro - s s' ⟨t, op⟩ hw - hk
    cases op with
    | check k rate =>
      obtain rfl : k = key := of_decide_eq_true hk
      rw [out_check, out_check, next_check_self, next_check_self, hw]
      exact ⟨rfl, rfl⟩
    | reset k =>
      obtain rfl : k = key := of_decide_eq_true hk
      rw [out_reset, out_reset, next_reset_self, next_reset_self]
      exact ⟨rfl, rfl⟩
  · intro _ s s' e hw _ hk
    have hne : e.ev.key ≠ key := by simpa using hk
    rw [next_other hne]
    exact hw

/-! ### The whole run -/

/-- What a run with one rate for each key leaves behind for `key`. -/
structure KeyLaws (rate : Rate) (key : String) (es : List (Timed ℚ Op)) : Prop where
  /-- The next check of the key is exact. -/
  exact_next : ∀ now, (∀ e ∈ es, e.time ≤ now) →
    ∃ d, throttle.out (throttle.exec throttle.init es) ⟨now, .check key rate⟩ = .decided d ∧
      Exact rate now (admitted key (throttle.log throttle.init es)) d
  sorted : ((throttle.exec throttle.init es).window key).Pairwise (· ≤ ·)
  length_le : (((throttle.exec throttle.init es).window key).length : ℤ) ≤ rate.count
  /-- Operations on other keys change no answer of the key. -/
  isolated : ((throttle.log throttle.init es).filter
      fun r => decide (r.ev.ev.key = key)).map Step.out =
    throttle.outs throttle.init (es.filter fun e => decide (e.ev.key = key))
  /-- No closed interval of the window's length holds more than `count` admissions since the last
  reset. -/
  interval_le : ∀ t, ((admitted key (throttle.log throttle.init es)).countP
    (fun a => win rate.perSeconds t a && decide (a ≤ t)) : ℤ) ≤ rate.count

/-- Whole runs of the in-memory throttle: every check decides by the admissions of its closed window
since the last reset. -/
theorem memory_throttle_runs (rateOf : String → Rate) (hr : ∀ key, 1 ≤ (rateOf key).count)
    (es : List (Timed ℚ Op)) (hc : Clocked es)
    (hu : ∀ e ∈ es, ∀ key rate, e.ev = .check key rate → rate = rateOf key) (key : String) :
    KeyLaws (rateOf key) key es := by
  have hkey : ∀ e ∈ es, ∀ rate, e.ev = .check key rate → rate = rateOf key :=
    fun e he rate hop => hu e he key rate hop
  have hcount : Uses (fun _ _ r => r.count ≤ (rateOf key).count) key es := by
    refine Uses.of_rates fun e he rate hop _ _ => ?_
    rw [hkey e he rate hop]
  have hpos : 0 ≤ (rateOf key).count := by
    have := hr key
    omega
  refine ⟨fun now hnow => ⟨_, out_check _ _ _ _, exact_check hc (uses_dropsNone hkey) hnow⟩,
    window_sorted hc key, ?_, isolated key es, admitted_countP_le hpos hc hkey⟩
  rcases es.eq_nil_or_concat' with rfl | ⟨es', e, rfl⟩
  · exact hpos
  · exact window_length_le hpos hc hcount hc.le_last

/-- The rates of the two keys of the run below. -/
def twoRates (key : String) : Rate := if key = "a" then ⟨1, 1⟩ else ⟨2, 3⟩

/-- The window of the second key fills up, and a check is denied; at the end the first admission has left it. -/
theorem memory_throttle_runs_two_keys :
    KeyLaws ⟨2, 3⟩ "b" [⟨0, .check "a" ⟨1, 1⟩⟩, ⟨1 / 2, .check "b" ⟨2, 3⟩⟩, ⟨1, .check "b" ⟨2, 3⟩⟩, ⟨1, .reset "a"⟩,
      ⟨3, .check "b" ⟨2, 3⟩⟩, ⟨15 / 4, .check "b" ⟨2, 3⟩⟩] := by
  refine memory_throttle_runs twoRates (fun key => ?_) _ (by norm_num [Clocked]) (fun e he key rate hop => ?_) "b"
  · unfold twoRates
    split_ifs <;> decide
  · simp only [List.mem_cons, List.not_mem_nil, or_false] at he
    rcases he with rfl | rfl | rfl | rfl | rfl | rfl
    case inr.inr.inr.inl => cases hop
    all_goals
      obtain ⟨rfl, rfl⟩ := Op.check.inj hop
      rfl

/-- A reset forgets admissions that the closed interval still holds: two checks at one time, both
allowed under a count of one. -/
theorem reset_forgets_admissions :
    let es : List (Timed ℚ Op) :=
      [⟨0, .check "k" ⟨1, 1⟩⟩, ⟨0, .reset "k"⟩, ⟨0, .check "k" ⟨1, 1⟩⟩]
    Clocked es ∧ (∀ e ∈ es, ∀ key rate, e.ev = .check key rate → rate = ⟨1, 1⟩) ∧
      ((throttle.log throttle.init es).countP fun r => Ans.allowed r.out &&
        decide (0 ≤ r.ev.time) && decide (r.ev.time ≤ 1)) = 2 := by
  refine ⟨by simp [Clocked], ?_, by decide +kernel⟩
  intro e he key rate hop
  simp only [List.mem_cons, List.not_mem_nil, or_false] at he
  rcases he with rfl | rfl | rfl
  · exact (Op.check.inj hop).2.symm
  · cases hop
  · exact (Op.check.inj hop).2.symm

end ResilienceKit.InMemoryAsyncThrottle

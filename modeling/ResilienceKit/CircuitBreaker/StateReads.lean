import ResilienceKit.CircuitBreaker.LuaRuns
import ResilienceKit.CircuitBreaker.Memory

/-!
# CircuitBreaker.StateReads — what a read of the state changes

`state()` makes the half-open check, so a run with reads put in is at times ahead of the run without
them by one check.  Over the script nobody can tell, because every action makes the check first.  In
memory a completion records without the check, and can tell.
-/

namespace ResilienceKit

open Mealy AsyncBreaker

variable {V : Type}

/-! ### Two runs of the overlapping system -/

namespace AsyncBreaker

/-- The step is a `state()`. -/
def reads (e : Timed ℚ (Ev V)) : Bool :=
  match e.ev with
  | .state => true
  | _ => false

variable {S : Type} {B : AsyncBreaker S} {cfg : BreakerConfig} {init : S}

/-- One event on two systems whose backends are related by `Q`. -/
theorem overlapped_step {Q : S → S → Prop} {s s' : Sys S} {e : Timed ℚ (Ev V)}
    (hQ : Q s.brk s'.brk) (hin : s.inflight = s'.inflight)
    (hadm : (B.admission e.time s.brk).2.admitted = (B.admission e.time s'.brk).2.admitted ∧
      Q (B.admission e.time s.brk).1 (B.admission e.time s'.brk).1)
    (hstate : (B.state e.time s.brk).2 = (B.state e.time s'.brk).2 ∧
      Q (B.state e.time s.brk).1 (B.state e.time s'.brk).1)
    (hsucc : recorded cfg ((B.overlapped cfg init).record s e) = .success →
      Q (B.recordSuccess e.time s.brk) (B.recordSuccess e.time s'.brk))
    (hfail : recorded cfg ((B.overlapped cfg init).record s e) = .failure →
      Q (B.recordFailure e.time s.brk) (B.recordFailure e.time s'.brk))
    (hreset : Q (B.reset e.time s.brk) (B.reset e.time s'.brk)) :
    let M := B.overlapped (V := V) cfg init
    M.out s e = M.out s' e ∧ (M.next s e).inflight = (M.next s' e).inflight ∧
      Q (M.next s e).brk (M.next s' e).brk := by
  obtain ⟨b, ids⟩ := s
  obtain ⟨b', ids'⟩ := s'
  obtain ⟨t, ev⟩ := e
  obtain rfl : ids = ids' := hin
  intro M
  cases ev with
  | call id =>
    obtain ⟨ha, hb⟩ := hadm
    dsimp only at ha hb
    cases hd : (B.admission t b').2.admitted with
    | true =>
      simp only [M, Mealy.out, Mealy.next, overlapped, ha.trans hd, hd, if_true]
      exact ⟨trivial, trivial, hb⟩
    | false =>
      simp only [M, Mealy.out, Mealy.next, overlapped, ha.trans hd, hd, Bool.false_eq_true,
        if_false]
      exact ⟨trivial, trivial, hb⟩
  | finish id o =>
    by_cases hid : id ∈ ids
    · have hrec : recorded cfg (M.record ⟨b, ids⟩ ⟨t, .finish id o⟩) = cfg.verdict o := by
        simp [M, recorded, Mealy.record, Mealy.out, overlapped, hid]
      rw [show (B.overlapped cfg init).record ⟨b, ids⟩ ⟨t, .finish id o⟩ =
        M.record ⟨b, ids⟩ ⟨t, .finish id o⟩ from rfl, hrec] at hsucc hfail
      simp only [M, Mealy.out, Mealy.next, overlapped, hid, if_true]
      refine ⟨trivial, trivial, ?_⟩
      unfold complete
      cases hv : cfg.verdict o with
      | success => exact hsucc hv
      | failure => exact hfail hv
      | uncounted => exact hQ
    · simp only [M, Mealy.out, Mealy.next, overlapped, hid, if_false]
      exact ⟨trivial, trivial, hQ⟩
  | state =>
    obtain ⟨ha, hb⟩ := hstate
    exact ⟨congrArg Out.reported ha, rfl, hb⟩
  | reset => exact ⟨rfl, rfl, hreset⟩

/-- A read on the second system alone. -/
theorem overlapped_read (B : AsyncBreaker S) (cfg : BreakerConfig) (init : S) (s : Sys S)
    {e : Timed ℚ (Ev V)} (he : reads e = true) :
    let M := B.overlapped (V := V) cfg init
    (M.next s e).inflight = s.inflight ∧ (M.next s e).brk = (B.state e.time s.brk).1 := by
  obtain ⟨t, ev⟩ := e
  cases ev with
  | state => exact ⟨rfl, rfl⟩
  | call id => cases he
  | finish id o => cases he
  | reset => cases he

/-- The backends related by `Q`, as of any time that is not before the history of the second run. -/
def Trailing (Q : ℚ → S → S → Prop) (l : List (Rec S V)) (s s' : Sys S) : Prop :=
  s.inflight = s'.inflight ∧ ∀ now, (∀ r ∈ l, r.ev.time ≤ now) → Q now s.brk s'.brk

theorem Trailing.step {Q : ℚ → S → S → Prop}
    (hmono : ∀ now now' b b', now ≤ now' → Q now b b' → Q now' b b') {l : List (Rec S V)}
    {r : Rec S V} {s s' : Sys S} (hin : s.inflight = s'.inflight)
    (hQ : Q r.ev.time s.brk s'.brk) : Trailing Q (l ++ [r]) s s' :=
  ⟨hin, fun _ hnow => hmono _ _ _ _ (hnow r (by simp)) hQ⟩

end AsyncBreaker

/-! ### In memory -/

namespace InMemoryAsyncBreaker

variable (cfg : BreakerConfig)

/-- The same breaker, or ahead by the half-open check that is due. -/
def Ahead (now : ℚ) (s s' : InMemoryAsyncBreaker) : Prop :=
  s' = s ∨ s' = maybeHalfOpen cfg now s

/-- What the step records does not depend on whether a due half-open check has been made. -/
def Insensitive (r : AsyncBreaker.Rec InMemoryAsyncBreaker V) : Prop :=
  (recorded cfg r = .success → maybeHalfOpen cfg r.ev.time r.pre.brk = r.pre.brk) ∧
  (recorded cfg r = .failure → maybeHalfOpen cfg r.ev.time r.pre.brk = r.pre.brk ∨
    cfg.failMax ≤ (r.pre.brk.failureCount + 1 : ℤ))

instance (r : AsyncBreaker.Rec InMemoryAsyncBreaker V) : Decidable (Insensitive cfg r) :=
  inferInstanceAs (Decidable (_ ∧ _))

variable {cfg}

/-- A check that changed something has been due ever since. -/
theorem maybeHalfOpen_later {now now' : ℚ} (hle : now ≤ now') (s : InMemoryAsyncBreaker) :
    maybeHalfOpen cfg now s = s ∨ maybeHalfOpen cfg now s = maybeHalfOpen cfg now' s := by
  rcases maybeHalfOpen_cases cfg now s with he | ⟨o, hs, ho, hT, he⟩
  · exact .inl he
  · have hge : now' - o ≥ cfg.resetTimeout := by
      show cfg.resetTimeout ≤ now' - o
      linarith
    refine .inr ?_
    rw [he, maybeHalfOpen, if_neg (not_not.mpr hs), ho]
    simp only [hge, if_true]

theorem maybeHalfOpen_idem (now : ℚ) (s : InMemoryAsyncBreaker) :
    maybeHalfOpen cfg now (maybeHalfOpen cfg now s) = maybeHalfOpen cfg now s := by
  rcases maybeHalfOpen_cases cfg now s with he | ⟨o, -, -, -, he⟩
  · rw [he, he]
  · rw [he]
    rfl

theorem Ahead.mono (now now' : ℚ) (s s' : InMemoryAsyncBreaker) (hle : now ≤ now')
    (ha : Ahead cfg now s s') : Ahead cfg now' s s' := by
  rcases ha with rfl | rfl
  · exact .inl rfl
  · rcases maybeHalfOpen_later hle s with he | he
    · exact .inl he
    · exact .inr he

theorem Ahead.check {now : ℚ} {s s' : InMemoryAsyncBreaker} (ha : Ahead cfg now s s') :
    maybeHalfOpen cfg now s' = maybeHalfOpen cfg now s := by
  rcases ha with rfl | rfl
  · rfl
  · exact maybeHalfOpen_idem now s

/-- A failure that opens wipes out everything the check may have changed. -/
theorem Ahead.failure {now : ℚ} {s s' : InMemoryAsyncBreaker} (ha : Ahead cfg now s s')
    (hf : maybeHalfOpen cfg now s = s ∨ cfg.failMax ≤ (s.failureCount + 1 : ℤ)) :
    recordFailure cfg now s' = recordFailure cfg now s := by
  rcases ha with rfl | rfl
  · rfl
  · rcases maybeHalfOpen_cases cfg now s with he | ⟨o, hs, -, -, he⟩
    · rw [he]
    · rcases hf with hf | hf
      · rw [hf]
      · rw [he, recordFailure_halfOpen rfl, recordFailure_opens (by simp [hs]) hf]
        rfl

/-- **Step lemma**: an event that both runs take. -/
theorem Ahead.step {s s' : Sys InMemoryAsyncBreaker} {e : Timed ℚ (Ev V)}
    (ha : Ahead cfg e.time s.brk s'.brk) (hin : s.inflight = s'.inflight)
    (hg : Insensitive cfg ((system cfg V).record s e)) :
    (system cfg V).out s e = (system cfg V).out s' e ∧
      ((system cfg V).next s e).inflight = ((system cfg V).next s' e).inflight ∧
      Ahead cfg e.time ((system cfg V).next s e).brk ((system cfg V).next s' e).brk := by
  have hc := ha.check
  have hcheck : Ahead cfg e.time (maybeHalfOpen cfg e.time s.brk)
      (maybeHalfOpen cfg e.time s'.brk) := .inl hc
  refine overlapped_step (B := breaker cfg) ha hin ⟨?_, hcheck⟩ ⟨?_, hcheck⟩ (fun hv => ?_)
    (fun hv => .inl (ha.failure (hg.2 hv))) (.inl rfl)
  · show decide ((maybeHalfOpen cfg e.time s.brk).state ≠ .OPEN) =
      decide ((maybeHalfOpen cfg e.time s'.brk).state ≠ .OPEN)
    rw [hc]
  · show (maybeHalfOpen cfg e.time s.brk).state = (maybeHalfOpen cfg e.time s'.brk).state
    rw [hc]
  · have hs : s'.brk = s.brk := by
      rcases ha with he | he
      · exact he
      · rw [he]
        exact hg.1 hv
    refine .inl ?_
    rw [hs]

/-- **Run lemma.** -/
theorem ahead_run {bs es : List (Timed ℚ (Ev V))} (hi : Inserted (fun e => reads e = true) bs es)
    (hc : Clocked es)
    (hg : (system cfg V).Along (fun _ s e => Insensitive cfg ((system cfg V).record s e))
      (system cfg V).init bs) :
    let M := system cfg V
    M.answers (fun e => !reads e) M.init bs = M.answers (fun e => !reads e) M.init es ∧
      Trailing (Ahead cfg) (M.log M.init es) (M.exec M.init bs) (M.exec M.init es) := by
  intro M
  refine answers_eq_of_inserted (M := M) (N := M) (fun e => !reads e)
    (R := Trailing (Ahead cfg)) ⟨rfl, fun _ _ => .inl rfl⟩
    (fun e he => by simp [he]) ?_ ?_ hi hg hc.along
  · rintro l l' s s' e ⟨hin, hQ⟩ hins hle
    obtain ⟨hout, hin', hQ'⟩ := (hQ e.time hle).step hin hins
    exact ⟨fun _ => hout, Trailing.step (r := M.record s' e) Ahead.mono hin' hQ'⟩
  · rintro l' s s' e ⟨hin, hQ⟩ he hle
    obtain ⟨hin', hb⟩ := overlapped_read (breaker cfg) cfg {} s' he
    refine Trailing.step (r := M.record s' e) Ahead.mono (hin.trans hin'.symm) ?_
    have hb' : (M.next s' e).brk = maybeHalfOpen cfg e.time s'.brk := hb
    rw [hb', (hQ e.time hle).check]
    exact .inr rfl

end InMemoryAsyncBreaker

/-! ### Over the script -/

namespace BreakerLua

open Redis

variable (cfg : BreakerConfig) (key : String)

/-- The same hash, or ahead by the half-open check that is due. -/
def Ahead (now : ℚ) (db db' : Db) : Prop :=
  (Wf key db ∧ Wf key db') ∧
    (hashOf key db' = hashOf key db ∨ hashOf key db' = checked cfg now (hashOf key db))

variable {cfg key}

theorem checked_later {now now' : ℚ} (hle : now ≤ now') (h : Hash) :
    checked cfg now h = h ∨ checked cfg now h = checked cfg now' h := by
  rcases checked_cases cfg now h with he | ⟨ho, hT, he⟩
  · exact .inl he
  · exact .inr (he.trans (checked_halfOpen ho (by linarith)).symm)

theorem checked_idem (now : ℚ) (h : Hash) :
    checked cfg now (checked cfg now h) = checked cfg now h := by
  rcases checked_cases cfg now h with he | ⟨-, -, he⟩
  · rw [he, he]
  · rw [he, checked_of_ne_open (by simp)]

theorem Ahead.mono (now now' : ℚ) (db db' : Db) (hle : now ≤ now')
    (ha : Ahead cfg key now db db') : Ahead cfg key now' db db' := by
  obtain ⟨hw, he | he⟩ := ha
  · exact ⟨hw, .inl he⟩
  · rcases checked_later hle (hashOf key db) with hs | hs
    · exact ⟨hw, .inl (he.trans hs)⟩
    · exact ⟨hw, .inr (he.trans hs)⟩

theorem Ahead.check {now : ℚ} {db db' : Db} (ha : Ahead cfg key now db db') :
    checked cfg now (hashOf key db') = checked cfg now (hashOf key db) := by
  obtain ⟨-, he | he⟩ := ha
  · rw [he]
  · rw [he, checked_idem]

section Step

variable {s s' : Sys Db} {e : Timed ℚ (Ev V)}

/-- Every script makes the check first, so both runs go on from the same hash. -/
theorem Ahead.eval (ha : Ahead cfg key e.time s.brk s'.brk) (hT : 0 < cfg.resetTimeout)
    (hf : Fresh key e.time s.brk) (hf' : Fresh key e.time s'.brk) (action : Action) :
    Ahead cfg key e.time (eval cfg key e.time action s.brk).1
      (eval cfg key e.time action s'.brk).1 := by
  obtain ⟨hw, hw'⟩ := ha.1
  have hl := eval_ok hw hT e.time action
  have hl' := eval_ok hw' hT e.time action
  refine ⟨⟨hl.wf hw, hl'.wf hw'⟩, .inl ?_⟩
  rw [hl.hashOf_fresh hw hf, hl'.hashOf_fresh hw' hf', hw.seen_fresh hf, hw'.seen_fresh hf', effect,
    effect, ha.check]

/-- **Step lemma**: an event that both runs take. -/
theorem Ahead.step (ha : Ahead cfg key e.time s.brk s'.brk) (hT : 0 < cfg.resetTimeout)
    (hin : s.inflight = s'.inflight) (hf : Fresh key e.time s.brk)
    (hf' : Fresh key e.time s'.brk) :
    (system cfg key V).out s e = (system cfg key V).out s' e ∧
      ((system cfg key V).next s e).inflight = ((system cfg key V).next s' e).inflight ∧
      Ahead cfg key e.time ((system cfg key V).next s e).brk
        ((system cfg key V).next s' e).brk := by
  obtain ⟨hw, hw'⟩ := ha.1
  have heval := ha.eval hT hf hf'
  obtain ⟨hflag, hst⟩ := eval_available hw hT e.time
  obtain ⟨hflag', hst'⟩ := eval_available hw' hT e.time
  have hsame : checked cfg e.time (seen e.time key s'.brk) =
      checked cfg e.time (seen e.time key s.brk) := by
    rw [hw.seen_fresh hf, hw'.seen_fresh hf', ha.check]
  rw [hsame] at hflag' hst'
  refine overlapped_step (B := breaker cfg key) ha hin ⟨?_, heval _⟩ ⟨hst.trans hst'.symm, heval _⟩
    (fun _ => heval _) (fun _ => heval _) (heval _)
  exact decide_eq_decide.mpr (hflag.trans hflag'.symm)

end Step

/-- **Run lemma.** -/
theorem ahead_run (hT : 0 < cfg.resetTimeout) {bs es : List (Timed ℚ (Ev V))}
    (hi : Inserted (fun e => reads e = true) bs es) (hc : Clocked es) (hbs : Timely cfg key bs)
    (hes : Timely cfg key es) :
    let R := system cfg key V
    R.answers (fun e => !reads e) R.init bs = R.answers (fun e => !reads e) R.init es ∧
      Trailing (Ahead cfg key) (R.log R.init es) (R.exec R.init bs) (R.exec R.init es) := by
  intro R
  refine answers_eq_of_inserted (M := R) (N := R) (fun e => !reads e)
    (R := Trailing (Ahead cfg key)) ⟨rfl, fun _ _ => ⟨⟨.inl rfl, .inl rfl⟩, .inl rfl⟩⟩
    (fun e he => by simp [he]) ?_ ?_ hi hbs (Along.and hes hc.along)
  · rintro l l' s s' e ⟨hin, hQ⟩ hf ⟨hf', hle⟩
    obtain ⟨hout, hin', hQ'⟩ := (hQ e.time hle).step hT hin hf hf'
    exact ⟨fun _ => hout, Trailing.step (r := R.record s' e) Ahead.mono hin' hQ'⟩
  · rintro l' s s' e ⟨hin, hQ⟩ he ⟨hf', hle⟩
    obtain ⟨hin', hb⟩ := overlapped_read (breaker cfg key) cfg (fun _ => none) s' he
    have ha := hQ e.time hle
    have hl := eval_ok ha.1.2 hT e.time .is_available
    have hb' : (R.next s' e).brk = (eval cfg key e.time .is_available s'.brk).1 := hb
    refine Trailing.step (r := R.record s' e) Ahead.mono (hin.trans hin'.symm) ?_
    rw [hb']
    refine ⟨⟨ha.1.1, hl.wf ha.1.2⟩, .inr ?_⟩
    rw [hl.hashOf_fresh ha.1.2 hf', ha.1.2.seen_fresh hf']
    exact ha.check

end BreakerLua

/-! ### Reads put in anywhere -/

/-- Reads put in anywhere change no answer to a call or a reset, and no report of the state at the end.
In memory this is so as long as the run without them records nothing on which a due half-open check has
a bearing; over the script as long as no hash expires. -/
theorem state_only_observes (cfg : BreakerConfig) (key : String) (bs es : List (Timed ℚ (Ev V)))
    (t : ℚ) (hi : Inserted (fun e => reads e = true) bs es) (hc : Clocked (es ++ [⟨t, .state⟩])) :
    let M := InMemoryAsyncBreaker.system cfg V
    let R := BreakerLua.system cfg key V
    (M.Along (fun _ s e => InMemoryAsyncBreaker.Insensitive cfg (M.record s e)) M.init bs →
      M.answers (fun e => !reads e) M.init bs = M.answers (fun e => !reads e) M.init es ∧
      M.out (M.exec M.init bs) ⟨t, .state⟩ = M.out (M.exec M.init es) ⟨t, .state⟩) ∧
    (0 < cfg.resetTimeout → BreakerLua.Timely cfg key (bs ++ [(⟨t, .state⟩ : Timed ℚ (Ev V))]) →
      BreakerLua.Timely cfg key (es ++ [(⟨t, .state⟩ : Timed ℚ (Ev V))]) →
      R.answers (fun e => !reads e) R.init bs = R.answers (fun e => !reads e) R.init es ∧
      R.out (R.exec R.init bs) ⟨t, .state⟩ = R.out (R.exec R.init es) ⟨t, .state⟩) := by
  intro M R
  have hc' : Clocked es := hc.of_append
  refine ⟨fun hg => ?_, fun hT hbs hes => ?_⟩
  · have hle : M.Along NotBefore M.init (es ++ [⟨t, .state⟩]) := hc.along
    obtain ⟨hvis, -, hQ⟩ := InMemoryAsyncBreaker.ahead_run hi hc' hg
    have hread := (hQ t hle.last).check
    exact ⟨hvis, congrArg (fun b => Out.reported (InMemoryAsyncBreaker.state b)) hread.symm⟩
  · have hle : R.Along NotBefore R.init (es ++ [⟨t, .state⟩]) := hc.along
    obtain ⟨hvis, hin, hQ⟩ :=
      BreakerLua.ahead_run hT hi hc' (Along.of_append hbs) (Along.of_append hes)
    have hstep := (hQ t hle.last).step (e := (⟨t, .state⟩ : Timed ℚ (Ev V))) hT hin
      (Along.last hbs) (Along.last hes)
    exact ⟨hvis, hstep.1⟩

theorem state_only_observes_before_probe :
    let cfg : BreakerConfig := { failMax := 1, resetTimeout := 10, successThreshold := 1 }
    let es : List (Timed ℚ (Ev ℕ)) := [⟨0, .call 1⟩, ⟨0, .finish 1 (.raised ⟨.transientError, 0⟩)⟩]
    let fs : List (Timed ℚ (Ev ℕ)) := [⟨11, .call 2⟩, ⟨12, .finish 2 (.returned 7)⟩]
    let M := InMemoryAsyncBreaker.system cfg ℕ
    let R := BreakerLua.system cfg "cb:svc" ℕ
    M.answers (fun e => !reads e) M.init (es ++ fs) =
        M.answers (fun e => !reads e) M.init (es ++ [⟨10, .state⟩] ++ fs) ∧
      R.answers (fun e => !reads e) R.init (es ++ fs) =
        R.answers (fun e => !reads e) R.init (es ++ [⟨10, .state⟩] ++ fs) := by
  intro cfg es fs M R
  have hi : Inserted (fun e => reads e = true) (es ++ fs) (es ++ [⟨10, .state⟩] ++ fs) :=
    Inserted.middle (p := fun e => reads e = true) rfl es fs
  obtain ⟨hmemory, hredis⟩ := state_only_observes cfg "cb:svc" (es ++ fs)
    (es ++ [⟨10, .state⟩] ++ fs) 13 hi (by decide +kernel)
  exact ⟨(hmemory (by decide +kernel)).1,
    (hredis (by decide +kernel) (by decide +kernel) (by decide +kernel)).1⟩

/-- A read that lets a late failure open the breaker again: three calls at 0, two fail at once and open,
the third fails at 10 and a fourth comes at 11.  Without the read at 10 it is admitted, with it it is
turned away. -/
theorem state_read_turns_call_away :
    let cfg : BreakerConfig := { failMax := 2, resetTimeout := 10 }
    let es : List (Timed ℚ (Ev ℕ)) := [⟨0, .call 1⟩, ⟨0, .call 2⟩, ⟨0, .call 3⟩,
      ⟨0, .finish 1 (.raised ⟨.transientError, 0⟩)⟩, ⟨0, .finish 2 (.raised ⟨.transientError, 1⟩)⟩]
    let fs : List (Timed ℚ (Ev ℕ)) := [⟨10, .finish 3 (.raised ⟨.transientError, 2⟩)⟩]
    let M := InMemoryAsyncBreaker.system cfg ℕ
    Inserted (fun e : Timed ℚ (Ev ℕ) => reads e = true) (es ++ fs) (es ++ [⟨10, .state⟩] ++ fs) ∧
      M.out (M.exec M.init (es ++ fs)) ⟨11, .call 4⟩ = .admitted ∧
      M.out (M.exec M.init (es ++ [⟨10, .state⟩] ++ fs)) ⟨11, .call 4⟩ = .shortCircuit := by
  intro cfg es fs M
  exact ⟨.middle (p := fun e => reads e = true) rfl es fs, by decide +kernel, by decide +kernel⟩

end ResilienceKit

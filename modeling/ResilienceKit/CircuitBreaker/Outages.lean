import ResilienceKit.CircuitBreaker.RedisClient

/-!
# CircuitBreaker.Outages — what opens the breaker across outages

The hash and the embedded breaker each count the failures they record, and neither hears of what the
other records or of what is lost.  A count that a machine holds in CLOSED is a streak of failures that
`call` has observed, unless `call` has observed a success since that the machine `missed`.  As long as no
failure is counted on top of such a stale count, the breaker opens only after `failMax` failures in a
row (`opens_after_failures_in_a_row`).
-/

namespace ResilienceKit.RedisAsyncBreaker

open Mealy AsyncBreaker BreakerLua Redis

variable {V : Type}

/-- A recorded step of the client. -/
abbrev Rec (V : Type) := Mealy.Step Sys (Timed ℚ (Ev V)) (Ans V)

section History

variable (cfg : BreakerConfig) (key : String)

/-- The outcome that `call` observes in the step. -/
def observed (r : Rec V) : Verdict :=
  match r.out with
  | .out (.finished o) => cfg.verdict o
  | _ => .uncounted

/-- What the step records on the machine `m`; a script that does not run records nothing. -/
def recordedOn (m : Machine) (r : Rec V) : Verdict :=
  match r.ev.ev with
  | .finish id o f =>
    if r.pre.inflight.lookup id = some m ∧ (m = .primary → f ≠ .before) then cfg.verdict o
    else .uncounted
  | _ => .uncounted

/-- The counted outcomes that `call` has observed.  Newest first, like the steps. -/
def counted (l : List (Rec V)) : List Verdict :=
  (l.map (observed cfg)).filter fun v => decide (v ≠ .uncounted)

/-- The failures observed since the last observed success.  Newest step first. -/
def streak : List (Rec V) → ℕ
  | [] => 0
  | r :: l =>
    match observed cfg r with
    | .failure => streak l + 1
    | .success => 0
    | .uncounted => streak l

/-- A success has been observed since the machine last recorded an outcome.  Newest step first. -/
def missed (m : Machine) : List (Rec V) → Bool
  | [] => false
  | r :: l =>
    if recordedOn cfg m r ≠ .uncounted then false
    else if observed cfg r = .success then true
    else missed m l

/-- State and failure count of a machine, as seen at `t`. -/
def held (m : Machine) (s : Sys) (t : ℚ) : BreakerState × ℕ :=
  match m with
  | .primary => ((seen t key s.world.db).state, (seen t key s.world.db).failureCount)
  | .fallback => (s.world.client.fallback.state, s.world.client.fallback.failureCount)

/-- The step takes the machine from CLOSED to OPEN. -/
def Opens (m : Machine) (r : Rec V) : Prop :=
  (held key m r.pre r.ev.time).1 = .CLOSED ∧ (held key m r.post r.ev.time).1 = .OPEN

instance (m : Machine) (r : Rec V) : Decidable (Opens key m r) :=
  inferInstanceAs (Decidable (_ ∧ _))

/-- No failure is counted on top of a count that is stale. -/
def Current (m : Machine) (l : List (Rec V)) (r : Rec V) : Prop :=
  recordedOn cfg m r = .failure → (held key m r.pre r.ev.time).1 = .CLOSED →
    0 < (held key m r.pre r.ev.time).2 → missed cfg m l.reverse = false

instance (m : Machine) (l : List (Rec V)) (r : Rec V) : Decidable (Current cfg key m l r) :=
  inferInstanceAs (Decidable (_ → _ → _ → _))

variable {cfg key}

theorem observed_of_recordedOn {m : Machine} (s : Sys) (e : Timed ℚ (Ev V)) {v : Verdict}
    (hv : recordedOn cfg m ((faulty cfg key V).record s e) = v) (hne : v ≠ .uncounted) :
    observed cfg ((faulty cfg key V).record s e) = v := by
  obtain ⟨t, ev⟩ := e
  cases ev with
  | finish id o f =>
    have hv' : (if s.inflight.lookup id = some m ∧ (m = .primary → f ≠ .before) then cfg.verdict o
        else .uncounted) = v := hv
    split_ifs at hv' with hc
    · simp [observed, Mealy.record, Mealy.out, faulty, hc.1, hv']
    · exact absurd hv'.symm hne
  | call id f => exact absurd hv.symm hne
  | state f => exact absurd hv.symm hne
  | reset f => exact absurd hv.symm hne
  | tryRecover pong => exact absurd hv.symm hne

/-- A streak of failures is what the counted outcomes start with. -/
theorem replicate_prefix_counted {n : ℕ} {l : List (Rec V)} (h : n ≤ streak cfg l) :
    List.replicate n .failure <+: counted cfg l := by
  induction l generalizing n with
  | nil =>
    obtain rfl : n = 0 := Nat.le_zero.mp h
    exact List.nil_prefix
  | cons r l ih =>
    unfold streak at h
    cases hv : observed cfg r with
    | failure =>
      simp only [hv] at h
      cases n with
      | zero => exact List.nil_prefix
      | succ n =>
        have := ih (Nat.le_of_succ_le_succ h)
        simpa [counted, hv, List.replicate_succ] using this
    | success =>
      simp only [hv] at h
      obtain rfl : n = 0 := Nat.le_zero.mp h
      exact List.nil_prefix
    | uncounted =>
      simp only [hv] at h
      simpa [counted, hv] using ih h

end History

/-! ### What a step does to the two machines -/

section Moves

variable {cfg : BreakerConfig} {key : String} {now : ℚ} {db db' : Db}

/-- The hash between two steps; with a timeout that is not positive it is never there. -/
structure Stored (cfg : BreakerConfig) (key : String) (db : Db) : Prop where
  wf : Wf key db
  past : cfg.resetTimeout ≤ 0 → db key = none

/-- What a script execution leaves. -/
inductive Ran (cfg : BreakerConfig) (key : String) (now : ℚ) (action : Action) (db db' : Db) : Prop
  | left (hT : 0 < cfg.resetTimeout)
      (hl : Left now key (lifetime cfg) db db' (effect cfg now action (seen now key db)))
      (hw : action.verdict ≠ .uncounted → hashOf key db' = effect cfg now action (seen now key db))
  | gone (h : db' key = none)

/-- What a step that records `v` on the hash does to it. -/
inductive OnPrimary (cfg : BreakerConfig) (key : String) (now : ℚ) (v : Verdict) (db db' : Db) : Prop
  | untouched (hv : v = .uncounted) (h : db' = db)
  | ran (action : Action) (hv : v = action.verdict) (h : Ran cfg key now action db db')

/-- What a step that records `v` on the embedded breaker does to it. -/
inductive OnFallback (cfg : BreakerConfig) (now : ℚ) (v : Verdict) (s s' : InMemoryAsyncBreaker) :
    Prop
  | untouched (hv : v = .uncounted) (h : s' = s)
  | check (hv : v = .uncounted) (h : s' = InMemoryAsyncBreaker.maybeHalfOpen cfg now s)
  | success (hv : v = .success) (h : s' = InMemoryAsyncBreaker.recordSuccess cfg s)
  | failure (hv : v = .failure) (h : s' = InMemoryAsyncBreaker.recordFailure cfg now s)
  | reset (hv : v = .uncounted) (h : s' = {})

theorem Stored.run (hs : Stored cfg key db) (now : ℚ) (action : Action) :
    ∃ r db', (BREAKER_LUA key action cfg.failMax cfg.successThreshold cfg.resetTimeout now).run db =
        .ok r db' ∧ Stored cfg key db' ∧ Ran cfg key now action db db' := by
  rcases le_or_gt cfg.resetTimeout 0 with hT | hT
  · obtain ⟨r, db', hrun, hgone⟩ := BREAKER_LUA_past (hs.past hT) hT now action
    exact ⟨r, db', hrun, ⟨.inl hgone, fun _ => hgone⟩, .gone hgone⟩
  · obtain ⟨r, db', hrun, hl, -, hw⟩ := BREAKER_LUA_ok hs.wf hT now action
    exact ⟨r, db', hrun, ⟨hl.wf hs.wf, fun hT' => absurd hT (not_lt.mpr hT')⟩, .left hT hl hw⟩

/-- `_eval` under any fault. -/
theorem Stored.eval (hs : Stored cfg key db) (now : ℚ) (f : Fault) (action : Action) :
    Stored cfg key (eval cfg key now f action db).1 ∧
      OnPrimary cfg key now (if f = .before then .uncounted else action.verdict) db
        (eval cfg key now f action db).1 := by
  obtain ⟨r, db', hrun, hs', hran⟩ := hs.run now action
  unfold RedisAsyncBreaker.eval
  rw [hrun]
  cases f with
  | none => exact ⟨hs', .ran action rfl hran⟩
  | before => exact ⟨hs, .untouched rfl rfl⟩
  | after => exact ⟨hs', .ran action rfl hran⟩

theorem markDegraded_fallback (now : ℚ) (s : RedisAsyncBreaker) :
    (s.markDegraded now).fallback = s.fallback := by
  unfold markDegraded
  split_ifs <;> rfl

/-- `_record` touches the hash alone. -/
theorem Stored.record {w : World} (hs : Stored cfg key w.db) (now : ℚ) (f : Fault)
    (action : Action) : Stored cfg key (record cfg key now f action w).db ∧
      OnPrimary cfg key now (if f = .before then .uncounted else action.verdict) w.db
        (record cfg key now f action w).db ∧
      (record cfg key now f action w).client.fallback = w.client.fallback := by
  obtain ⟨hs', hp⟩ := hs.eval now f action
  unfold RedisAsyncBreaker.record
  split
  · next db r he =>
    rw [he] at hs' hp
    exact ⟨hs', hp, rfl⟩
  · next db he =>
    rw [he] at hs' hp
    exact ⟨hs', hp, markDegraded_fallback now w.client⟩

/-- The step of `call` and `state` that reads: neither machine records anything. -/
structure Looked (cfg : BreakerConfig) (key : String) (t : ℚ) (w w' : World) : Prop where
  stored : Stored cfg key w'.db
  primary : OnPrimary cfg key t .uncounted w.db w'.db
  fallback : OnFallback cfg t .uncounted w.client.fallback w'.client.fallback

theorem Stored.available {w : World} (hs : Stored cfg key w.db) (t : ℚ) (f : Fault) :
    Stored cfg key (RedisAsyncBreaker.eval cfg key t f .is_available w.db).1 ∧
      OnPrimary cfg key t .uncounted w.db
        (RedisAsyncBreaker.eval cfg key t f .is_available w.db).1 := by
  have h := hs.eval t f .is_available
  cases f <;> exact h

theorem Stored.admission {w : World} (hs : Stored cfg key w.db) (t : ℚ) (f : Fault) :
    Looked cfg key t w (admission cfg key t f w).1 := by
  unfold RedisAsyncBreaker.admission
  by_cases hh : w.client.healthy = true
  · obtain ⟨hs', hp⟩ := hs.available t f
    rw [if_neg (not_not.mpr hh)]
    split
    · next db he =>
      rw [he] at hs' hp
      exact ⟨hs', hp, .check rfl (congrArg (InMemoryAsyncBreaker.maybeHalfOpen cfg t)
        (markDegraded_fallback t w.client))⟩
    · next db r he =>
      rw [he] at hs' hp
      exact ⟨hs', hp, .untouched rfl rfl⟩
  · rw [if_pos hh]
    exact ⟨hs, .untouched rfl rfl, .check rfl rfl⟩

theorem Stored.state {w : World} (hs : Stored cfg key w.db) (t : ℚ) (f : Fault) :
    Looked cfg key t w (state (V := V) cfg key t f w).1 := by
  unfold RedisAsyncBreaker.state
  by_cases hh : w.client.healthy = true
  · obtain ⟨hs', hp⟩ := hs.available t f
    rw [if_neg (not_not.mpr hh)]
    split
    · next db he =>
      rw [he] at hs' hp
      exact ⟨hs', hp, .check rfl (congrArg (InMemoryAsyncBreaker.maybeHalfOpen cfg t)
        (markDegraded_fallback t w.client))⟩
    · next db r he =>
      rw [he] at hs' hp
      exact ⟨hs', hp, .untouched rfl rfl⟩
  · rw [if_pos hh]
    exact ⟨hs, .untouched rfl rfl, .check rfl rfl⟩

/-- What a step does to the two machines. -/
structure Served (cfg : BreakerConfig) (key : String) (r : Rec V) : Prop where
  stored : Stored cfg key r.post.world.db
  primary : OnPrimary cfg key r.ev.time (recordedOn cfg .primary r) r.pre.world.db r.post.world.db
  fallback : OnFallback cfg r.ev.time (recordedOn cfg .fallback r) r.pre.world.client.fallback
    r.post.world.client.fallback

theorem Stored.complete {w : World} (hs : Stored cfg key w.db) (m : Machine) (t : ℚ) (f : Fault)
    (o : Outcome V) :
    let w' := complete cfg key m t f o w
    let v := fun m' => if m = m' ∧ (m' = .primary → f ≠ .before) then cfg.verdict o else .uncounted
    Stored cfg key w'.db ∧ OnPrimary cfg key t (v .primary) w.db w'.db ∧
      OnFallback cfg t (v .fallback) w.client.fallback w'.client.fallback := by
  intro w' v
  cases m with
  | fallback =>
    have hp : v .primary = .uncounted := by simp [v]
    have hf : v .fallback = cfg.verdict o := by simp [v]
    refine ⟨hs, .untouched hp rfl, ?_⟩
    have hw : w'.client.fallback =
        (InMemoryAsyncBreaker.breaker cfg).complete cfg t o w.client.fallback := rfl
    unfold AsyncBreaker.complete at hw
    cases hv : cfg.verdict o with
    | success => exact .success (hf.trans hv) (by rw [hw, hv]; rfl)
    | failure => exact .failure (hf.trans hv) (by rw [hw, hv]; rfl)
    | uncounted => exact .untouched (hf.trans hv) (by rw [hw, hv])
  | primary =>
    have hf : v .fallback = .uncounted := by simp [v]
    have hp : v .primary = if f = .before then .uncounted else cfg.verdict o := by
      by_cases hb : f = .before <;> simp [v, hb]
    cases hv : cfg.verdict o with
    | success =>
      obtain ⟨hs', hp', hf'⟩ := hs.record t f .record_success
      have hw : w' = RedisAsyncBreaker.record cfg key t f .record_success w := by
        simp only [w', RedisAsyncBreaker.complete, hv]
      rw [hw, hp, hv]
      exact ⟨hs', hp', .untouched hf hf'⟩
    | failure =>
      obtain ⟨hs', hp', hf'⟩ := hs.record t f .record_failure
      have hw : w' = RedisAsyncBreaker.record cfg key t f .record_failure w := by
        simp only [w', RedisAsyncBreaker.complete, hv]
      rw [hw, hp, hv]
      exact ⟨hs', hp', .untouched hf hf'⟩
    | uncounted =>
      have hw : w' = w := by simp only [w', RedisAsyncBreaker.complete, hv]
      rw [hw, hp, hv, ite_self]
      exact ⟨hs, .untouched rfl rfl, .untouched hf rfl⟩

/-- **Inversion**: what any step of the client does to the hash and to the embedded breaker. -/
theorem served {s : Sys} (hs : Stored cfg key s.world.db) (e : Timed ℚ (Ev V)) :
    Served cfg key ((faulty cfg key V).record s e) := by
  obtain ⟨t, ev⟩ := e
  cases ev with
  | call id f =>
    have h := hs.admission t f
    have hw : ((faulty cfg key V).next s ⟨t, .call id f⟩).world =
        (RedisAsyncBreaker.admission cfg key t f s.world).1 := by
      unfold Mealy.next faulty
      dsimp only
      split <;> rename_i he <;> rw [he]
    rw [← hw] at h
    exact ⟨h.stored, h.primary, h.fallback⟩
  | state f =>
    have h := hs.state (V := V) t f
    exact ⟨h.stored, h.primary, h.fallback⟩
  | reset f =>
    obtain ⟨hs', hp, -⟩ := hs.record t f .reset
    refine ⟨hs', ?_, .reset rfl rfl⟩
    cases f <;> exact hp
  | tryRecover pong =>
    have hf : (tryRecover pong s.world.client).1.fallback = s.world.client.fallback := by
      unfold tryRecover
      split_ifs <;> rfl
    exact ⟨hs, .untouched rfl rfl, .untouched rfl hf⟩
  | finish id o f =>
    cases hid : s.inflight.lookup id with
    | none =>
      have hstep : (faulty cfg key V).next s ⟨t, .finish id o f⟩ = s := by
        simp [Mealy.next, faulty, hid]
      have hrec : ∀ m, recordedOn cfg m ((faulty cfg key V).record s ⟨t, .finish id o f⟩) =
          .uncounted := by
        intro m
        simp [recordedOn, Mealy.record, hid]
      refine ⟨?_, .untouched (hrec _) ?_, .untouched (hrec _) ?_⟩
      · rw [record_post, hstep]
        exact hs
      · rw [record_post, hstep, record_pre]
      · rw [record_post, hstep, record_pre]
    | some m =>
      have hstep : ((faulty cfg key V).next s ⟨t, .finish id o f⟩).world =
          RedisAsyncBreaker.complete cfg key m t f o s.world := by
        simp [Mealy.next, faulty, hid]
      have hrec : ∀ m', recordedOn cfg m' ((faulty cfg key V).record s ⟨t, .finish id o f⟩) =
          if m = m' ∧ (m' = .primary → f ≠ .before) then cfg.verdict o else .uncounted := by
        intro m'
        simp [recordedOn, Mealy.record, hid]
      obtain ⟨hs', hp, hf⟩ := hs.complete m t f o
      refine ⟨?_, ?_, ?_⟩
      · rw [record_post, hstep]
        exact hs'
      · rw [hrec, record_post, hstep]
        exact hp
      · rw [hrec, record_post, hstep]
        exact hf

/-! ### What a step does to the counts -/

/-- What recording `v` at `now` does to the state and the count of a machine, as seen at any time. -/
structure Tallied (cfg : BreakerConfig) (v : Verdict) (now : ℚ) (pre post : ℚ → BreakerState × ℕ) :
    Prop where
  failure : v = .failure → ∀ t, (post t).1 = .CLOSED → (post t).2 = 0 ∨
    ((pre now).1 = .CLOSED ∧ (post t).2 = (pre now).2 + 1)
  success : v = .success → ∀ t, (post t).1 = .CLOSED → (post t).2 = 0
  quiet : v = .uncounted → ∀ t, (post t).1 = .CLOSED → (post t).2 = 0 ∨
    ∃ t', (pre t').1 = .CLOSED ∧ (post t).2 = (pre t').2
  opens : (pre now).1 = .CLOSED → (post now).1 = .OPEN →
    v = .failure ∧ cfg.failMax ≤ ((pre now).2 : ℤ) + 1

variable {v : Verdict}

theorem OnFallback.tallied {s s' : InMemoryAsyncBreaker} (h : OnFallback cfg now v s s') :
    Tallied cfg v now (fun _ => (s.state, s.failureCount)) (fun _ => (s'.state, s'.failureCount)) := by
  cases h with
  | untouched hv h =>
    subst hv h
    exact ⟨nofun, nofun, fun _ t hc => .inr ⟨t, hc, rfl⟩, fun h1 h2 => absurd (h1.symm.trans h2) (by decide)⟩
  | reset hv h =>
    subst hv h
    exact ⟨nofun, nofun, fun _ _ _ => .inl rfl, fun _ h2 => by simp at h2⟩
  | check hv h =>
    subst hv
    rcases InMemoryAsyncBreaker.maybeHalfOpen_cases cfg now s with he | ⟨o, ho, -, -, he⟩
    · obtain rfl := h.trans he
      exact ⟨nofun, nofun, fun _ t hc => .inr ⟨t, hc, rfl⟩, fun h1 h2 => absurd (h1.symm.trans h2) (by decide)⟩
    · obtain rfl := h.trans he
      exact ⟨nofun, nofun, fun _ _ hc => by simp at hc, fun _ h2 => by simp at h2⟩
  | success hv h =>
    subst hv
    by_cases hh : s.state = .HALF_OPEN
    · by_cases ht : cfg.successThreshold ≤ (s.successCount : ℤ) + 1
      · obtain rfl := h.trans (InMemoryAsyncBreaker.recordSuccess_closes hh ht)
        exact ⟨nofun, fun _ _ _ => rfl, nofun, fun _ h2 => by simp at h2⟩
      · obtain rfl := h.trans (InMemoryAsyncBreaker.recordSuccess_counts hh (not_le.mp ht))
        exact ⟨nofun, fun _ _ hc => by simp [hh] at hc, nofun, fun h1 => by simp [hh] at h1⟩
    · obtain rfl := h.trans (InMemoryAsyncBreaker.recordSuccess_other hh)
      exact ⟨nofun, fun _ _ _ => rfl, nofun, fun h1 h2 => absurd (h1.symm.trans h2) (by decide)⟩
  | failure hv h =>
    subst hv
    by_cases hh : s.state = .HALF_OPEN
    · obtain rfl := h.trans (InMemoryAsyncBreaker.recordFailure_halfOpen hh)
      exact ⟨fun _ _ hc => (by cases hc), nofun, nofun, fun h1 => by simp [hh] at h1⟩
    · by_cases ht : cfg.failMax ≤ (s.failureCount : ℤ) + 1
      · obtain rfl := h.trans (InMemoryAsyncBreaker.recordFailure_opens hh ht)
        exact ⟨fun _ _ hc => (by cases hc), nofun, nofun, fun _ _ => ⟨rfl, ht⟩⟩
      · obtain rfl := h.trans (InMemoryAsyncBreaker.recordFailure_counts hh (not_le.mp ht))
        exact ⟨fun _ _ hc => .inr ⟨hc, rfl⟩, nofun, nofun, fun h1 h2 => absurd (h1.symm.trans h2) (by decide)⟩

/-- State and count of the hash, as seen at `t`. -/
def tally (key : String) (db : Db) (t : ℚ) : BreakerState × ℕ :=
  ((seen t key db).state, (seen t key db).failureCount)

theorem tally_cases (hw : Wf key db) (t : ℚ) :
    tally key db t = ((hashOf key db).state, (hashOf key db).failureCount) ∨
      tally key db t = (.CLOSED, 0) := by
  unfold tally
  rcases hw.seen_cases t with he | he
  · exact .inl (by rw [he])
  · exact .inr (by rw [he])

/-- A script that only looks. -/
theorem tallied_looked (hw : Wf key db) (hT : 0 < cfg.resetTimeout)
    (hl : Left now key (lifetime cfg) db db' (checked cfg now (seen now key db))) :
    Tallied cfg .uncounted now (tally key db) (tally key db') := by
  refine ⟨nofun, nofun, fun _ t hc => ?_, fun h1 h2 => ?_⟩
  · rcases tally_cases (hl.wf hw) t with ht | ht
    · rcases hl.hashOf_eq with he | ⟨rfl, -⟩
      · rw [ht, he] at hc
        refine .inr ⟨now, ?_, ?_⟩
        · rw [← hc, checked_of_closed hc]
          rfl
        · rw [ht, he, checked_of_closed hc]
          rfl
      · exact .inr ⟨t, hc, rfl⟩
    · exact .inl (by rw [ht])
  · rw [tally, hl.seen_eq (lifetime_pos hT)] at h2
    exact absurd (h1.symm.trans (open_of_checked h2)) (by decide)

theorem tallied_success (hw : Wf key db') (hT : 0 < cfg.resetTimeout)
    (hl : Left now key (lifetime cfg) db db' (succeeded cfg (checked cfg now (seen now key db))))
    (hwrote : hashOf key db' = succeeded cfg (checked cfg now (seen now key db))) :
    Tallied cfg .success now (tally key db) (tally key db') := by
  refine ⟨nofun, fun _ t hc => ?_, nofun, fun h1 h2 => ?_⟩
  · rcases tally_cases hw t with ht | ht
    · rw [ht, hwrote] at hc ⊢
      exact succeeded_count_of_closed hc
    · rw [ht]
  · rw [tally, hl.seen_eq (lifetime_pos hT)] at h2
    exact absurd (h1.symm.trans (open_of_checked ((succeeded_open_iff cfg _).mp h2))) (by decide)

theorem tallied_failure (hw : Wf key db') (hT : 0 < cfg.resetTimeout)
    (hl : Left now key (lifetime cfg) db db' (failed cfg now (checked cfg now (seen now key db))))
    (hwrote : hashOf key db' = failed cfg now (checked cfg now (seen now key db))) :
    Tallied cfg .failure now (tally key db) (tally key db') := by
  refine ⟨fun _ t hc => ?_, nofun, nofun, fun h1 h2 => ?_⟩
  · rcases tally_cases hw t with ht | ht
    · rw [ht, hwrote] at hc ⊢
      obtain ⟨-, ho | he⟩ := failed_state_cases cfg now (checked cfg now (seen now key db))
      · exact absurd (ho.symm.trans hc) (by decide)
      · have hcl := he.symm.trans hc
        have hsame := checked_of_closed hcl
        rw [failed_count]
        rw [hsame] at hcl ⊢
        exact .inr ⟨hcl, rfl⟩
    · exact .inl (by rw [ht])
  · have hcl : (seen now key db).state = .CLOSED := h1
    rw [tally, hl.seen_eq (lifetime_pos hT), checked_of_ne_open (by simp [hcl])] at h2
    refine ⟨rfl, ?_⟩
    by_contra hlt
    rw [failed_counts hcl (not_le.mp hlt)] at h2
    exact absurd (hcl.symm.trans h2) (by decide)

theorem OnPrimary.tallied (hw : Wf key db) (h : OnPrimary cfg key now v db db') :
    Tallied cfg v now (tally key db) (tally key db') := by
  have hkept : ∀ {db'}, (∀ t, tally key db' t = (.CLOSED, 0) ∨ tally key db' t = tally key db t) →
      Tallied cfg .uncounted now (tally key db) (tally key db') := by
    intro db' hall
    refine ⟨nofun, nofun, fun _ t hc => ?_, fun h1 h2 => ?_⟩
    · rcases hall t with ht | ht
      · exact .inl (by rw [ht])
      · exact .inr ⟨t, by rw [← ht]; exact hc, by rw [ht]⟩
    · rcases hall now with ht | ht
      · rw [ht] at h2
        cases h2
      · rw [ht] at h2
        exact absurd (h1.symm.trans h2) (by decide)
  cases h with
  | untouched hv h =>
    subst hv h
    exact hkept fun t => .inr rfl
  | ran action hv h =>
    cases h with
    | gone hgone =>
      have hpost : ∀ t, tally key db' t = (.CLOSED, 0) := by
        intro t
        rw [tally, seen_of_invisible (visible_none hgone)]
      exact ⟨fun _ t _ => .inl (by rw [hpost]), fun _ t _ => by rw [hpost],
        fun _ t _ => .inl (by rw [hpost]), fun _ h2 => by simp [hpost] at h2⟩
    | left hT hl hwrote =>
      subst hv
      cases action with
      | is_available => exact tallied_looked hw hT hl
      | get_stats => exact tallied_looked hw hT hl
      | other name => exact tallied_looked hw hT hl
      | record_success => exact tallied_success (hl.wf hw) hT hl (hwrote (by decide))
      | record_failure => exact tallied_failure (hl.wf hw) hT hl (hwrote (by decide))
      | reset =>
        refine hkept fun t => ?_
        rcases hl.hashOf_eq with he | ⟨rfl, -⟩
        · rcases tally_cases (hl.wf hw) t with ht | ht
          · exact .inl (by rw [ht, he]; rfl)
          · exact .inl ht
        · exact .inr rfl

end Moves

/-! ### Whole runs -/

section Runs

variable {cfg : BreakerConfig} {key : String}

theorem Served.tallied {r : Rec V} (hs : Served cfg key r) (hw : Wf key r.pre.world.db)
    (m : Machine) : Tallied cfg (recordedOn cfg m r) r.ev.time (held key m r.pre)
      (held key m r.post) := by
  cases m with
  | primary => exact hs.primary.tallied hw
  | fallback => exact hs.fallback.tallied

/-- What a machine counts in CLOSED has been observed in a row, unless it missed a success. -/
def Sound (cfg : BreakerConfig) (key : String) (m : Machine) (l : List (Rec V)) (s : Sys) : Prop :=
  ∀ t, (held key m s t).1 = .CLOSED →
    (held key m s t).2 ≤ streak cfg l.reverse ∨ missed cfg m l.reverse = true

/-- **Step lemma.** -/
theorem Sound.step {m : Machine} {l : List (Rec V)} {s : Sys} {e : Timed ℚ (Ev V)}
    (hsound : Sound cfg key m l s) (hs : Served cfg key ((faulty cfg key V).record s e))
    (hw : Wf key s.world.db) (hc : Current cfg key m l ((faulty cfg key V).record s e)) :
    Sound cfg key m (l ++ [(faulty cfg key V).record s e]) ((faulty cfg key V).next s e) := by
  set r := (faulty cfg key V).record s e with hr
  have ht := hs.tallied hw m
  intro t hclosed
  rw [List.reverse_append, List.reverse_singleton, List.singleton_append, streak, missed]
  cases hv : recordedOn cfg m r with
  | failure =>
    have hobs := observed_of_recordedOn s e hv (by decide)
    rw [← hr] at hobs
    left
    rw [hobs]
    rcases ht.failure hv t hclosed with h0 | ⟨hpre, hcount⟩
    · exact h0.trans_le (Nat.zero_le _)
    · rw [record_post] at hcount
      rw [hcount]
      refine Nat.succ_le_succ ?_
      by_cases hpos : 0 < (held key m r.pre r.ev.time).2
      · rcases hsound e.time hpre with hle | hmiss
        · exact hle
        · exact absurd (hmiss.symm.trans (hc hv hpre hpos)) (by decide)
      · exact (Nat.eq_zero_of_not_pos hpos).trans_le (Nat.zero_le _)
  | success => exact .inl ((ht.success hv t hclosed).trans_le (Nat.zero_le _))
  | uncounted =>
    rcases ht.quiet hv t hclosed with h0 | ⟨t', hpre, hcount⟩
    · exact .inl (h0.trans_le (Nat.zero_le _))
    · rw [record_post] at hcount
      rw [hcount]
      simp only [ne_eq, not_true_eq_false, if_false]
      -- another machine recorded the outcome, or nobody did
      cases hobs : observed cfg r with
      | success => exact .inr rfl
      | failure => exact (hsound t' hpre).imp (fun h => h.trans (Nat.le_succ _)) fun h => by simpa using h
      | uncounted => exact (hsound t' hpre).imp id fun h => by simpa using h

/-- **Run lemma.** -/
theorem sound_run {es : List (Timed ℚ (Ev V))}
    (hG : (faulty cfg key V).Along
      (fun l s e => ∀ m, Current cfg key m l ((faulty cfg key V).record s e)) {} es) :
    let M := faulty cfg key V
    Stored cfg key (M.exec {} es).world.db ∧ ∀ m, Sound cfg key m (M.log {} es) (M.exec {} es) := by
  intro M
  refine Along.induct (M := M) (P := fun l s => Stored cfg key s.world.db ∧
    ∀ m, Sound cfg key m l s) ⟨⟨.inl rfl, fun _ => rfl⟩, ?_⟩ ?_ hG
  · intro m t _
    left
    cases m <;> exact Nat.le_of_eq rfl
  · rintro l s e ⟨hs, hsound⟩ hc
    have hserved := served (V := V) hs e
    exact ⟨hserved.stored, fun m => (hsound m).step hserved hs.wf (hc m)⟩

/-- Whole runs of the client, under any faults and recoveries: as long as no failure is counted on top of
a count that missed a success, whichever machine goes from CLOSED to OPEN does so after `failMax`
observed failures in a row. -/
theorem opens_after_failures_in_a_row (cfg : BreakerConfig) (key : String)
    (es : List (Timed ℚ (Ev V))) (e : Timed ℚ (Ev V)) (m : Machine)
    (hG : (faulty cfg key V).Along
      (fun l s e => ∀ m, Current cfg key m l ((faulty cfg key V).record s e)) {} (es ++ [e])) :
    let M := faulty cfg key V
    let r := M.record (M.exec {} es) e
    Opens key m r →
      List.replicate cfg.failMax.toNat .failure <+: counted cfg (r :: (M.log {} es).reverse) := by
  intro M r hopens
  obtain ⟨hs, hsound⟩ := sound_run hG.of_append
  have ht := (served (V := V) hs e).tallied hs.wf m
  obtain ⟨hv, hle⟩ : recordedOn cfg m r = .failure ∧
      cfg.failMax ≤ ((held key m r.pre r.ev.time).2 : ℤ) + 1 := ht.opens hopens.1 hopens.2
  have hobs := observed_of_recordedOn _ e hv (by decide)
  refine replicate_prefix_counted ?_
  have hcount : (held key m r.pre r.ev.time).2 ≤ streak cfg (M.log {} es).reverse := by
    by_cases hpos : 0 < (held key m r.pre r.ev.time).2
    · rcases hsound m e.time hopens.1 with hle | hmiss
      · exact hle
      · exact absurd (hmiss.symm.trans (hG.last m hv hopens.1 hpos)) (by decide)
    · omega
  have hstreak : streak cfg (r :: (M.log {} es).reverse) = streak cfg (M.log {} es).reverse + 1 := by
    rw [streak, hobs]
  rw [hstreak]
  omega

theorem opens_after_failures_in_a_row_lost_reply :
    let cfg : BreakerConfig := { failMax := 2 }
    let es : List (Timed ℚ (Ev ℕ)) := [⟨0, .call 1 .none⟩,
      ⟨1, .finish 1 (.raised ⟨.transientError, 0⟩) .after⟩, ⟨2, .tryRecover true⟩, ⟨3, .call 2 .none⟩]
    let e : Timed ℚ (Ev ℕ) := ⟨4, .finish 2 (.raised ⟨.transientError, 1⟩) .none⟩
    let M := faulty cfg "cb:svc" ℕ
    let r := M.record (M.exec {} es) e
    [.failure, .failure] <+: counted cfg (r :: (M.log {} es).reverse) := by
  intro cfg es e M r
  exact opens_after_failures_in_a_row cfg "cb:svc" es e .primary (by decide +kernel)
    (by decide +kernel)

/-- A success that the hash missed: with `failMax` 2 a call fails, the next script execution raises and
the fallback serves a call that succeeds, Redis recovers, and the next failure opens the breaker. -/
theorem stale_count_opens :
    let cfg : BreakerConfig := { failMax := 2 }
    let es : List (Timed ℚ (Ev ℕ)) := [⟨0, .call 1 .none⟩,
      ⟨1, .finish 1 (.raised ⟨.transientError, 0⟩) .none⟩, ⟨2, .call 2 .before⟩,
      ⟨3, .finish 2 (.returned 7) .none⟩, ⟨4, .tryRecover true⟩, ⟨5, .call 3 .none⟩]
    let e : Timed ℚ (Ev ℕ) := ⟨6, .finish 3 (.raised ⟨.transientError, 1⟩) .none⟩
    let M := faulty cfg "cb:svc" ℕ
    let r := M.record (M.exec {} es) e
    Opens "cb:svc" .primary r ∧
      counted cfg (r :: (M.log {} es).reverse) = [.failure, .success, .failure] ∧
      ¬ List.replicate cfg.failMax.toNat .failure <+: counted cfg (r :: (M.log {} es).reverse) := by
  decide +kernel

end Runs

end ResilienceKit.RedisAsyncBreaker

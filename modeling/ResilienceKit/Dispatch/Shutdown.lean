import ResilienceKit.Dispatch.Delivery

/-!
# Dispatch.Shutdown — what has been counted when `aclose` returns

Until `aclose` returns, every submitted event is counted, queued or in the worker's hand (`Balanced`).  A
timeout counts what is queued; what the worker holds then is counted by nobody.
-/

namespace ResilienceKit.FireAndForget

variable {T C : Type} {cfg : Config} {s : Dispatcher T C} {l : History T C}

/-- The sum of the values emitted to `flushed`, `flush_failed` and `dropped`. -/
def Dispatcher.counted (s : Dispatcher T C) : ℕ := s.flushed + s.flushFailed + s.dropped

/-- The worker's batch when the timeout of `aclose` strikes. -/
def abandonedItems (r : Mealy.Step (Dispatcher T C) (Ev T C) (Out T C)) : List (Item T) :=
  match r.ev with
  | .timeout => if r.pre.closing = .draining then r.pre.worker.hand else []
  | _ => []

/-- The events that a stopped worker held. -/
def abandoned (l : History T C) : List (Item T) := l.flatMap abandonedItems

theorem abandoned_concat (l : History T C) (r : Mealy.Step (Dispatcher T C) (Ev T C) (Out T C)) :
    abandoned (l ++ [r]) = abandoned l ++ abandonedItems r := by
  simp [abandoned]

/-- Every event is counted, queued or in the worker's hand. -/
structure Balanced (s : Dispatcher T C) : Prop where
  sum : s.submits = s.counted + s.queue.items.length + s.worker.hand.length
  absent : s.worker = .absent → s.queue.items = []

theorem exists_ensureStarted (s : Dispatcher T C) (ctx : C) : ∃ w : Worker T C,
    ensureStarted s ctx = { s with worker := w } ∧ w ≠ .absent ∧ w.hand = s.worker.hand := by
  refine ⟨_, ensureStarted_eq s ctx, ?_, ensureStarted_hand s ctx⟩
  unfold ensureStarted
  rcases hw : s.worker with _ | ⟨ctx', phase⟩ | _
  · simp
  · simp [hw]
  · simp

namespace Balanced

theorem submit (hb : Balanced s) {event : T} {ctx : C} {res : Dispatcher T C × Out T C}
    (h : Submitted cfg s event ctx res) : Balanced res.1 := by
  have hsum := hb.sum
  obtain ⟨w, hw, hne, hhand⟩ := exists_ensureStarted s ctx
  cases h with
  | closed hc => exact hb
  | @accepted queue hc hroom hput =>
    rw [hw]
    refine ⟨?_, fun h => absurd h hne⟩
    show s.submits + 1 = s.counted + queue.items.length + w.hand.length
    rw [hput.items, hhand, List.length_append, List.length_singleton]
    omega
  | refused hc hfull hp =>
    rw [hw]
    refine ⟨?_, fun h => absurd h hne⟩
    show s.submits + 1 = s.flushed + s.flushFailed + (s.dropped + 1) + s.queue.items.length + w.hand.length
    rw [hhand, hsum, Dispatcher.counted]
    omega
  | @displaced old rest queue hc hfull hp hgot hput =>
    rw [hw] at hput ⊢
    refine ⟨?_, fun h => absurd h hne⟩
    show s.submits + 1 = s.flushed + s.flushFailed + (s.dropped + 1) + queue.items.length + w.hand.length
    have hitems : queue.items = rest.items ++ [(s.submits, event)] := hput.items
    rw [hgot.items, List.length_cons] at hsum
    rw [hitems, hhand, hsum, List.length_append, List.length_singleton, Dispatcher.counted]
    omega

/-- A calm step keeps the balance. -/
theorem step (hb : Balanced s) {b : Ledger T} (hs : Invariant cfg b s) {e : Ev T C} (hcalm : e.Calm)
    {res : Dispatcher T C × Out T C} (h : Stepped cfg s e res) : Balanced res.1 := by
  have hsum := hb.sum
  cases h with
  | submit event ctx => exact hb.submit (hs.submitted event ctx)
  | idle h ht => exact hb
  | @got ctx first queue hw hgot =>
    rw [hw, hgot.items, List.length_cons] at hsum
    refine ⟨?_, by simp⟩
    show s.submits = s.counted + queue.items.length + 1
    rw [hsum]
    show s.counted + (queue.items.length + 1) + 0 = _
    omega
  | @filled ctx batch event queue hw hgot hmax =>
    rw [hw, hgot.items, List.length_cons] at hsum
    refine ⟨?_, by simp⟩
    show s.submits = s.counted + queue.items.length + (batch ++ [event]).length
    rw [hsum, List.length_append, List.length_singleton]
    show s.counted + (queue.items.length + 1) + batch.length = _
    omega
  | handed hw =>
    rw [hw] at hsum
    exact ⟨hsum, by simp⟩
  | @flushed ctx batch raised hw =>
    rw [hs.flushEnd_eq raised hw]
    rw [hw] at hsum
    refine ⟨?_, by simp [flushDone]⟩
    show s.submits = s.flushed + (if raised then 0 else batch.length) +
      (s.flushFailed + if raised then batch.length else 0) + s.dropped + s.queue.items.length + 0
    rw [hsum]
    show s.flushed + s.flushFailed + s.dropped + s.queue.items.length + batch.length = _
    split_ifs <;> omega
  | unused hc hw => exact ⟨hsum, hb.absent⟩
  | closing hc hw => exact ⟨hsum, hb.absent⟩
  | drained hd hj =>
    rw [(hs.hand_of_joined hj).2] at hsum
    exact ⟨hsum, by simp⟩
  | timedOut hd => exact absurd hcalm not_false
  | cancelled hw => exact absurd hcalm not_false

end Balanced

/-! ### When `aclose` returns -/

theorem Ledger.of_quiet {r : Mealy.Step (Dispatcher T C) (Ev T C) (Out T C)}
    (h : r.out = .none ∨ ∃ x, r.out = .raised x) : Ledger.of (l ++ [r]) = Ledger.of l := by
  rw [Ledger.of_concat]
  rcases h with h | ⟨x, h⟩ <;>
    simp [acceptedItem, refusedItem, displacedItem, handedBatch, finishedBatch, h]

/-- A step adds to the submitted events what it adds to their number. -/
theorem submits_step {b : Ledger T} (hs : Invariant cfg b s) {e : Ev T C}
    {res : Dispatcher T C × Out T C} (h : Stepped cfg s e res) :
    (Ledger.of (l ++ [⟨s, e, res.2, res.1⟩])).submitted.length + s.submits =
      (Ledger.of l).submitted.length + res.1.submits := by
  have hquiet : res.2 = .none → res.1.submits = s.submits →
      (Ledger.of (l ++ [⟨s, e, res.2, res.1⟩])).submitted.length + s.submits =
        (Ledger.of l).submitted.length + res.1.submits := by
    intro hout hsub
    rw [Ledger.of_quiet (Or.inl hout), hsub]
  cases h with
  | submit event ctx =>
    have h := hs.submitted event ctx
    generalize submit cfg s event ctx = res at h
    rw [Ledger.of_concat]
    cases h with
    | closed hc => simp [Ledger.submitted, acceptedItem, refusedItem]
    | accepted hc hroom hput =>
      simp [Ledger.submitted, acceptedItem, refusedItem, accept]
      omega
    | refused hc hfull hp =>
      simp [Ledger.submitted, acceptedItem, refusedItem]
      omega
    | displaced hc hfull hp hgot hput =>
      simp [Ledger.submitted, acceptedItem, refusedItem, accept]
      omega
  | idle h ht => exact hquiet rfl rfl
  | got hw hgot => exact hquiet rfl rfl
  | filled hw hgot hmax => exact hquiet rfl rfl
  | handed hw =>
    rw [Ledger.of_concat]
    simp [Ledger.submitted, acceptedItem, refusedItem]
  | flushed raised hw =>
    rw [Ledger.of_concat, hs.flushEnd_eq raised hw]
    simp [Ledger.submitted, acceptedItem, refusedItem, flushDone]
  | unused hc hw => exact hquiet rfl rfl
  | closing hc hw => exact hquiet rfl rfl
  | drained hd hj => exact hquiet rfl rfl
  | timedOut hd => exact hquiet rfl rfl
  | cancelled hw => exact hquiet rfl rfl

/-- The history is accounted for. -/
structure Accounted (cfg : Config) (l : History T C) (s : Dispatcher T C) : Prop where
  waiting : s.closing ≠ .returned → Invariant cfg (Ledger.of l) s ∧ Balanced s ∧ abandoned l = []
  returned : s.closing = .returned → (∀ ctx phase, s.worker ≠ .running ctx phase) ∧
    s.submits = s.counted + (abandoned l).length
  closed : s.closing ≠ .no → s.closed = true
  calls : (Ledger.of l).submitted.length = s.submits

namespace Accounted

theorem initial (cfg : Config) : Accounted cfg [] (system cfg T C).init where
  waiting _ := ⟨Invariant.initial cfg, ⟨rfl, fun _ => rfl⟩, rfl⟩
  returned h := by cases h
  closed h := absurd rfl h
  calls := rfl

/-- Nothing happens after `aclose` has returned. -/
theorem still (hr : s.closing = .returned) (hc : s.closed = true)
    (hw : ∀ ctx phase, s.worker ≠ .running ctx phase) {e : Ev T C} {res : Dispatcher T C × Out T C}
    (h : Stepped cfg s e res) : res.1 = s ∧ (res.2 = .none ∨ ∃ x, res.2 = .raised x) := by
  cases h with
  | submit event ctx =>
    rw [submit, if_pos hc]
    exact ⟨rfl, Or.inr ⟨_, rfl⟩⟩
  | idle h ht => exact ⟨rfl, Or.inl rfl⟩
  | got hw' hgot => exact absurd hw' (hw _ _)
  | filled hw' hgot hmax => exact absurd hw' (hw _ _)
  | handed hw' => exact absurd hw' (hw _ _)
  | flushed raised hw' => exact absurd hw' (hw _ _)
  | unused hc' hw' =>
    rw [hc] at hc'
    cases hc'
  | closing hc' hw' =>
    rw [hc] at hc'
    cases hc'
  | drained hd hj =>
    rw [hr] at hd
    cases hd
  | timedOut hd =>
    rw [hr] at hd
    cases hd
  | cancelled hw' => exact absurd hw' (hw _ _)

/-- `aclose` returns calmly when nothing is left. -/
theorem nothing_left {b : Ledger T} (hs : Invariant cfg b s) (hb : Balanced s)
    (hopen : s.closing ≠ .returned) {e : Ev T C} (hcalm : e.Calm) {res : Dispatcher T C × Out T C}
    (h : Stepped cfg s e res) (hret : res.1.closing = .returned) :
    (∀ ctx phase, res.1.worker ≠ .running ctx phase) ∧ res.1.queue.items = [] ∧ res.1.worker.hand = [] := by
  cases h with
  | submit event ctx =>
    rw [(hs.submitted event ctx).closing.1] at hret
    exact absurd hret hopen
  | idle h ht => exact absurd hret hopen
  | got hw hgot => exact absurd hret hopen
  | filled hw hgot hmax => exact absurd hret hopen
  | handed hw => exact absurd hret hopen
  | flushed raised hw =>
    rw [hs.flushEnd_eq raised hw] at hret
    exact absurd hret hopen
  | unused hc hw =>
    refine ⟨fun ctx phase h => ?_, hb.absent hw, ?_⟩
    · rw [hw] at h
      cases h
    · show s.worker.hand = []
      rw [hw]
      rfl
  | closing hc hw => cases hret
  | drained hd hj => exact ⟨by simp, (hs.hand_of_joined hj).1, rfl⟩
  | timedOut hd => exact absurd hcalm not_false
  | cancelled hw => exact absurd hcalm not_false

/-- Neither the history nor the state tells of a step that does nothing. -/
theorem quiet (ha : Accounted cfg l s) {r : Mealy.Step (Dispatcher T C) (Ev T C) (Out T C)}
    (ho : r.out = .none ∨ ∃ x, r.out = .raised x) (hr : abandonedItems r = []) :
    Accounted cfg (l ++ [r]) s := by
  have hledger := Ledger.of_quiet (l := l) ho
  have hsame : abandoned (l ++ [r]) = abandoned l := by rw [abandoned_concat, hr, List.append_nil]
  exact {
    waiting := by
      rw [hledger, hsame]
      exact ha.waiting
    returned := by
      rw [hsame]
      exact ha.returned
    closed := ha.closed
    calls := by
      rw [hledger]
      exact ha.calls }

/-- Who has begun to close has closed. -/
theorem closed_step {b : Ledger T} (hs : Invariant cfg b s) (hc : s.closing ≠ .no → s.closed = true)
    {e : Ev T C} {res : Dispatcher T C × Out T C} (h : Stepped cfg s e res) :
    res.1.closing ≠ .no → res.1.closed = true := by
  cases h with
  | submit event ctx =>
    obtain ⟨hclosing, hclosed⟩ := (hs.submitted event ctx).closing
    rw [hclosing, hclosed]
    exact hc
  | idle h ht => exact hc
  | got hw hgot => exact hc
  | filled hw hgot hmax => exact hc
  | handed hw => exact hc
  | flushed raised hw =>
    rw [hs.flushEnd_eq raised hw]
    exact hc
  | unused hc' hw => exact fun _ => rfl
  | closing hc' hw => exact fun _ => rfl
  | drained hd hj => exact fun _ => hc (by simp [hd])
  | timedOut hd => exact fun _ => hc (by simp [hd])
  | cancelled hw => exact hc

/-- The timeout counts what is queued and leaves out what the worker holds. -/
theorem timedOut (ha : Accounted cfg l s) (hb : Balanced s) (hnone : abandoned l = [])
    (hd : s.closing = .draining) {s' : Dispatcher T C} (hs' : s' = { s with
      dropped := s.dropped + s.queue.items.length
      worker := .done
      closing := .returned }) : Accounted cfg (l ++ [⟨s, .timeout, .none, s'⟩]) s' := by
  subst hs'
  have hsum := hb.sum
  exact {
    waiting := fun h => absurd rfl h
    returned := by
      intro _
      refine ⟨by simp, ?_⟩
      rw [abandoned_concat, hnone, List.nil_append, abandonedItems, if_pos hd]
      show s.submits = s.flushed + s.flushFailed + (s.dropped + s.queue.items.length) +
        s.worker.hand.length
      rw [hsum, Dispatcher.counted]
      omega
    closed := fun _ => ha.closed (by simp [hd])
    calls := by
      rw [Ledger.of_quiet (Or.inl rfl)]
      exact ha.calls }

/-- **A step keeps the account.** -/
theorem step (ha : Accounted cfg l s) {e : Ev T C} (he : e ≠ .cancel)
    {res : Dispatcher T C × Out T C} (h : Stepped cfg s e res) :
    Accounted cfg (l ++ [⟨s, e, res.2, res.1⟩]) res.1 := by
  by_cases hr : s.closing = .returned
  · have hc := ha.closed (by simp [hr])
    obtain ⟨hsame, hout⟩ := still hr hc (ha.returned hr).1 h
    rw [hsame]
    refine ha.quiet hout ?_
    cases e <;> simp [abandonedItems, hr]
  obtain ⟨hs, hb, hnone⟩ := ha.waiting hr
  by_cases hcalm : e.Calm
  · have hcalls := submits_step (l := l) hs h
    rw [ha.calls] at hcalls
    have hsame : abandoned (l ++ [⟨s, e, res.2, res.1⟩]) = [] := by
      rw [abandoned_concat, hnone]
      cases e with
      | timeout => exact absurd hcalm not_false
      | _ => rfl
    have hb' := hb.step hs hcalm h
    exact {
      waiting := fun _ => ⟨hs.step hcalm h, hb', hsame⟩
      returned := by
        intro hret
        obtain ⟨hw, hitems, hhand⟩ := nothing_left hs hb hr hcalm h hret
        have hsum := hb'.sum
        rw [hitems, hhand] at hsum
        rw [hsame]
        exact ⟨hw, hsum⟩
      closed := closed_step hs ha.closed h
      calls := by omega }
  · -- only the timeout is left
    cases e with
    | cancel => exact absurd rfl he
    | timeout =>
      cases h with
      | idle h ht => exact ha.quiet (Or.inl rfl) (by simp [abandonedItems, ht rfl])
      | timedOut hd => exact ha.timedOut hb hnone hd rfl
    | _ => exact absurd trivial hcalm

theorem run (cfg : Config) {es : List (Ev T C)} (hes : ∀ e ∈ es, e ≠ .cancel) :
    Accounted cfg ((system cfg T C).log (system cfg T C).init es)
      ((system cfg T C).exec (system cfg T C).init es) := by
  have hguard : (system cfg T C).Along (fun _ _ e => e ≠ .cancel) (system cfg T C).init es := by
    rintro p e q rfl
    exact hes e (by simp)
  refine Mealy.Along.induct (Accounted.initial cfg) ?_ hguard
  intro l s e hs he
  exact hs.step he (stepped cfg s e)

end Accounted

theorem abandoned_eq_nil_iff (es : List (Ev T C)) :
    abandoned ((system cfg T C).log (system cfg T C).init es) = [] ↔
      ∀ p q, es = p ++ .timeout :: q → ((system cfg T C).exec (system cfg T C).init p).closing = .draining →
        ((system cfg T C).exec (system cfg T C).init p).worker.hand = [] := by
  unfold abandoned
  rw [List.flatMap_eq_nil_iff]
  constructor
  · rintro hall p q hes hd
    have hmem := hall _ (Mealy.mem_log_iff.mpr ⟨p, .timeout, q, hes, rfl⟩)
    rw [abandonedItems, Mealy.record_ev, Mealy.record_pre, if_pos hd] at hmem
    exact hmem
  · intro hall r hr
    obtain ⟨p, e, q, hes, rfl⟩ := Mealy.mem_log_iff.mp hr
    cases e with
    | timeout =>
      unfold abandonedItems
      split_ifs with hd
      · exact hall p q hes hd
      · rfl
    | _ => rfl

/-- **Loss is counted** when `aclose` returns exactly if the worker holds no batch, neither one that is
being filled nor one in a running flush, when the timeout strikes. -/
theorem loss_counted_iff (cfg : Config) {es : List (Ev T C)} (hes : ∀ e ∈ es, e ≠ .cancel)
    (hret : ((system cfg T C).exec (system cfg T C).init es).closing = .returned) :
    (Ledger.of ((system cfg T C).log (system cfg T C).init es)).submitted.length =
        ((system cfg T C).exec (system cfg T C).init es).counted ↔
      ∀ p q, es = p ++ .timeout :: q → ((system cfg T C).exec (system cfg T C).init p).closing = .draining →
        ((system cfg T C).exec (system cfg T C).init p).worker.hand = [] := by
  have ha := Accounted.run cfg hes
  have hsum := (ha.returned hret).2
  rw [← abandoned_eq_nil_iff, ha.calls, hsum, ← List.length_eq_zero_iff]
  omega

/-- A queue with one place: the second event is dropped, the flush of the first fails while `aclose` waits for it. -/
def drained : List (Ev ℕ Unit) := [.submit 7 (), .submit 8 (), .get, .fillEnd, .aclose, .flushEnd true, .drained]

theorem loss_counted_drained :
    (Ledger.of ((system { queueSize := 1 } ℕ Unit).log (system { queueSize := 1 } ℕ Unit).init
        drained)).submitted.length =
        ((system { queueSize := 1 } ℕ Unit).exec (system { queueSize := 1 } ℕ Unit).init drained).counted ∧
      ((system { queueSize := 1 } ℕ Unit).exec (system { queueSize := 1 } ℕ Unit).init drained).counted = 2 :=
  ⟨(loss_counted_iff { queueSize := 1 } (by simp [drained]) (by decide)).mpr
    ((abandoned_eq_nil_iff _).mp (by decide)),
    by decide⟩

/-- The timeout strikes while a flush blocks. -/
def blocked : List (Ev ℕ Unit) := [.submit 7 (), .get, .fillEnd, .aclose, .timeout]

/-- The event in the flush is in no count. -/
theorem loss_uncounted :
    ((system {} ℕ Unit).exec (system {} ℕ Unit).init blocked).closing = .returned ∧
      (Ledger.of ((system {} ℕ Unit).log (system {} ℕ Unit).init blocked)).submitted.length = 1 ∧
      ((system {} ℕ Unit).exec (system {} ℕ Unit).init blocked).counted = 0 := by
  decide

end ResilienceKit.FireAndForget

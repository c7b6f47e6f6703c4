import ResilienceKit.Dispatch.FireAndForget

/-!
# Dispatch.ContextLeak — which bindings a flush observes

Two runs that differ in the bindings of their submits alone are one run whose submits carry pairs of
bindings: `flushCalls_map` reads each of the two off it.  A flush observes what was in force at the
`submit` that started its worker.
-/

namespace ResilienceKit.FireAndForget

variable {T C D : Type} (cfg : Config) (f : C → D)

/-! ### Renaming the bindings -/

def Ev.map : Ev T C → Ev T D
  | .submit event ctx => .submit event (f ctx)
  | .get => .get
  | .fill => .fill
  | .fillEnd => .fillEnd
  | .flushEnd raised => .flushEnd raised
  | .aclose => .aclose
  | .drained => .drained
  | .timeout => .timeout
  | .cancel => .cancel

def Out.map : Out T C → Out T D
  | .accepted => .accepted
  | .refused => .refused
  | .raised e => .raised e
  | .handed ctx batch => .handed (f ctx) batch
  | .finished batch => .finished batch
  | .none => .none

def Worker.map : Worker T C → Worker T D
  | .absent => .absent
  | .running ctx phase => .running (f ctx) phase
  | .done => .done

def Dispatcher.map (s : Dispatcher T C) : Dispatcher T D :=
  { s with worker := s.worker.map f }

theorem ensureStarted_map (s : Dispatcher T C) (ctx : C) :
    ensureStarted (s.map f) (f ctx) = (ensureStarted s ctx).map f := by
  unfold ensureStarted
  rcases hw : s.worker with _ | ⟨ctx', phase⟩ | _ <;> simp [Dispatcher.map, Worker.map, hw]

theorem handleOverflow_map (s : Dispatcher T C) (item : Item T) :
    handleOverflow cfg (s.map f) item =
      ((handleOverflow cfg s item).1.map f, (handleOverflow cfg s item).2.map f) := by
  unfold handleOverflow
  cases cfg.overflow with
  | DROP_NEWEST => rfl
  | DROP_OLDEST =>
    cases hget : s.queue.getNowait with
    | none =>
      simp only [Dispatcher.map, hget]
      split <;> rfl
    | some got =>
      simp only [Dispatcher.map, hget]
      split
      · rfl
      · split <;> rfl

theorem submit_map (s : Dispatcher T C) (event : T) (ctx : C) :
    submit cfg (s.map f) event (f ctx) =
      ((submit cfg s event ctx).1.map f, (submit cfg s event ctx).2.map f) := by
  unfold submit
  rw [ensureStarted_map]
  show (if s.closed then _ else _) = _
  split_ifs with hc
  · rfl
  · simp only [Dispatcher.map]
    split
    · rfl
    · exact handleOverflow_map cfg f _ _

theorem flushEnd_map (s : Dispatcher T C) (ctx : C) (batch : List (Item T)) (raised : Bool) :
    flushEnd (s.map f) (f ctx) batch raised = (flushEnd s ctx batch raised).map f := by
  cases raised with
  | true =>
    simp only [flushEnd, Dispatcher.map, if_true]
    split <;> rfl
  | false =>
    simp only [flushEnd, Dispatcher.map, Bool.false_eq_true, if_false]
    split <;> rfl

/-- The dispatcher never looks at the bindings. -/
theorem step_map (s : Dispatcher T C) (e : Ev T C) :
    step cfg (s.map f) (e.map f) = ((step cfg s e).1.map f, (step cfg s e).2.map f) := by
  cases e with
  | submit event ctx => exact submit_map cfg f s event ctx
  | get =>
    rcases hw : s.worker with _ | ⟨ctx, _ | batch | batch⟩ | _ <;>
      rcases hget : s.queue.getNowait with _ | ⟨first, queue⟩ <;>
      simp [step, Ev.map, Out.map, Dispatcher.map, Worker.map, hw, hget]
  | fill =>
    rcases hw : s.worker with _ | ⟨ctx, _ | batch | batch⟩ | _ <;>
      rcases hget : s.queue.getNowait with _ | ⟨first, queue⟩ <;>
      simp [step, Ev.map, Out.map, Dispatcher.map, Worker.map, hw, hget]
    split_ifs <;> simp [hw]
  | fillEnd =>
    rcases hw : s.worker with _ | ⟨ctx, _ | batch | batch⟩ | _ <;>
      simp [step, Ev.map, Out.map, Dispatcher.map, Worker.map, hw]
  | flushEnd raised =>
    have hmap : (s.map f).worker = s.worker.map f := rfl
    rcases hw : s.worker with _ | ⟨ctx, _ | batch | batch⟩ | _ <;> rw [hw] at hmap <;>
      simp only [step, Ev.map, hmap, hw, Worker.map] <;> try rfl
    rw [flushEnd_map]
    rfl
  | aclose =>
    rcases hw : s.worker with _ | ⟨ctx, phase⟩ | _ <;>
      simp [step, Ev.map, Out.map, Dispatcher.map, Worker.map, hw] <;> split_ifs <;>
      simp [hw]
  | drained =>
    by_cases h : s.closing = .draining ∧ s.queue.joined <;>
      simp [step, Ev.map, Out.map, Dispatcher.map, Worker.map, h]
  | timeout =>
    by_cases h : s.closing = .draining <;>
      simp [step, Ev.map, Out.map, Dispatcher.map, Worker.map, h]
  | cancel =>
    rcases hw : s.worker with _ | ⟨ctx, phase⟩ | _ <;>
      simp [step, Ev.map, Out.map, Dispatcher.map, Worker.map, hw]

/-! ### Who started the worker -/

section Started

variable {cfg : Config} {s : Dispatcher T C}

def Worker.Runs (w : Worker T C) : Prop := ∃ ctx phase, w = .running ctx phase

/-- The worker after the run `p` was started by a `submit` under the bindings `ctx`, and has run since. -/
def StartedBy (cfg : Config) (p : List (Ev T C)) (ctx : C) : Prop :=
  ∃ p₁ event p₂, p = p₁ ++ .submit event ctx :: p₂ ∧
    ((system cfg T C).exec (system cfg T C).init p₁).closed = false ∧
    ¬ ((system cfg T C).exec (system cfg T C).init p₁).worker.Runs ∧
    ∀ a, a <+: p₂ →
      ((system cfg T C).exec (system cfg T C).init (p₁ ++ .submit event ctx :: a)).worker.Runs

/-- The answer of `submit` and of `_handle_overflow`: no call of `flush`. -/
def Out.Plain : Out T C → Prop
  | .handed _ _ => False
  | _ => True

/-- `_handle_overflow` leaves the worker alone. -/
theorem handleOverflow_frame (cfg : Config) (s : Dispatcher T C) (item : Item T) :
    (handleOverflow cfg s item).1.worker = s.worker ∧ (handleOverflow cfg s item).2.Plain := by
  unfold handleOverflow
  cases cfg.overflow with
  | DROP_NEWEST => exact ⟨rfl, trivial⟩
  | DROP_OLDEST =>
    cases hget : s.queue.getNowait with
    | none =>
      simp only [hget]
      split <;> exact ⟨rfl, trivial⟩
    | some got =>
      simp only [hget]
      split
      · exact ⟨rfl, trivial⟩
      · split <;> exact ⟨rfl, trivial⟩

theorem submit_frame (cfg : Config) (s : Dispatcher T C) (event : T) (ctx : C) :
    (submit cfg s event ctx).1.worker = (if s.closed then s.worker else (ensureStarted s ctx).worker) ∧
      (submit cfg s event ctx).2.Plain := by
  unfold submit
  split_ifs with hc
  · exact ⟨rfl, trivial⟩
  · simp only
    split
    · exact ⟨rfl, trivial⟩
    · exact handleOverflow_frame cfg _ _

/-- A running worker runs under the same bindings until it is done. -/
theorem keeps_ctx {ctx : C} {phase : Phase T} (hw : s.worker = .running ctx phase) {e : Ev T C}
    {res : Dispatcher T C × Out T C} (h : Stepped cfg s e res) :
    (∃ phase', res.1.worker = .running ctx phase') ∨ res.1.worker = .done := by
  cases h with
  | submit event ctx' =>
    refine Or.inl ⟨phase, ?_⟩
    rw [(submit_frame cfg _ _ _).1, ensureStarted, hw]
    simp [hw]
  | idle h ht => exact Or.inl ⟨phase, hw⟩
  | got hw' hgot =>
    rw [hw] at hw'
    cases hw'
    exact Or.inl ⟨_, rfl⟩
  | filled hw' hgot hmax =>
    rw [hw] at hw'
    cases hw'
    exact Or.inl ⟨_, rfl⟩
  | handed hw' =>
    rw [hw] at hw'
    cases hw'
    exact Or.inl ⟨_, rfl⟩
  | flushed raised hw' =>
    rw [hw] at hw'
    cases hw'
    unfold flushEnd
    simp only
    split
    · exact Or.inl ⟨_, rfl⟩
    · exact Or.inr rfl
  | unused hc hw' =>
    rw [hw] at hw'
    cases hw'
  | closing hc hw' => exact Or.inl ⟨phase, hw⟩
  | drained hd hj => exact Or.inr rfl
  | timedOut hd => exact Or.inr rfl
  | cancelled hw' => exact Or.inr rfl

/-- A `submit` that finds no worker running starts one under its own bindings. -/
theorem starts {event : T} {ctx : C} (hc : s.closed = false) (hw : ¬ s.worker.Runs) :
    (submit cfg s event ctx).1.worker = .running ctx .getting := by
  rw [(submit_frame cfg _ _ _).1, hc, ensureStarted]
  rcases h : s.worker with _ | ⟨ctx', phase⟩ | _
  · rfl
  · exact absurd ⟨ctx', phase, h⟩ hw
  · rfl

/-- A worker that runs after a step ran before, or the step has started it. -/
theorem ran_or_started {ctx : C} {phase : Phase T} {e : Ev T C} {res : Dispatcher T C × Out T C}
    (h : Stepped cfg s e res) (hw : res.1.worker = .running ctx phase) :
    (∃ phase', s.worker = .running ctx phase') ∨
      ∃ event, e = .submit event ctx ∧ s.closed = false ∧ ¬ s.worker.Runs := by
  by_cases hruns : s.worker.Runs
  · obtain ⟨ctx', phase', hw'⟩ := hruns
    rcases keeps_ctx hw' h with ⟨phase'', hk⟩ | hdone
    · rw [hw] at hk
      cases hk
      exact Or.inl ⟨phase', hw'⟩
    · rw [hw] at hdone
      cases hdone
  · cases h with
    | submit event ctx' =>
      cases hc : s.closed with
      | true =>
        rw [(submit_frame cfg _ _ _).1, hc, if_pos rfl] at hw
        exact absurd ⟨ctx, phase, hw⟩ hruns
      | false =>
        rw [starts hc hruns] at hw
        cases hw
        exact Or.inr ⟨event, rfl, rfl, hruns⟩
    | idle h ht => exact absurd ⟨ctx, phase, hw⟩ hruns
    | got hw' hgot => exact absurd ⟨_, _, hw'⟩ hruns
    | filled hw' hgot hmax => exact absurd ⟨_, _, hw'⟩ hruns
    | handed hw' => exact absurd ⟨_, _, hw'⟩ hruns
    | flushed raised hw' => exact absurd ⟨_, _, hw'⟩ hruns
    | unused hc hw' => exact absurd ⟨ctx, phase, hw⟩ hruns
    | closing hc hw' => exact absurd ⟨ctx, phase, hw⟩ hruns
    | drained hd hj => cases hw
    | timedOut hd => cases hw
    | cancelled hw' => cases hw

/-- **The bindings of a running worker are those of the `submit` that started it.** -/
theorem startedBy_iff {p : List (Ev T C)} {ctx : C} : StartedBy cfg p ctx ↔
    ∃ phase, ((system cfg T C).exec (system cfg T C).init p).worker = .running ctx phase := by
  constructor
  · rintro ⟨p₁, event, p₂, rfl, hc, hnone, hruns⟩
    have hall : ∀ a, a <+: p₂ → ∃ phase,
        ((system cfg T C).exec (system cfg T C).init (p₁ ++ .submit event ctx :: a)).worker =
          .running ctx phase := by
      intro a
      induction a using List.reverseRecOn with
      | nil =>
        intro _
        rw [Mealy.exec_concat]
        exact ⟨_, starts hc hnone⟩
      | append_singleton a e ih =>
        intro ha
        obtain ⟨phase, hw⟩ := ih ((List.prefix_append a [e]).trans ha)
        have hnext := hruns _ ha
        rw [← List.cons_append, ← List.append_assoc, Mealy.exec_concat] at hnext ⊢
        rcases keeps_ctx hw (stepped cfg _ e) with hk | hdone
        · exact hk
        · obtain ⟨ctx', phase', hw'⟩ := hnext
          exact absurd (hdone.symm.trans hw') (by simp)
    exact hall p₂ (List.prefix_refl _)
  · induction p using List.reverseRecOn with
    | nil =>
      rintro ⟨phase, hw⟩
      cases hw
    | append_singleton p e ih =>
      rintro ⟨phase, hw⟩
      rw [Mealy.exec_concat] at hw
      rcases ran_or_started (stepped cfg _ e) hw with hran | ⟨event, rfl, hc, hnone⟩
      · obtain ⟨p₁, event, p₂, rfl, hc, hnone, hruns⟩ := ih hran
        refine ⟨p₁, event, p₂ ++ [e], by simp, hc, hnone, fun a ha => ?_⟩
        rcases List.prefix_concat_iff.mp ha with rfl | ha
        · rw [← List.cons_append, ← List.append_assoc, Mealy.exec_concat]
          exact ⟨ctx, phase, hw⟩
        · exact hruns a ha
      · refine ⟨p, event, [], rfl, hc, hnone, fun a ha => ?_⟩
        rw [List.prefix_nil.mp ha, Mealy.exec_concat]
        exact ⟨ctx, phase, hw⟩

end Started

/-! ### Two runs -/

/-- A call of `flush`: the bindings it observes and its batch. -/
def flushCall : Out T C → Option (C × List (Item T))
  | .handed ctx batch => some (ctx, batch)
  | _ => none

/-- The calls of `flush` in a run. -/
def flushCalls (cfg : Config) (es : List (Ev T C)) : List (C × List (Item T)) :=
  ((system cfg T C).outs (system cfg T C).init es).filterMap flushCall

/-- A run with other bindings makes the same calls, under the other bindings. -/
theorem flushCalls_map (es : List (Ev T C)) :
    flushCalls cfg (es.map (Ev.map f)) = (flushCalls cfg es).map (Prod.map f id) := by
  have houts := (Mealy.exec_map (M := system cfg T C) (N := system cfg T D) (step_map cfg f)
    (system cfg T C).init es).2
  have hinit : (system cfg T D).init = (system cfg T C).init.map f := rfl
  unfold flushCalls
  rw [hinit, houts, List.filterMap_map, List.map_filterMap]
  refine List.filterMap_congr fun o _ => ?_
  cases o <;> rfl

/-- `flush` is called at the end of the filling, under the worker's bindings. -/
theorem flushCall_iff {s : Dispatcher T C} {e : Ev T C} {ctx : C} {batch : List (Item T)} :
    flushCall (step cfg s e).2 = some (ctx, batch) ↔
      e = .fillEnd ∧ s.worker = .running ctx (.filling batch) := by
  constructor
  · intro hcall
    have h := stepped cfg s e
    generalize step cfg s e = res at h hcall
    cases h with
    | submit event ctx' =>
      have hplain := (submit_frame cfg s event ctx').2
      generalize (submit cfg s event ctx').2 = o at hplain hcall
      cases o with
      | handed ctx batch => exact hplain.elim
      | _ => cases hcall
    | handed hw =>
      cases hcall
      exact ⟨rfl, hw⟩
    | _ => cases hcall
  · rintro ⟨rfl, hw⟩
    simp [step, hw, flushCall]

theorem mem_flushCalls {es : List (Ev T C)} {ctx : C} {batch : List (Item T)} :
    (ctx, batch) ∈ flushCalls cfg es ↔ ∃ p q, es = p ++ .fillEnd :: q ∧
      ((system cfg T C).exec (system cfg T C).init p).worker = .running ctx (.filling batch) := by
  unfold flushCalls Mealy.outs
  rw [List.filterMap_map, List.mem_filterMap]
  constructor
  · rintro ⟨r, hr, hcall⟩
    obtain ⟨p, e, q, hes, rfl⟩ := Mealy.mem_log_iff.mp hr
    obtain ⟨rfl, hw⟩ := (flushCall_iff cfg).mp hcall
    exact ⟨p, q, hes, hw⟩
  · rintro ⟨p, q, hes, hw⟩
    exact ⟨_, Mealy.mem_log_iff.mpr ⟨p, .fillEnd, q, hes, rfl⟩, (flushCall_iff cfg).mpr ⟨rfl, hw⟩⟩

/-- The worker is about to call `flush`. -/
def Worker.Fills (w : Worker T C) : Prop := ∃ ctx batch, w = .running ctx (.filling batch)

/-- **Isolation**: two runs that differ in the bindings of their submits make the same calls of `flush`
under the same bindings exactly if every worker that calls `flush` was started by a `submit` with the same
bindings in both. -/
theorem isolated_iff (es : List (Ev T (C × C))) :
    flushCalls cfg (es.map (Ev.map Prod.fst)) = flushCalls cfg (es.map (Ev.map Prod.snd)) ↔
      ∀ p q, es = p ++ .fillEnd :: q →
        ((system cfg T (C × C)).exec (system cfg T (C × C)).init p).worker.Fills →
        ∀ ctx, StartedBy cfg p ctx → ctx.1 = ctx.2 := by
  rw [flushCalls_map, flushCalls_map, List.map_inj_left]
  constructor
  · rintro hall p q hes ⟨ctx', batch, hw⟩ ctx hstart
    obtain ⟨phase, hw'⟩ := startedBy_iff.mp hstart
    rw [hw] at hw'
    cases hw'
    have := hall _ ((mem_flushCalls cfg).mpr ⟨p, q, hes, hw⟩)
    exact congrArg Prod.fst this
  · rintro hall ⟨ctx, batch⟩ hcall
    obtain ⟨p, q, hes, hw⟩ := (mem_flushCalls cfg).mp hcall
    have heq := hall p q hes ⟨ctx, batch, hw⟩ ctx (startedBy_iff.mpr ⟨_, hw⟩)
    exact Prod.ext heq rfl

/-- Two requests in turn; the first one has other bindings in the second run. -/
def requests : List (Ev ℕ (ℕ × ℕ)) :=
  [.submit 7 (1, 2), .get, .fillEnd, .flushEnd false, .submit 8 (3, 3), .get, .fillEnd]

/-- The flush of the second request's event observes the first one's bindings. -/
theorem bindings_leak :
    flushCalls {} (requests.map (Ev.map Prod.fst)) = [(1, [(0, 7)]), (1, [(1, 8)])] ∧
      flushCalls {} (requests.map (Ev.map Prod.fst)) ≠ flushCalls {} (requests.map (Ev.map Prod.snd)) := by
  decide

end ResilienceKit.FireAndForget

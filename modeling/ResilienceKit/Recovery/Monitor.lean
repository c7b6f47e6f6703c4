import ResilienceKit.Lib.Mealy

/-!
# Recovery.Monitor — `start` and `stop` of the recovery monitor

One event loop: a step is what runs between two suspensions, of a caller or of the background task.  `stop`
signals the task it finds and suspends until that task is done; then it clears `self._task`, whatever stands
there by now.  `lifecycle_iff` says which runs keep the promises of the two methods.
-/

namespace ResilienceKit.Recovery

/-- Where `_run` is suspended, or about to go on. -/
inductive Point
  | top
  /-- In `self._stopping.wait()`, of the event that stood there then. -/
  | waiting (event : ℕ)
  | probing
  | done
  deriving DecidableEq, Repr

structure Task where
  point : Point
  cancelling : Bool
  deriving DecidableEq, Repr

/-- A `stop()` that awaits the task it has found. -/
structure Stop where
  id : ℕ
  task : ℕ
  deriving DecidableEq, Repr

/-- `RecoveryMonitor`, with the tasks and the events it has made; `stops` are suspended. -/
structure Monitor where
  task : Option ℕ := none
  stopping : ℕ := 0
  nextEvent : ℕ := 1
  isSet : List ℕ := []
  tasks : List Task := []
  stops : List Stop := []
  deriving DecidableEq, Repr

/-- What the background task can do next. -/
inductive TaskStep
  /-- The task is run for the first time. -/
  | begun
  /-- The event it waits for is set. -/
  | woken
  /-- The probe interval has elapsed. -/
  | elapsed
  /-- `attempt_recover_all` has returned, or what it raised is logged. -/
  | probed
  /-- A cancellation that was asked for is delivered. -/
  | cancelled
  /-- A backend keeps the cancellation to itself. -/
  | swallowed
  /-- An exception that `_run` does not catch, out of the settings or of a probe. -/
  | crashed
  deriving DecidableEq, Repr

inductive Ev
  | start
  | stop (id : ℕ)
  /-- The timeout of a `stop()` fires. -/
  | timeout (s : Stop)
  /-- The awaited task is done, and its `stop()` goes on. -/
  | resume (s : Stop)
  | task (t : ℕ) (step : TaskStep)
  deriving DecidableEq, Repr

namespace Monitor

/-- The task has been made and is not done. -/
def Unfinished (m : Monitor) (t : ℕ) : Prop := ∃ k, m.tasks[t]? = some k ∧ k.point ≠ .done

/-- `self._stopping.is_set()` -/
def stopRequested (m : Monitor) : Bool := m.stopping ∈ m.isSet

/-- `existing is not None and not existing.done()` -/
def running (m : Monitor) : Bool :=
  match m.task with
  | none => false
  | some t => (m.tasks[t]?.any fun k => k.point ≠ .done)

def start (m : Monitor) : Monitor :=
  if m.running then m
  else { m with
    stopping := m.nextEvent, nextEvent := m.nextEvent + 1, task := some m.tasks.length,
    tasks := m.tasks ++ [⟨.top, false⟩] }

/-- `stop` up to its first suspension. -/
def stop (id : ℕ) (m : Monitor) : Monitor :=
  match m.task with
  | none => m
  | some t => { m with isSet := m.stopping :: m.isSet, stops := m.stops ++ [⟨id, t⟩] }

def setTask (t : ℕ) (k : Task) (m : Monitor) : Monitor := { m with tasks := m.tasks.set t k }

/-- `wait_for` cancels the task, and so does the handler of its `TimeoutError`. -/
def timeout (s : Stop) (m : Monitor) : Monitor :=
  if s ∈ m.stops then
    match m.tasks[s.task]? with
    | some k => if k.point = .done then m else m.setTask s.task { k with cancelling := true }
    | none => m
  else m

/-- The `finally` of `stop`. -/
def resume (s : Stop) (m : Monitor) : Monitor :=
  if s ∈ m.stops ∧ (m.tasks[s.task]?.any fun k => k.point = .done) then
    { m with task := none, stops := m.stops.erase s }
  else m

/-- `while not self._stopping.is_set()`, up to the wait that follows. -/
def loopTop (m : Monitor) : Point := if m.stopRequested then .done else .waiting m.stopping

/-- The wait is over: `if self._stopping.is_set(): break`, or the probe starts. -/
def afterWait (m : Monitor) : Point := if m.stopRequested then .done else .probing

/-- Code that can raise comes next: the settings are read, or a probe is on its way. -/
def crashable (m : Monitor) (k : Task) : Bool :=
  (k.point = .top ∧ m.stopRequested = false) ∨ k.point = .probing

/-- One step of `_run`; what is not enabled changes nothing. -/
def taskStep (m : Monitor) (k : Task) : TaskStep → Task
  | .begun => if k.point = .top then { k with point := m.loopTop } else k
  | .woken =>
    match k.point with
    | .waiting e => if e ∈ m.isSet then { k with point := m.afterWait } else k
    | _ => k
  | .elapsed =>
    match k.point with
    | .waiting _ => { k with point := m.afterWait }
    | _ => k
  | .probed => if k.point = .probing then { k with point := m.loopTop } else k
  | .cancelled => if k.cancelling then { k with point := .done } else k
  | .swallowed => if k.point = .probing then { k with cancelling := false } else k
  | .crashed => if m.crashable k then { k with point := .done } else k

/-- `RecoveryMonitor()`, its callers and its tasks, in any order. -/
def system : Mealy Monitor Ev Unit where
  init := {}
  step m e :=
    match e with
    | .start => (m.start, ())
    | .stop id => (m.stop id, ())
    | .timeout s => (m.timeout s, ())
    | .resume s => (m.resume s, ())
    | .task t step =>
      match m.tasks[t]? with
      | some k => (m.setTask t (m.taskStep k step), ())
      | none => (m, ())

/-! ### What the two methods promise -/

/-- `start()` and `stop()` are calls. -/
def isCall : Ev → Bool
  | .start => true
  | .stop _ => true
  | _ => false

/-- The call that was made last. -/
def lastCall (es : List Ev) : Option Ev := (es.filter isCall).getLast?

/-- There is one task at most; when no `stop()` is suspended, the last call has had its way. -/
structure Kept (es : List Ev) (m : Monitor) : Prop where
  atMostOne : ∀ t t', m.Unfinished t → m.Unfinished t' → t = t'
  started : m.stops = [] → lastCall es = some .start → ∃ t, m.task = some t ∧ m.Unfinished t
  stopped : m.stops = [] → ∀ id, lastCall es = some (.stop id) → ∀ t, ¬ m.Unfinished t

/-- No `start()` while a `stop()` is suspended, and no crash but then. -/
def Orderly (m : Monitor) : Ev → Prop
  | .start => m.stops = []
  | .task t .crashed => m.stops = [] → ∀ k : Task, m.tasks[t]? = some k → m.crashable k = false
  | _ => True

/-- What the monitor and the suspended calls do by themselves. -/
def isInternal : Ev → Bool
  | .start => false
  | .stop _ => false
  | .task _ .crashed => false
  | _ => true

/-! ### The invariant of orderly runs -/

structure Sound (last : Option Ev) (m : Monitor) : Prop where
  current : ∀ t, m.Unfinished t → m.task = some t
  awaited : ∀ s ∈ m.stops, s.task < m.tasks.length ∧ (m.task = none ∨ m.task = some s.task)
  called : m.stops ≠ [] → ∃ id, last = some (.stop id)
  asked : m.stops ≠ [] → ∀ t, m.Unfinished t → m.stopRequested = true
  quiet : m.stops = [] → ∀ (t : ℕ) (k : Task), m.tasks[t]? = some k → k.point ≠ .done →
    m.stopRequested = false ∧ k.cancelling = false
  started : m.stops = [] → last = some .start → ∃ t, m.task = some t ∧ m.Unfinished t
  stopped : ∀ id, m.stops = [] → last = some (.stop id) → ∀ t, ¬ m.Unfinished t
  idle : last = none → m.tasks = []
  made : ∀ t, m.task = some t → t < m.tasks.length
  minted : m.stopping < m.nextEvent
  fresh : ∀ e ∈ m.isSet, e < m.nextEvent

theorem lastCall_concat (es : List Ev) (e : Ev) :
    lastCall (es ++ [e]) = if isCall e then some e else lastCall es := by
  unfold lastCall
  rw [List.filter_append]
  cases h : isCall e <;> simp [h]

section Step

variable {last : Option Ev} {m : Monitor}

theorem Sound.kept {es : List Ev} (h : Sound (lastCall es) m) : Kept es m :=
  ⟨fun t t' ht ht' => Option.some.inj ((h.current t ht).symm.trans (h.current t' ht')), h.started,
    fun hs id hl => h.stopped id hs hl⟩

theorem running_iff : m.running = true ↔ ∃ t, m.task = some t ∧ m.Unfinished t := by
  unfold running Unfinished
  cases m.task with
  | none => simp
  | some t => simp [Option.any_eq_true]

theorem sound_init : Sound none ({} : Monitor) := by
  refine ⟨?_, nofun, fun h => absurd rfl h, fun h => absurd rfl h, nofun, nofun, nofun, fun _ => rfl, nofun,
    Nat.one_pos, nofun⟩
  rintro t ⟨k, hk, -⟩
  cases hk

theorem Sound.start (h : Sound last m) (hs : m.stops = []) : Sound (some .start) m.start := by
  unfold Monitor.start
  split_ifs with hr
  · exact ⟨h.current, h.awaited, fun hne => absurd hs hne, h.asked, h.quiet, fun _ _ => running_iff.mp hr,
      nofun, nofun, h.made, h.minted, h.fresh⟩
  · have hold : ∀ t, ¬ m.Unfinished t := fun t ht => hr (running_iff.mpr ⟨t, h.current t ht, ht⟩)
    have hmade : ∀ (t : ℕ) (k : Task), (m.tasks ++ [⟨.top, false⟩])[t]? = some k → k.point ≠ .done →
        t = m.tasks.length ∧ k = ⟨.top, false⟩ := by
      intro t k hk hne
      rcases Nat.lt_or_ge t m.tasks.length with hlt | hge
      · rw [List.getElem?_append_left hlt] at hk
        exact absurd ⟨k, hk, hne⟩ (hold t)
      · rw [List.getElem?_append_right hge, List.getElem?_singleton] at hk
        split_ifs at hk with hidx
        exact ⟨by omega, (Option.some.inj hk).symm⟩
    have hnew : (m.tasks ++ [⟨.top, false⟩])[m.tasks.length]? = some ⟨.top, false⟩ := by simp
    refine ⟨?_, ?_, fun hne => absurd hs hne, fun hne => absurd hs hne, ?_, fun _ _ => ?_,
      nofun, nofun, ?_, Nat.lt_succ_self _, ?_⟩
    · rintro t ⟨k, hk, hne⟩
      rw [(hmade t k hk hne).1]
    · intro s hmem
      rw [hs] at hmem
      cases hmem
    · intro _ t k hk hne
      rw [(hmade t k hk hne).2]
      refine ⟨decide_eq_false fun hmem => ?_, rfl⟩
      exact Nat.lt_irrefl _ (h.fresh _ hmem)
    · exact ⟨m.tasks.length, rfl, _, hnew, nofun⟩
    · intro t ht
      obtain rfl := Option.some.inj ht
      simp
    · exact fun e he => Nat.lt_succ_of_lt (h.fresh e he)

theorem Sound.stop (h : Sound last m) (id : ℕ) : Sound (some (.stop id)) (m.stop id) := by
  cases ht : m.task with
  | none =>
    have hnone : ∀ t, ¬ m.Unfinished t := fun t hu => by
      rw [h.current t hu] at ht
      cases ht
    rw [Monitor.stop, ht]
    exact ⟨fun t hu => absurd hu (hnone t), h.awaited, fun _ => ⟨id, rfl⟩, h.asked, h.quiet,
      nofun, fun _ _ _ => hnone, nofun, h.made, h.minted, h.fresh⟩
  | some t =>
    have hne : m.stops ++ [⟨id, t⟩] ≠ [] := by simp
    have hstop : m.stop id = { m with isSet := m.stopping :: m.isSet, stops := m.stops ++ [⟨id, t⟩] } := by
      rw [Monitor.stop, ht]
    rw [hstop]
    refine ⟨h.current, fun s hs => ?_, fun _ => ⟨id, rfl⟩, fun _ _ _ => ?_, fun hs => absurd hs hne,
      nofun, fun _ hs => absurd hs hne, nofun, h.made, h.minted,
      fun e he => ?_⟩
    · rcases List.mem_append.mp hs with hs | hs
      · exact h.awaited s hs
      · obtain rfl := List.mem_singleton.mp hs
        exact ⟨h.made t ht, .inr ht⟩
    · exact decide_eq_true List.mem_cons_self
    · rcases List.mem_cons.mp he with rfl | he
      · exact h.minted
      · exact h.fresh e he

/-- What a step of a task, or a cancellation, can change. -/
theorem Sound.setTask (h : Sound last m) {t : ℕ} {k k' : Task} (hk : m.tasks[t]? = some k)
    (hdone : k.point = .done → k'.point = .done)
    (hquiet : m.stops = [] → k.point ≠ .done → k'.point ≠ .done ∧ k'.cancelling = false) :
    Sound last (m.setTask t k') := by
  have hlt : t < m.tasks.length := (List.getElem?_eq_some_iff.mp hk).1
  have hat : ∀ (u : ℕ), (m.tasks.set t k')[u]? = if u = t then some k' else m.tasks[u]? := by
    intro u
    rw [List.getElem?_set]
    split_ifs with h1 h2 h2 <;> first | rfl | omega
  have hunf : ∀ u, (m.setTask t k').Unfinished u → m.Unfinished u := by
    rintro u ⟨j, hj, hne⟩
    have hj' : (m.tasks.set t k')[u]? = some j := hj
    rw [hat] at hj'
    split_ifs at hj' with hu
    · obtain rfl := Option.some.inj hj'
      rw [hu]
      exact ⟨k, hk, fun hd => hne (hdone hd)⟩
    · exact ⟨j, hj', hne⟩
  have hunf' : m.stops = [] → ∀ u, m.Unfinished u → (m.setTask t k').Unfinished u := by
    rintro hs u ⟨j, hj, hne⟩
    by_cases hu : u = t
    · subst hu
      obtain rfl := Option.some.inj (hk.symm.trans hj)
      exact ⟨k', by show (m.tasks.set u k')[u]? = _; rw [hat, if_pos rfl], (hquiet hs hne).1⟩
    · exact ⟨j, by show (m.tasks.set t k')[u]? = _; rw [hat, if_neg hu, hj], hne⟩
  refine ⟨fun u hu => h.current u (hunf u hu), fun s hs => ?_, h.called, fun hs u hu => h.asked hs u (hunf u hu),
    fun hs u j hj hne => ?_, fun hs hl => ?_, fun id hs hl u hu => h.stopped id hs hl u (hunf u hu),
    fun hl => ?_, fun u hu => ?_, h.minted, h.fresh⟩
  · have hlen : (m.tasks.set t k').length = m.tasks.length := List.length_set
    exact ⟨lt_of_lt_of_eq (h.awaited s hs).1 hlen.symm, (h.awaited s hs).2⟩
  · have hj' : (m.tasks.set t k')[u]? = some j := hj
    rw [hat] at hj'
    split_ifs at hj' with hu
    · obtain rfl := Option.some.inj hj'
      have hk' : k.point ≠ .done := fun hd => hne (hdone hd)
      exact ⟨(h.quiet hs t k hk hk').1, (hquiet hs hk').2⟩
    · exact h.quiet hs u j hj' hne
  · obtain ⟨u, hu, hunfinished⟩ := h.started hs hl
    exact ⟨u, hu, hunf' hs u hunfinished⟩
  · rw [h.idle hl] at hlt
    exact absurd hlt (Nat.not_lt_zero _)
  · have hlen : (m.tasks.set t k').length = m.tasks.length := List.length_set
    exact lt_of_lt_of_eq (h.made u hu) hlen.symm

theorem Sound.timeout (h : Sound last m) (s : Stop) : Sound last (m.timeout s) := by
  unfold Monitor.timeout
  split_ifs with hs
  · cases hk : m.tasks[s.task]? with
    | none => exact h
    | some k =>
      dsimp only
      split_ifs with hd
      · exact h
      · exact h.setTask hk (fun hd' => absurd hd' hd) fun hnil => absurd hs (hnil ▸ List.not_mem_nil)
  · exact h

theorem Sound.resume (h : Sound last m) (s : Stop) : Sound last (m.resume s) := by
  unfold Monitor.resume
  split_ifs with hs
  · obtain ⟨hmem, hdone⟩ := hs
    have hne : m.stops ≠ [] := List.ne_nil_of_mem hmem
    -- the one task that could be left is the one that was awaited
    have hnone : ∀ t, ¬ m.Unfinished t := by
      rintro t ⟨k, hk, hkd⟩
      rcases (h.awaited s hmem).2 with htask | htask
      · rw [h.current t ⟨k, hk, hkd⟩] at htask
        cases htask
      · rw [h.current t ⟨k, hk, hkd⟩] at htask
        obtain rfl := Option.some.inj htask
        rw [hk] at hdone
        exact hkd (of_decide_eq_true hdone)
    obtain ⟨id, hlast⟩ := h.called hne
    have hstart : last ≠ some .start := by
      rw [hlast]
      exact nofun
    exact ⟨fun t hu => absurd hu (hnone t), fun s' hs' => ⟨(h.awaited s' (List.mem_of_mem_erase hs')).1, .inl rfl⟩,
      fun _ => ⟨id, hlast⟩, fun _ t hu => absurd hu (hnone t), fun _ t k hk hkd => absurd ⟨k, hk, hkd⟩ (hnone t),
      fun _ hl => absurd hl hstart, fun _ _ _ => hnone, h.idle, nofun, h.minted, h.fresh⟩
  · exact h

/-- Nothing that a task does unfinishes it. -/
theorem taskStep_done {k : Task} (step : TaskStep) (hk : k.point = .done) : (m.taskStep k step).point = .done := by
  cases step <;> simp [taskStep, hk, crashable]
  split_ifs
  · rfl
  · exact hk

/-- While no `stop()` is suspended, no step but a crash ends the task. -/
theorem taskStep_quiet {k : Task} {step : TaskStep} (hreq : m.stopRequested = false)
    (hcancel : k.cancelling = false) (hk : k.point ≠ .done)
    (hcrash : step = .crashed → m.crashable k = false) :
    (m.taskStep k step).point ≠ .done ∧ (m.taskStep k step).cancelling = false := by
  have htop : m.loopTop ≠ .done := by simp [loopTop, hreq]
  have hwait : m.afterWait ≠ .done := by simp [afterWait, hreq]
  cases step with
  | begun =>
    simp only [taskStep]
    split_ifs
    · exact ⟨htop, hcancel⟩
    · exact ⟨hk, hcancel⟩
  | woken =>
    simp only [taskStep]
    split
    · split_ifs
      · exact ⟨hwait, hcancel⟩
      · exact ⟨hk, hcancel⟩
    · exact ⟨hk, hcancel⟩
  | elapsed =>
    simp only [taskStep]
    split
    · exact ⟨hwait, hcancel⟩
    · exact ⟨hk, hcancel⟩
  | probed =>
    simp only [taskStep]
    split_ifs
    · exact ⟨htop, hcancel⟩
    · exact ⟨hk, hcancel⟩
  | cancelled =>
    simp only [taskStep, hcancel]
    exact ⟨hk, hcancel⟩
  | swallowed =>
    simp only [taskStep]
    split_ifs
    · exact ⟨hk, rfl⟩
    · exact ⟨hk, hcancel⟩
  | crashed =>
    simp only [taskStep, hcrash rfl]
    exact ⟨hk, hcancel⟩

theorem Sound.task (h : Sound last m) (t : ℕ) (step : TaskStep) {k : Task} (hk : m.tasks[t]? = some k)
    (hcrash : m.stops = [] → step = .crashed → m.crashable k = false) :
    Sound last (m.setTask t (m.taskStep k step)) :=
  h.setTask hk (taskStep_done step) fun hs hne =>
    taskStep_quiet (h.quiet hs t k hk hne).1 (h.quiet hs t k hk hne).2 hne (hcrash hs)

/-- **Step lemma.** -/
theorem Sound.next {es : List Ev} (h : Sound (lastCall es) m) {e : Ev} (he : m.Orderly e) :
    Sound (lastCall (es ++ [e])) (system.next m e) := by
  cases e with
  | start =>
    have hlast : lastCall (es ++ [.start]) = some .start := lastCall_concat es .start
    rw [hlast]
    exact h.start he
  | stop id =>
    have hlast : lastCall (es ++ [.stop id]) = some (.stop id) := lastCall_concat es (.stop id)
    rw [hlast]
    exact h.stop id
  | timeout s =>
    have hlast : lastCall (es ++ [.timeout s]) = lastCall es := lastCall_concat es (.timeout s)
    rw [hlast]
    exact h.timeout s
  | resume s =>
    have hlast : lastCall (es ++ [.resume s]) = lastCall es := lastCall_concat es (.resume s)
    rw [hlast]
    exact h.resume s
  | task t step =>
    have hlast : lastCall (es ++ [.task t step]) = lastCall es := lastCall_concat es (.task t step)
    rw [hlast]
    show Sound _ (system.step m (.task t step)).1
    cases hk : m.tasks[t]? with
    | none =>
      rw [show system.step m (.task t step) = (m, ()) by simp [system, hk]]
      exact h
    | some k =>
      rw [show system.step m (.task t step) = (m.setTask t (m.taskStep k step), ()) by simp [system, hk]]
      refine h.task t step hk fun hs hstep => ?_
      subst hstep
      exact he hs k hk

end Step

/-- **Run lemma.** -/
theorem sound_run {es : List Ev} (h : system.Along (fun _ m e => m.Orderly e) {} es) :
    Sound (lastCall es) (system.exec {} es) := by
  have hrun := Mealy.Along.induct (M := system) (s := {})
    (P := fun l m => Sound (lastCall (l.map Mealy.Step.ev)) m) sound_init
    (fun l m e hm he => by rw [List.map_append]; exact hm.next he) h
  rwa [Mealy.log_map_ev] at hrun


/-! ### What goes wrong otherwise -/

def Done (m : Monitor) (t : ℕ) : Prop := ∃ k : Task, m.tasks[t]? = some k ∧ k.point = .done

/-- The suspended calls go on one after the other, and leave no task behind. -/
theorem resumed_all (l : List Stop) (m : Monitor) (hl : m.stops = l) (hd : ∀ s ∈ l, m.Done s.task) :
    (system.exec m (l.map .resume)).stops = [] ∧
      (l ≠ [] → (system.exec m (l.map .resume)).task = none) := by
  induction l generalizing m with
  | nil => exact ⟨hl, fun hne => absurd rfl hne⟩
  | cons s l ih =>
    obtain ⟨k, hk, hkd⟩ := hd s List.mem_cons_self
    have hnext : system.next m (.resume s) = { m with task := none, stops := l } := by
      show m.resume s = _
      rw [resume, if_pos ⟨by rw [hl]; exact List.mem_cons_self, by rw [hk]; simp [hkd]⟩, hl,
        List.erase_cons_head]
    rw [List.map_cons, Mealy.exec_cons, hnext]
    obtain ⟨hstops, htask⟩ := ih { m with task := none, stops := l } rfl
      fun s' hs' => hd s' (List.mem_cons_of_mem _ hs')
    refine ⟨hstops, fun _ => ?_⟩
    cases l with
    | nil => rfl
    | cons s' l => exact htask (List.cons_ne_nil _ _)

section Disorder

variable {last : Option Ev} {m : Monitor}

/-- A task that has been asked to stop can do so at once. -/
theorem exists_finishing (hreq : m.stopRequested = true) (k : Task) :
    ∃ step, step ≠ .crashed ∧ (m.taskStep k step).point = .done := by
  cases hp : k.point with
  | top => exact ⟨.begun, nofun, by simp [taskStep, hp, loopTop, hreq]⟩
  | waiting e => exact ⟨.elapsed, nofun, by simp [taskStep, hp, afterWait, hreq]⟩
  | probing => exact ⟨.probed, nofun, by simp [taskStep, hp, loopTop, hreq]⟩
  | done => exact ⟨.begun, nofun, by simp [taskStep, hp]⟩

/-- After a `start()` that came while a `stop()` was suspended, the monitor can be left without a task. -/
theorem Sound.start_lost (h : Sound last m) (hs : m.stops ≠ []) :
    ∃ gs, (∀ e ∈ gs, isInternal e = true) ∧ (system.exec m.start gs).stops = [] ∧
      (system.exec m.start gs).task = none := by
  have hinternal : ∀ e ∈ m.stops.map Ev.resume, isInternal e = true := by
    intro e he
    obtain ⟨s, -, rfl⟩ := List.mem_map.mp he
    rfl
  by_cases hr : m.running = true
  · obtain ⟨t, ht, k, hk, hkd⟩ := running_iff.mp hr
    obtain ⟨step, hstep, hdone⟩ := exists_finishing (h.asked hs t ⟨k, hk, hkd⟩) k
    have hnext : system.next m (.task t step) = m.setTask t (m.taskStep k step) := by
      simp [Mealy.next, system, hk]
    have hawaited : ∀ s ∈ (m.setTask t (m.taskStep k step)).stops,
        (m.setTask t (m.taskStep k step)).Done s.task := by
      intro s hmem
      rcases (h.awaited s hmem).2 with htask | htask
      · rw [ht] at htask
        cases htask
      · rw [ht] at htask
        have hst : t = s.task := Option.some.inj htask
        refine ⟨_, ?_, hdone⟩
        show (m.tasks.set t (m.taskStep k step))[s.task]? = _
        rw [← hst, List.getElem?_set_self (h.made t ht)]
    obtain ⟨hstops, htask⟩ := resumed_all _ _ rfl hawaited
    refine ⟨.task t step :: m.stops.map Ev.resume, fun e he => ?_, ?_, ?_⟩
    · rcases List.mem_cons.mp he with rfl | he
      · cases step <;> first | rfl | exact absurd rfl hstep
      · exact hinternal e he
    · rw [Monitor.start, if_pos hr, Mealy.exec_cons, hnext]
      exact hstops
    · rw [Monitor.start, if_pos hr, Mealy.exec_cons, hnext]
      exact htask hs
  · have hawaited : ∀ s ∈ m.start.stops, m.start.Done s.task := by
      intro s hmem
      rw [Monitor.start, if_neg hr] at hmem ⊢
      have hlt := (h.awaited s hmem).1
      refine ⟨m.tasks[s.task], ?_, ?_⟩
      · show (m.tasks ++ [_])[s.task]? = _
        rw [List.getElem?_append_left hlt, List.getElem?_eq_getElem hlt]
      · by_contra hne
        have hunf : m.Unfinished s.task := ⟨_, List.getElem?_eq_getElem hlt, hne⟩
        exact hr (running_iff.mpr ⟨s.task, h.current _ hunf, hunf⟩)
    have hsame : m.start.stops = m.stops := by rw [Monitor.start, if_neg hr]
    obtain ⟨hstops, htask⟩ := resumed_all _ _ rfl hawaited
    rw [hsame] at hstops htask
    exact ⟨_, hinternal, hstops, htask hs⟩

theorem lastCall_isCall {es : List Ev} {e : Ev} (h : lastCall es = some e) : isCall e = true :=
  (List.mem_filter.mp (List.mem_of_getLast? h)).2

theorem lastCall_internal {es gs : List Ev} (h : ∀ e ∈ gs, isInternal e = true) :
    lastCall (es ++ gs) = lastCall es := by
  have hnil : gs.filter isCall = [] := by
    refine List.filter_eq_nil_iff.mpr fun e he => ?_
    have hi := h e he
    cases e <;> simp_all [isInternal, isCall]
  rw [lastCall, List.filter_append, hnil, List.append_nil]
  rfl

/-- A crash while no `stop()` is suspended leaves a started monitor without its task. -/
theorem Sound.crash_lost {es : List Ev} (h : Sound (lastCall es) m) (hs : m.stops = []) {t : ℕ} {k : Task}
    (hk : m.tasks[t]? = some k) (hc : m.crashable k = true) :
    ¬ Kept (es ++ [.task t .crashed]) (system.next m (.task t .crashed)) := by
  intro hkept
  have hne : k.point ≠ .done := by
    intro hd
    rw [crashable, hd] at hc
    simp at hc
  have hnext : system.next m (.task t .crashed) = m.setTask t { k with point := .done } := by
    simp [Mealy.next, system, hk, taskStep, hc]
  have hlast : lastCall (es ++ [.task t .crashed]) = lastCall es := lastCall_concat es (.task t .crashed)
  cases hcall : lastCall es with
  | none =>
    rw [h.idle hcall] at hk
    cases hk
  | some e =>
    have hiscall := lastCall_isCall hcall
    cases e with
    | start =>
      -- the task that the start promises was this one
      obtain ⟨t', ht', k', hk', hne'⟩ := hkept.started (by rw [hnext]; exact hs) (hlast.trans hcall)
      rw [hnext] at ht' hk'
      have htt : t = t' := Option.some.inj ((h.current t ⟨k, hk, hne⟩).symm.trans ht')
      subst htt
      have hset : (m.tasks.set t { k with point := .done })[t]? = some k' := hk'
      rw [List.getElem?_set_self (h.made t (h.current t ⟨k, hk, hne⟩))] at hset
      rw [← Option.some.inj hset] at hne'
      exact hne' rfl
    | stop id => exact h.stopped id hs hcall t ⟨k, hk, hne⟩
    | timeout s => cases hiscall
    | resume s => cases hiscall
    | task t step => cases hiscall

end Disorder

/-- Internal steps are orderly. -/
theorem along_internal {es gs : List Ev} (h : system.Along (fun _ m e => m.Orderly e) {} es)
    (hg : ∀ e ∈ gs, isInternal e = true) : system.Along (fun _ m e => m.Orderly e) {} (es ++ gs) := by
  induction gs using List.reverseRecOn with
  | nil => rwa [List.append_nil]
  | append_singleton gs e ih =>
    rw [← List.append_assoc]
    refine (ih fun e' he' => hg e' (List.mem_append_left _ he')).concat ?_
    have hi := hg e (by simp)
    cases e with
    | start => cases hi
    | task t step =>
      cases step with
      | crashed => cases hi
      | _ => trivial
    | _ => trivial

/-- The promises of `start` and `stop` are kept, whatever the task and the suspended calls do after each
step of the run, exactly if no `start()` is made while a `stop()` is suspended, and the task does not crash
while none is. -/
theorem lifecycle_iff (es : List Ev) :
    (∀ p, p <+: es → ∀ gs, (∀ e ∈ gs, isInternal e = true) → Kept (p ++ gs) (system.exec {} (p ++ gs))) ↔
      system.Along (fun _ m e => m.Orderly e) {} es := by
  constructor
  · induction es using List.reverseRecOn with
    | nil => exact fun _ => Mealy.Along.nil
    | append_singleton es e ih =>
      intro hkept
      have hes := ih fun p hp gs hgs => hkept p (hp.trans (List.prefix_append _ _)) gs hgs
      have hsound := sound_run hes
      refine hes.concat ?_
      by_contra hdis
      have hkept' : ∀ gs, (∀ e ∈ gs, isInternal e = true) →
          Kept (es ++ [e] ++ gs) (system.exec (system.next (system.exec {} es) e) gs) := by
        intro gs hgs
        have hk := hkept _ (List.prefix_refl _) gs hgs
        rwa [Mealy.exec_append, Mealy.exec_concat] at hk
      cases e with
      | start =>
        obtain ⟨gs, hgs, hstops, htask⟩ := hsound.start_lost hdis
        have hlast : lastCall (es ++ [.start] ++ gs) = some .start := by
          rw [lastCall_internal hgs, lastCall_concat]
          rfl
        obtain ⟨t, ht, -⟩ := (hkept' gs hgs).started hstops hlast
        exact absurd (htask.symm.trans ht) nofun
      | task t step =>
        cases step with
        | crashed =>
          refine hdis fun hs k hk => ?_
          by_contra hc
          have hk' := hkept' [] nofun
          rw [List.append_nil] at hk'
          exact hsound.crash_lost hs hk (Bool.not_eq_false _ ▸ hc) hk'
        | _ => exact hdis trivial
      | _ => exact hdis trivial
  · rintro hG p ⟨q, rfl⟩ gs hgs
    exact (sound_run (along_internal hG.of_append hgs)).kept

/-- A `start()` between the end of the task and the end of the `stop()` that awaits it. -/
def restart : List Ev := [.start, .stop 0, .task 0 .begun, .start, .resume ⟨0, 0⟩, .start]

/-- The new task is lost to the `finally` of the `stop()`, and the next `start()` makes a second one. -/
theorem restart_leaks_task : ¬ Kept restart (system.exec {} restart) := by
  intro h
  have hexec : system.exec {} restart =
      { task := some 2, stopping := 3, nextEvent := 4, isSet := [1],
        tasks := [⟨.done, false⟩, ⟨.top, false⟩, ⟨.top, false⟩] } := by
    decide +kernel
  rw [hexec] at h
  exact absurd (h.atMostOne 1 2 ⟨_, rfl, nofun⟩ ⟨_, rfl, nofun⟩) (by decide)

end Monitor

end ResilienceKit.Recovery

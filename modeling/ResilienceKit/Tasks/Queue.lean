import ResilienceKit.Dispatch.Delivery

/-!
# Tasks.Queue — the task queue and its registry of handlers

`submit` looks the name up before it queues the call, and `_flush_batch` looks it up again before it runs the call;
between the two handlers come and go.  The worker is that of Dispatch.FireAndForget (`core`): what it does between the
end of one handler and the start of the next is one step, and everything else can happen while a handler runs.
`tasks_once` is what becomes of the calls.
-/

namespace ResilienceKit.Tasks

open FireAndForget (Item Dispatcher)

/-- `payload` stands for the arguments. -/
structure TaskCall (P : Type) where
  name : String
  payload : P
  deriving DecidableEq

/-- What became of a call: its handler had vanished, or ended, or the batch was given up before that. -/
inductive Fate (H : Type)
  | unknown
  | returned (handler : H)
  | failed (handler : H) (exc : PyExc)
  | lost
  deriving DecidableEq

def Fate.handler {H : Type} : Fate H → Option H
  | .returned h => some h
  | .failed h _ => some h
  | _ => none

/-- `running` is the call whose handler runs, `rest` what the batch still has after it; `fates` is the record of the
calls that are over, which no code reads. -/
structure State (H P C : Type) where
  core : Dispatcher (TaskCall P) C
  handlers : String → Option H := fun _ => none
  running : Option (Item (TaskCall P) × H) := none
  rest : List (Item (TaskCall P)) := []
  fates : List (Item (TaskCall P) × Fate H) := []

/-- The metrics of a call, and those of the dispatcher. -/
inductive Metric (P : Type)
  | unknown (call : TaskCall P)
  | failed (call : TaskCall P)
  | submitted
  | dropped
  | flushed
  | flushFailed

/-- Whether the metrics sink raises (an `Exception`) at a metric. -/
abbrev Sink (P : Type) := Metric P → Bool

/-- It raises at none of the metrics of the dispatcher. -/
structure Sink.Quiet {P : Type} (sink : Sink P) : Prop where
  submitted : sink .submitted = false
  dropped : sink .dropped = false
  flushed : sink .flushed = false
  flushFailed : sink .flushFailed = false

/-- `get`, `fill` and `fillEnd` are the worker's; the batch is flushed from `fillEnd` on.  What a `timeout` counts does
not raise. -/
inductive Ev (H P C : Type)
  | register (name : String) (func : H)
  | resetRegistry
  | submit (name : String) (payload : P) (ctx : C) (sink : Sink P)
  | get
  | fill
  | fillEnd (sink : Sink P)
  | handlerEnds (exc : Option PyExc) (sink : Sink P)
  | aclose
  | drained
  | timeout
  | cancel

inductive Out (P C : Type)
  | none
  | raised (exc : PyExc)
  | submitted (out : FireAndForget.Out (TaskCall P) C)

variable {H P C : Type}

/-- The queue that `get_queue` builds. -/
def queueConfig : FireAndForget.Config := { queueSize := 10000, batchMax := 100, overflow := .DROP_NEWEST }

section Functions

variable (s : State H P C)

/-- A step of the worker, or of whoever closes the queue. -/
def State.coreStep (e : FireAndForget.Ev (TaskCall P) C) : State H P C :=
  { s with core := (FireAndForget.step queueConfig s.core e).1 }

/-- `register` with its decorator. -/
def register [DecidableEq H] (name : String) (func : H) : State H P C × Out P C :=
  match s.handlers name with
  | some existing =>
    if existing = func then ({ s with handlers := Function.update s.handlers name (some func) }, .none)
    else (s, .raised ⟨.valueError, 0⟩)
  | none => ({ s with handlers := Function.update s.handlers name (some func) }, .none)

def getHandler (name : String) : Except PyExc H :=
  match s.handlers name with
  | some handler => .ok handler
  | none => .error ⟨.keyError, 0⟩

/-- What a `submit` of the dispatcher counts. -/
def metricOf : FireAndForget.Out (TaskCall P) C → Option (Metric P)
  | .accepted => some .submitted
  | .refused => some .dropped
  | _ => none

def submit (name : String) (payload : P) (ctx : C) (sink : Sink P) : State H P C × Out P C :=
  match getHandler s name with
  | .error exc => (s, .raised exc)
  | .ok _ =>
    let (core, out) := FireAndForget.submit queueConfig s.core ⟨name, payload⟩ ctx
    -- The queue has been changed when the sink raises.
    ({ s with core }, if (metricOf out).any sink then .raised ⟨.exception, 0⟩ else .submitted out)

def State.record (x : Item (TaskCall P)) (fate : Fate H) : State H P C := { s with fates := s.fates ++ [(x, fate)] }

/-- The batch is given up. -/
def State.giveUp (rest : List (Item (TaskCall P))) : State H P C :=
  { s with running := none, rest := [], fates := s.fates ++ rest.map fun x => (x, .lost) }

/-- The dispatcher's `_flush_batch` after its flush: what it counts may raise, and that ends the worker before any
`task_done`. -/
def State.flushEnd (raised : Bool) (sink : Sink P) : State H P C :=
  if sink (if raised then .flushFailed else .flushed) then s.coreStep .cancel else s.coreStep (.flushEnd raised)

end Functions

/-- `_flush_batch` up to the next handler, or to its end. -/
def flushBatch (sink : Sink P) : List (Item (TaskCall P)) → State H P C → State H P C
  | [], s => { s with running := none, rest := [] }.flushEnd false sink
  | x :: rest, s =>
    match getHandler s x.2.name with
    | .ok handler => { s with running := some (x, handler), rest }
    | .error _ =>
      if sink (.unknown x.2) then ((s.record x .unknown).giveUp rest).flushEnd true sink
      else flushBatch sink rest (s.record x .unknown)

/-- The handler that runs returns, or raises; what is no `Exception` ends the worker. -/
def handlerEnds (exc : Option PyExc) (sink : Sink P) (s : State H P C) : State H P C :=
  match s.running with
  | none => s
  | some (x, handler) =>
    match exc with
    | none => flushBatch sink s.rest (s.record x (.returned handler))
    | some e =>
      if isinstance e .exception then
        if sink (.failed x.2) then ((s.record x (.failed handler e)).giveUp s.rest).flushEnd true sink
        else flushBatch sink s.rest (s.record x (.failed handler e))
      else ((s.record x (.failed handler e)).giveUp s.rest).coreStep .cancel

/-- The worker is stopped: what it has begun is lost. -/
def stopped (e : FireAndForget.Ev (TaskCall P) C) (s : State H P C) : State H P C :=
  (s.giveUp ((s.running.map Prod.fst).toList ++ s.rest)).coreStep e

def step [DecidableEq H] (s : State H P C) : Ev H P C → State H P C × Out P C
  | .register name func => register s name func
  | .resetRegistry => ({ s with handlers := fun _ => none }, .none)
  | .submit name payload ctx sink => submit s name payload ctx sink
  | .get => (s.coreStep .get, .none)
  | .fill => (s.coreStep .fill, .none)
  | .fillEnd sink =>
    match s.core.worker with
    | .running _ (.filling batch) => (flushBatch sink batch (s.coreStep .fillEnd), .none)
    | _ => (s, .none)
  | .handlerEnds exc sink => (handlerEnds exc sink s, .none)
  | .aclose => (s.coreStep .aclose, .none)
  | .drained => (s.coreStep .drained, .none)
  | .timeout => (if s.core.closing = .draining then stopped .timeout s else s, .none)
  | .cancel => (stopped .cancel s, .none)

/-- Any submitters, any handlers, in any order. -/
def system (H P C : Type) [DecidableEq H] : Mealy (State H P C) (Ev H P C) (Out P C) where
  init := { core := { queue := .empty queueConfig.queueSize } }
  step := step

/-! ### What a step can do -/

variable {s : State H P C}

/-- Nothing ends the worker: neither a timeout nor a stop, no handler raises what is not an `Exception`, and the sink
raises at none of the dispatcher's metrics. -/
def Ev.Calm : Ev H P C → Prop
  | .submit _ _ _ sink => sink.Quiet
  | .fillEnd sink => sink.Quiet
  | .handlerEnds exc sink => sink.Quiet ∧ ∀ e, exc = some e → isinstance e .exception = true
  | .timeout => False
  | .cancel => False
  | _ => True

/-- The calls `xs` have lost their handlers. -/
def State.vanished (s : State H P C) (xs : List (Item (TaskCall P))) : State H P C :=
  { s with fates := s.fates ++ xs.map fun x => (x, .unknown) }

/-- The batch is given up because the metrics sink raised. -/
def State.spoilt (s : State H P C) (rest : List (Item (TaskCall P))) : State H P C :=
  (s.giveUp rest).coreStep (.flushEnd true)

theorem flushEnd_of_quiet {sink : Sink P} (hsink : sink.Quiet) (s : State H P C) (raised : Bool) :
    s.flushEnd raised sink = s.coreStep (.flushEnd raised) := by
  cases raised
  · simp [State.flushEnd, hsink.flushed]
  · simp [State.flushEnd, hsink.flushFailed]

/-- `_flush_batch`: the calls `gone` have no handler; then the batch is over, or the next call has one, or the metric of
the last of them raises. -/
inductive Flushed (sink : Sink P) (s : State H P C) : List (Item (TaskCall P)) → State H P C → Prop
  | finished {gone : List (Item (TaskCall P))} (hgone : ∀ x ∈ gone, s.handlers x.2.name = none) :
      Flushed sink s gone ({ s.vanished gone with running := none, rest := [] }.coreStep (.flushEnd false))
  | next {gone rest : List (Item (TaskCall P))} {x : Item (TaskCall P)} {h : H}
      (hgone : ∀ x ∈ gone, s.handlers x.2.name = none) (hx : s.handlers x.2.name = some h) :
      Flushed sink s (gone ++ x :: rest) { s.vanished gone with running := some (x, h), rest }
  | spoilt {gone rest : List (Item (TaskCall P))} {x : Item (TaskCall P)}
      (hgone : ∀ x ∈ gone, s.handlers x.2.name = none) (hx : x ∈ gone) (hsink : sink (.unknown x.2) = true) :
      Flushed sink s (gone ++ rest) ((s.vanished gone).spoilt rest)

theorem vanished_nil (s : State H P C) : s.vanished [] = s := by
  simp [State.vanished]

theorem vanished_cons (s : State H P C) (x : Item (TaskCall P)) (xs : List (Item (TaskCall P))) :
    (s.record x .unknown).vanished xs = s.vanished (x :: xs) := by
  simp [State.record, State.vanished]

/-- **What `_flush_batch` can do.** -/
theorem flushed {sink : Sink P} (hquiet : sink.Quiet) (xs : List (Item (TaskCall P))) (s : State H P C) :
    Flushed sink s xs (flushBatch sink xs s) := by
  induction xs generalizing s with
  | nil =>
    have h : Flushed sink s [] _ := .finished (by simp)
    rwa [vanished_nil, ← flushEnd_of_quiet hquiet] at h
  | cons x rest ih =>
    rw [flushBatch, getHandler]
    cases hx : s.handlers x.2.name with
    | some h =>
      have hnext : Flushed sink s ([] ++ x :: rest) _ := .next (by simp) hx
      rwa [vanished_nil, List.nil_append] at hnext
    | none =>
      have hcons : ∀ gone : List (Item (TaskCall P)), (∀ y ∈ gone, s.handlers y.2.name = none) →
          ∀ y ∈ x :: gone, s.handlers y.2.name = none := by
        intro gone hgone y hy
        rcases List.mem_cons.mp hy with rfl | hy
        · exact hx
        · exact hgone y hy
      dsimp only
      split_ifs with hsink
      · have h : Flushed sink s ([x] ++ rest) _ := .spoilt (hcons [] (by simp)) List.mem_cons_self hsink
        rwa [← vanished_cons, vanished_nil, List.singleton_append, State.spoilt, ← flushEnd_of_quiet hquiet] at h
      · have h := ih (s.record x .unknown)
        generalize hr : flushBatch sink rest (s.record x .unknown) = r at h
        cases h with
        | finished hgone =>
          rw [vanished_cons]
          exact .finished (hcons _ hgone)
        | next hgone hy =>
          rw [vanished_cons, ← List.cons_append]
          exact .next (hcons _ hgone) hy
        | spoilt hgone hy hs =>
          rw [vanished_cons, ← List.cons_append]
          exact .spoilt (hcons _ hgone) (List.mem_cons_of_mem _ hy) hs

/-- A calm step: `idle` where nothing changes, `worked` where only the worker or a closer acts. -/
inductive Stepped (s : State H P C) : Ev H P C → State H P C × Out P C → Prop
  | idle {e : Ev H P C} {out : Out P C} (hout : ∀ o, out ≠ .submitted o) : Stepped s e (s, out)
  | registered {name : String} {func : H} (hnew : ∀ h, s.handlers name = some h → h = func) :
      Stepped s (.register name func) ({ s with handlers := Function.update s.handlers name (some func) }, .none)
  | reset : Stepped s .resetRegistry ({ s with handlers := fun _ => none }, .none)
  | submitted {name : String} {h : H} (payload : P) (ctx : C) (sink : Sink P) (hname : s.handlers name = some h) :
      Stepped s (.submit name payload ctx sink)
        (s.coreStep (.submit ⟨name, payload⟩ ctx),
          .submitted (FireAndForget.submit queueConfig s.core ⟨name, payload⟩ ctx).2)
  | worked {e : Ev H P C} (c : FireAndForget.Ev (TaskCall P) C) (hcalm : c.Calm)
      (hc : ∀ event ctx, c ≠ .submit event ctx) (hfill : c ≠ .fillEnd) (hflush : ∀ raised, c ≠ .flushEnd raised) :
      Stepped s e (s.coreStep c, .none)
  | flushing {sink : Sink P} {ctx : C} {batch : List (Item (TaskCall P))} {s' : State H P C}
      (hw : s.core.worker = .running ctx (.filling batch)) (hf : Flushed sink (s.coreStep .fillEnd) batch s') :
      Stepped s (.fillEnd sink) (s', .none)
  | ended {exc : Option PyExc} {sink : Sink P} {x : Item (TaskCall P)} {h : H} {fate : Fate H} {s' : State H P C}
      (hrun : s.running = some (x, h)) (hfate : fate.handler = some h)
      (hf : Flushed sink (s.record x fate) s.rest s') : Stepped s (.handlerEnds exc sink) (s', .none)
  | spoilt {exc : Option PyExc} {sink : Sink P} {x : Item (TaskCall P)} {h : H} {fate : Fate H}
      (hrun : s.running = some (x, h)) (hfate : fate.handler = some h) (hsink : sink (.failed x.2) = true) :
      Stepped s (.handlerEnds exc sink) ((s.record x fate).spoilt s.rest, .none)

theorem handlerEnds_stepped {exc : Option PyExc} {sink : Sink P} (s : State H P C)
    (hcalm : Ev.Calm (.handlerEnds exc sink : Ev H P C)) :
    Stepped s (.handlerEnds exc sink) (handlerEnds exc sink s, .none) := by
  obtain ⟨hquiet, hexc⟩ := hcalm
  rw [handlerEnds]
  rcases hrun : s.running with _ | ⟨x, h⟩
  · exact .idle (by simp)
  · cases exc with
    | none => exact .ended hrun rfl (flushed hquiet _ _)
    | some e =>
      simp only [if_pos (hexc e rfl), flushEnd_of_quiet hquiet]
      have hfate : (Fate.failed h e).handler = some h := rfl
      split_ifs with hsink
      · exact .spoilt hrun hfate hsink
      · exact .ended hrun hfate (flushed hquiet _ _)

/-- A quiet sink lets the answer of a `submit` through. -/
theorem metricOf_quiet {sink : Sink P} (hquiet : sink.Quiet) (out : FireAndForget.Out (TaskCall P) C) :
    (metricOf out).any sink = false := by
  cases out with
  | accepted => simpa [metricOf] using hquiet.submitted
  | refused => simpa [metricOf] using hquiet.dropped
  | _ => rfl

/-- **What a calm step can do.** -/
theorem stepped [DecidableEq H] (s : State H P C) {e : Ev H P C} (hcalm : e.Calm) : Stepped s e (step s e) := by
  cases e with
  | register name func =>
    simp only [step, register]
    split
    next h hname =>
      split_ifs with heq
      · exact .registered fun h' h'' => by rw [← Option.some_inj, ← h'', hname, heq]
      · exact .idle (by simp)
    next hname => exact .registered fun h' h'' => by simp [hname] at h''
  | resetRegistry => exact .reset
  | submit name payload ctx sink =>
    simp only [step, submit, getHandler]
    cases hname : s.handlers name with
    | none => exact .idle (by simp)
    | some h =>
      have hout := metricOf_quiet (C := C) hcalm (FireAndForget.submit queueConfig s.core ⟨name, payload⟩ ctx).2
      simp only [hout, Bool.false_eq_true, if_false]
      exact .submitted payload ctx sink hname
  | get => exact .worked .get trivial (by simp) (by simp) (by simp)
  | fill => exact .worked .fill trivial (by simp) (by simp) (by simp)
  | fillEnd sink =>
    simp only [step]
    split
    next ctx batch hw => exact .flushing hw (flushed hcalm _ _)
    next => exact .idle (by simp)
  | handlerEnds exc sink => exact handlerEnds_stepped s hcalm
  | aclose => exact .worked .aclose trivial (by simp) (by simp) (by simp)
  | drained => exact .worked .drained trivial (by simp) (by simp) (by simp)
  | timeout => exact absurd hcalm not_false
  | cancel => exact absurd hcalm not_false

/-! ### No call is lost sight of -/

/-- The call whose handler runs, and those after it. -/
def State.started (s : State H P C) : List (Item (TaskCall P)) := (s.running.map Prod.fst).toList ++ s.rest

/-- The call of a `submit` that returned true. -/
def acceptedCall (r : Mealy.Step (State H P C) (Ev H P C) (Out P C)) : Option (Item (TaskCall P)) :=
  match r.ev, r.out with
  | .submit name payload _ _, .submitted .accepted => some (r.pre.core.submits, ⟨name, payload⟩)
  | _, _ => none

/-- The queue and its worker keep to what they promise, and the calls `xs` of the batch that is flushed are still to
come. -/
structure Held (accepted : List (Item (TaskCall P))) (s : State H P C) (xs : List (Item (TaskCall P)))
    (l : FireAndForget.History (TaskCall P) C) : Prop where
  core : FireAndForget.Invariant queueConfig (FireAndForget.Ledger.of l) s.core
  accepted : (FireAndForget.Ledger.of l).accepted = accepted
  handed : (FireAndForget.Ledger.of l).handed.flatten = s.fates.map Prod.fst ++ xs

/-- What holds between two steps: a flush goes on exactly while a handler runs. -/
structure Kept (accepted : List (Item (TaskCall P))) (s : State H P C)
    (l : FireAndForget.History (TaskCall P) C) : Prop extends Held accepted s s.started l where
  part : s.started <:+ s.core.worker.inFlush
  idle : s.running = none → s.core.worker.inFlush = []

theorem Kept.initial [DecidableEq H] : Kept [] (system H P C).init [] where
  core := FireAndForget.Invariant.initial queueConfig
  accepted := rfl
  handed := rfl
  part := List.suffix_refl _
  idle _ := rfl

section Steps

variable {accepted xs : List (Item (TaskCall P))} {l : FireAndForget.History (TaskCall P) C}

/-- The entry of a step in the history of the dispatcher. -/
def State.coreEntry (s : State H P C) (c : FireAndForget.Ev (TaskCall P) C) :
    Mealy.Step (Dispatcher (TaskCall P) C) (FireAndForget.Ev (TaskCall P) C) (FireAndForget.Out (TaskCall P) C) :=
  ⟨s.core, c, (FireAndForget.step queueConfig s.core c).2, (FireAndForget.step queueConfig s.core c).1⟩

theorem Held.invariant (hs : Held accepted s xs l) {c : FireAndForget.Ev (TaskCall P) C} (hcalm : c.Calm) :
    FireAndForget.Invariant queueConfig (FireAndForget.Ledger.of (l ++ [s.coreEntry c])) (s.coreStep c).core :=
  hs.core.step hcalm (FireAndForget.stepped queueConfig s.core c)

/-- Only `submit` accepts. -/
theorem acceptedItem_quiet (s : State H P C) {c : FireAndForget.Ev (TaskCall P) C}
    (hc : ∀ event ctx, c ≠ .submit event ctx) : FireAndForget.acceptedItem (s.coreEntry c) = none := by
  cases c with
  | submit event ctx => exact absurd rfl (hc event ctx)
  | _ => rfl

/-- Only the end of a filling hands over. -/
theorem Held.handed_quiet (hs : Held accepted s xs l) {c : FireAndForget.Ev (TaskCall P) C} (hfill : c ≠ .fillEnd) :
    FireAndForget.handedBatch (s.coreEntry c) = none := by
  have h := FireAndForget.stepped queueConfig s.core c
  unfold State.coreEntry
  generalize FireAndForget.step queueConfig s.core c = res at h
  cases h with
  | submit event ctx =>
    have hsub := hs.core.submitted event ctx
    generalize FireAndForget.submit queueConfig s.core event ctx = res at hsub
    cases hsub <;> rfl
  | handed hw => exact absurd rfl hfill
  | _ => rfl

theorem Held.coreStep (hs : Held accepted s xs l) {c : FireAndForget.Ev (TaskCall P) C} (hcalm : c.Calm)
    (hc : ∀ event ctx, c ≠ .submit event ctx) (hfill : c ≠ .fillEnd) :
    Held accepted (s.coreStep c) xs (l ++ [s.coreEntry c]) where
  core := hs.invariant hcalm
  accepted := by
    rw [FireAndForget.Ledger.of_concat, acceptedItem_quiet s hc]
    simpa using hs.accepted
  handed := by
    rw [FireAndForget.Ledger.of_concat, hs.handed_quiet hfill]
    show ((FireAndForget.Ledger.of l).handed ++ []).flatten = s.fates.map Prod.fst ++ xs
    rw [List.append_nil]
    exact hs.handed

/-- A call is over. -/
theorem Held.record {x : Item (TaskCall P)} (hs : Held accepted s (x :: xs) l) (fate : Fate H) :
    Held accepted (s.record x fate) xs l where
  core := hs.core
  accepted := hs.accepted
  handed := by
    show _ = (s.fates ++ [(x, fate)]).map Prod.fst ++ xs
    rw [hs.handed]
    simp

theorem map_fst_mark (fate : Fate H) (xs : List (Item (TaskCall P))) :
    (xs.map fun x => (x, fate)).map Prod.fst = xs := by
  rw [List.map_map]
  exact List.map_id xs

theorem Held.vanished {gone : List (Item (TaskCall P))} (hs : Held accepted s (gone ++ xs) l) :
    Held accepted (s.vanished gone) xs l where
  core := hs.core
  accepted := hs.accepted
  handed := by
    show _ = (s.fates ++ gone.map fun x => (x, Fate.unknown)).map Prod.fst ++ xs
    rw [hs.handed, List.map_append, map_fst_mark, List.append_assoc]

theorem Held.giveUp (hs : Held accepted s xs l) : Held accepted (s.giveUp xs) [] l where
  core := hs.core
  accepted := hs.accepted
  handed := by
    show _ = (s.fates ++ xs.map fun x => (x, Fate.lost)).map Prod.fst ++ []
    rw [hs.handed, List.map_append, map_fst_mark, List.append_nil]

/-- The flush ends, and the worker waits again. -/
theorem Held.flushEnd (hs : Held accepted s [] l) (hrun : s.running = none) (hrest : s.rest = []) {ctx : C}
    {batch : List (Item (TaskCall P))} (hw : s.core.worker = .running ctx (.flushing batch)) (raised : Bool) :
    ∃ l', Kept accepted (s.coreStep (.flushEnd raised)) l' := by
  have hcore : (s.coreStep (.flushEnd raised)).core.worker.inFlush = [] := by
    show (FireAndForget.step queueConfig s.core (.flushEnd raised)).1.worker.inFlush = []
    simp only [FireAndForget.step, hw]
    rw [hs.core.flushEnd_eq raised hw]
    rfl
  have hstarted : (s.coreStep (.flushEnd raised)).started = [] := by
    show (s.running.map Prod.fst).toList ++ s.rest = []
    rw [hrun, hrest]
    rfl
  have hheld := hs.coreStep (c := .flushEnd raised) trivial (by simp) (by simp)
  rw [← hstarted] at hheld
  refine ⟨_, hheld, ?_, fun _ => hcore⟩
  rw [hstarted]
  exact List.nil_suffix

/-- **A flush keeps the calls**, up to the next handler or to its end. -/
theorem Held.flushed (hs : Held accepted s xs l) {ctx : C} {batch : List (Item (TaskCall P))}
    (hw : s.core.worker = .running ctx (.flushing batch)) (hpart : xs <:+ batch) {sink : Sink P} {s' : State H P C}
    (h : Flushed sink s xs s') : ∃ l', Kept accepted s' l' := by
  cases h with
  | finished hgone =>
    rw [← List.append_nil xs] at hs
    have hheld := hs.vanished
    exact Held.flushEnd (s := { s.vanished xs with running := none, rest := [] })
      ⟨hheld.core, hheld.accepted, hheld.handed⟩ rfl rfl hw false
  | @next gone rest x handler hgone hx =>
    have hheld := hs.vanished
    refine ⟨l, ⟨hheld.core, hheld.accepted, hheld.handed⟩, ?_, ?_⟩
    · show x :: rest <:+ s.core.worker.inFlush
      rw [hw]
      exact (List.suffix_append gone (x :: rest)).trans hpart
    · intro hnone
      cases hnone
  | @spoilt gone rest x hgone hx hsink =>
    exact Held.flushEnd (s := (s.vanished gone).giveUp rest) hs.vanished.giveUp rfl rfl hw true

/-- The handler that runs is that of the oldest call in the flush. -/
theorem Kept.running (hs : Kept accepted s l) {x : Item (TaskCall P)} {h : H} (hrun : s.running = some (x, h)) :
    Held accepted s (x :: s.rest) l ∧
      ∃ ctx batch, s.core.worker = .running ctx (.flushing batch) ∧ s.rest <:+ batch := by
  have hstarted : s.started = x :: s.rest := by
    rw [State.started, hrun]
    rfl
  have hpart := hs.part
  rw [hstarted] at hpart
  refine ⟨hstarted ▸ hs.toHeld, ?_⟩
  rcases hw : s.core.worker with _ | ⟨ctx, _ | batch | batch⟩ | _
  case running.flushing =>
    rw [hw] at hpart
    exact ⟨ctx, batch, rfl, (List.suffix_cons x s.rest).trans hpart⟩
  all_goals
    rw [hw] at hpart
    exact absurd (List.eq_nil_of_suffix_nil hpart) (List.cons_ne_nil _ _)

theorem ensureStarted_inFlush {T : Type} (d : Dispatcher T C) (ctx : C) :
    (FireAndForget.ensureStarted d ctx).worker.inFlush = d.worker.inFlush := by
  unfold FireAndForget.ensureStarted
  rcases hw : d.worker with _ | ⟨ctx', phase⟩ | _
  · rfl
  · simp only [hw]
  · rfl

/-- What the worker and the closers do between two calls leaves the batch in the flush alone. -/
theorem Kept.worked (hs : Kept accepted s l) {c : FireAndForget.Ev (TaskCall P) C} (hcalm : c.Calm)
    (hfill : c ≠ .fillEnd) (hflush : ∀ raised, c ≠ .flushEnd raised) :
    (s.coreStep c).core.worker.inFlush = s.core.worker.inFlush := by
  have h := FireAndForget.stepped queueConfig s.core c
  show (FireAndForget.step queueConfig s.core c).1.worker.inFlush = _
  generalize FireAndForget.step queueConfig s.core c = res at h
  cases h with
  | submit event ctx =>
    have hsub := hs.core.submitted event ctx
    show (FireAndForget.submit queueConfig s.core event ctx).1.worker.inFlush = _
    rw [← ensureStarted_inFlush s.core ctx]
    generalize FireAndForget.submit queueConfig s.core event ctx = res at hsub
    cases hsub with
    | closed hc => rw [ensureStarted_inFlush]
    | _ => rfl
  | idle => rfl
  | got hw hgot => rw [hw]; rfl
  | filled hw hgot hmax => rw [hw]; rfl
  | handed hw => exact absurd rfl hfill
  | flushed raised hw => exact absurd rfl (hflush raised)
  | unused hc hw => rfl
  | closing hc hw => rfl
  | drained hd hj =>
    have hhand := (hs.core.hand_of_joined hj).2
    rw [FireAndForget.Worker.hand_eq, List.append_eq_nil_iff] at hhand
    rw [hhand.2]
    rfl
  | timedOut hd => exact absurd hcalm not_false
  | cancelled hw => exact absurd hcalm not_false

theorem Kept.coreStep (hs : Kept accepted s l) {c : FireAndForget.Ev (TaskCall P) C} (hcalm : c.Calm)
    (hfill : c ≠ .fillEnd) (hflush : ∀ raised, c ≠ .flushEnd raised) :
    Kept (accepted ++ (FireAndForget.acceptedItem (s.coreEntry c)).toList) (s.coreStep c)
      (l ++ [s.coreEntry c]) where
  core := hs.invariant hcalm
  accepted := by
    rw [FireAndForget.Ledger.of_concat, ← hs.accepted]
  handed := by
    rw [FireAndForget.Ledger.of_concat, hs.handed_quiet hfill]
    show ((FireAndForget.Ledger.of l).handed ++ []).flatten = s.fates.map Prod.fst ++ s.started
    rw [List.append_nil]
    exact hs.handed
  part := by
    rw [hs.worked hcalm hfill hflush]
    exact hs.part
  idle hnone := by
    rw [hs.worked hcalm hfill hflush]
    exact hs.idle hnone

/-- The batch is handed over. -/
theorem Kept.handing (hs : Kept accepted s l) {ctx : C} {batch : List (Item (TaskCall P))}
    (hw : s.core.worker = .running ctx (.filling batch)) :
    Held accepted (s.coreStep .fillEnd) batch (l ++ [s.coreEntry .fillEnd]) ∧
      (s.coreStep .fillEnd).core.worker = .running ctx (.flushing batch) := by
  have hstep : FireAndForget.step queueConfig s.core .fillEnd =
      ({ s.core with worker := .running ctx (.flushing batch) }, .handed ctx batch) := by
    simp only [FireAndForget.step, hw]
  have hnone : s.started = [] := by
    have hpart := hs.part
    rw [hw] at hpart
    exact List.eq_nil_of_suffix_nil hpart
  refine ⟨⟨hs.invariant trivial, ?_, ?_⟩, congrArg (fun r => r.1.worker) hstep⟩
  · rw [FireAndForget.Ledger.of_concat, acceptedItem_quiet s (by simp)]
    simpa using hs.accepted
  · have hhanded : FireAndForget.handedBatch (s.coreEntry .fillEnd) = some batch := by
      unfold State.coreEntry
      rw [hstep]
      rfl
    rw [FireAndForget.Ledger.of_concat, hhanded]
    show ((FireAndForget.Ledger.of l).handed ++ [batch]).flatten = s.fates.map Prod.fst ++ batch
    rw [List.flatten_append, hs.handed, hnone]
    simp

theorem Kept.handlers (hs : Kept accepted s l) (handlers : String → Option H) :
    Kept accepted { s with handlers } l :=
  ⟨⟨hs.core, hs.accepted, hs.handed⟩, hs.part, hs.idle⟩

/-- A step that answers no `submit` accepts nothing. -/
theorem Kept.quiet {t : State H P C} (h : ∃ l', Kept accepted t l') {e : Ev H P C} {out : Out P C}
    (hout : ∀ o, out ≠ .submitted o) : ∃ l', Kept (accepted ++ (acceptedCall ⟨s, e, out, t⟩).toList) t l' := by
  have hnone : acceptedCall ⟨s, e, out, t⟩ = none := by
    cases e with
    | submit name payload ctx sink =>
      cases out with
      | submitted o => exact absurd rfl (hout o)
      | _ => rfl
    | _ => rfl
  rw [hnone, Option.toList_none, List.append_nil]
  exact h

/-- **Every calm step keeps the calls.** -/
theorem Kept.step (hs : Kept accepted s l) {e : Ev H P C} {res : State H P C × Out P C} (h : Stepped s e res) :
    ∃ l', Kept (accepted ++ (acceptedCall ⟨s, e, res.2, res.1⟩).toList) res.1 l' := by
  cases h with
  | idle hout => exact Kept.quiet ⟨l, hs⟩ hout
  | registered hnew => exact Kept.quiet ⟨l, hs.handlers _⟩ (by simp)
  | reset => exact Kept.quiet ⟨l, hs.handlers _⟩ (by simp)
  | @submitted name h payload ctx sink hname =>
    have hkept := hs.coreStep (c := .submit ⟨name, payload⟩ ctx) trivial (by simp) (by simp)
    have hitem : FireAndForget.acceptedItem (s.coreEntry (.submit ⟨name, payload⟩ ctx)) =
        acceptedCall ⟨s, .submit name payload ctx sink,
          .submitted (FireAndForget.submit queueConfig s.core ⟨name, payload⟩ ctx).2,
          s.coreStep (.submit ⟨name, payload⟩ ctx)⟩ := by
      show FireAndForget.acceptedItem ⟨s.core, .submit ⟨name, payload⟩ ctx,
        (FireAndForget.submit queueConfig s.core ⟨name, payload⟩ ctx).2, _⟩ = _
      generalize (FireAndForget.submit queueConfig s.core ⟨name, payload⟩ ctx).2 = out
      cases out <;> rfl
    exact ⟨_, hitem ▸ hkept⟩
  | worked c hcalm hc hfill hflush =>
    have hkept := hs.coreStep hcalm hfill hflush
    rw [acceptedItem_quiet s hc, Option.toList_none, List.append_nil] at hkept
    exact Kept.quiet ⟨_, hkept⟩ (by simp)
  | flushing hw hf =>
    obtain ⟨hheld, hw'⟩ := hs.handing hw
    exact Kept.quiet (hheld.flushed hw' (List.suffix_refl _) hf) (by simp)
  | ended hrun hfate hf =>
    obtain ⟨hheld, ctx, batch, hw, hpart⟩ := hs.running hrun
    exact Kept.quiet ((hheld.record _).flushed hw hpart hf) (by simp)
  | @spoilt _ _ x h fate hrun hfate hsink =>
    obtain ⟨hheld, ctx, batch, hw, -⟩ := hs.running hrun
    have hend := Held.flushEnd (s := (s.record x fate).giveUp s.rest) (hheld.record fate).giveUp rfl rfl hw true
    exact Kept.quiet hend (by simp)

end Steps

/-! ### Whose handler runs -/

/-- The event comes with a metrics sink that raises. -/
def Ev.Noisy : Ev H P C → Prop
  | .fillEnd sink => ∃ metric, sink metric = true
  | .handlerEnds _ sink => ∃ metric, sink metric = true
  | _ => False

/-- A fate that a flush gives without a call of the handler. -/
inductive Skipped (handlers : String → Option H) (noisy : Prop) (x : Item (TaskCall P)) : Fate H → Prop
  | unknown (hx : handlers x.2.name = none) : Skipped handlers noisy x .unknown
  | lost (hn : noisy) : Skipped handlers noisy x .lost

theorem mem_mark {x : Item (TaskCall P)} {fate mark : Fate H} {xs : List (Item (TaskCall P))}
    (h : (x, fate) ∈ xs.map fun y => (y, mark)) : x ∈ xs ∧ fate = mark := by
  obtain ⟨y, hy, heq⟩ := List.mem_map.mp h
  cases heq
  exact ⟨hy, rfl⟩

/-- **What a flush does to handlers and fates.** -/
theorem Flushed.spec {sink : Sink P} {xs : List (Item (TaskCall P))} {s' : State H P C} (h : Flushed sink s xs s') :
    s'.handlers = s.handlers ∧ (∀ x h, s'.running = some (x, h) → s.handlers x.2.name = some h) ∧
      ∀ x fate, (x, fate) ∈ s'.fates →
        (x, fate) ∈ s.fates ∨ Skipped s.handlers (∃ metric, sink metric = true) x fate := by
  cases h with
  | finished hgone =>
    refine ⟨rfl, ?_, fun x fate hmem => ?_⟩
    · rintro x h ⟨⟩
    refine (List.mem_append.mp hmem).imp_right fun hmem => ?_
    obtain ⟨hx, rfl⟩ := mem_mark hmem
    exact .unknown (hgone x hx)
  | next hgone hx =>
    refine ⟨rfl, ?_, fun x fate hmem => ?_⟩
    · rintro x h ⟨⟩
      exact hx
    · refine (List.mem_append.mp hmem).imp_right fun hmem => ?_
      obtain ⟨hx, rfl⟩ := mem_mark hmem
      exact .unknown (hgone x hx)
  | @spoilt gone rest y hgone hy hsink =>
    refine ⟨rfl, ?_, fun x fate hmem => ?_⟩
    · rintro x h ⟨⟩
    rcases List.mem_append.mp hmem with hmem | hmem
    · refine (List.mem_append.mp hmem).imp_right fun hmem => ?_
      obtain ⟨hx, rfl⟩ := mem_mark hmem
      exact .unknown (hgone x hx)
    · obtain ⟨hx, rfl⟩ := mem_mark hmem
      exact Or.inr (.lost ⟨_, hsink⟩)

/-- **What a calm step does to handlers and fates.** -/
structure Turned (s : State H P C) (e : Ev H P C) (s' : State H P C) : Prop where
  handlers : ∀ name h, s'.handlers name = some h → s.handlers name = some h ∨ e = .register name h
  stay : e ≠ .resetRegistry → ∀ name h, s.handlers name = some h → s'.handlers name = some h
  running : ∀ x h, s'.running = some (x, h) → s.running = some (x, h) ∨ s.handlers x.2.name = some h
  fates : ∀ x fate, (x, fate) ∈ s'.fates → (x, fate) ∈ s.fates ∨
    (∃ h, s.running = some (x, h) ∧ fate.handler = some h) ∨ Skipped s.handlers e.Noisy x fate

/-- The fate that the call whose handler ran gets is the only new one. -/
theorem ended_fate {x y : Item (TaskCall P)} {h : H} {fate fate' : Fate H} {noisy : Prop}
    (hrun : s.running = some (x, h)) (hfate : fate.handler = some h) (hmem : (y, fate') ∈ (s.record x fate).fates) :
    (y, fate') ∈ s.fates ∨ (∃ h, s.running = some (y, h) ∧ fate'.handler = some h) ∨
      Skipped s.handlers noisy y fate' := by
  refine (List.mem_append.mp hmem).imp_right fun hmem => ?_
  obtain ⟨rfl, rfl⟩ := Prod.mk.inj (List.mem_singleton.mp hmem)
  exact .inl ⟨h, hrun, hfate⟩

theorem Stepped.turned {e : Ev H P C} {res : State H P C × Out P C} (h : Stepped s e res) : Turned s e res.1 := by
  cases h with
  | @registered name func hnew =>
    refine ⟨fun name' h hh => ?_, fun _ name' h hh => ?_, fun _ _ => .inl, fun _ _ => .inl⟩
    · change Function.update s.handlers name (some func) name' = some h at hh
      by_cases heq : name' = name
      · subst heq
        rw [Function.update_self] at hh
        exact .inr (by rw [Option.some_inj.mp hh])
      · rw [Function.update_of_ne heq] at hh
        exact .inl hh
    · by_cases heq : name' = name
      · subst heq
        rw [hnew h hh]
        exact Function.update_self ..
      · exact (Function.update_of_ne heq ..).trans hh
  | reset => exact ⟨fun _ _ hh => (by cases hh), fun hne => absurd rfl hne, fun _ _ => .inl, fun _ _ => .inl⟩
  | flushing hw hf =>
    obtain ⟨hh, hrun, hfates⟩ := hf.spec
    exact ⟨fun _ _ => hh ▸ .inl, fun _ _ _ => hh ▸ id, fun x h hx => .inr (hrun x h hx),
      fun x fate hmem => (hfates x fate hmem).imp_right .inr⟩
  | @ended exc sink x h fate s' hrun hfate hf =>
    obtain ⟨hh, hnext, hfates⟩ := hf.spec
    refine ⟨fun _ _ => hh ▸ .inl, fun _ _ _ => hh ▸ id, fun y h' hy => .inr (hnext y h' hy), fun y fate' hmem => ?_⟩
    rcases hfates y fate' hmem with hmem | hskip
    · exact ended_fate hrun hfate hmem
    · exact .inr (.inr hskip)
  | @spoilt exc sink x h fate hrun hfate hsink =>
    refine ⟨fun _ _ => .inl, fun _ _ _ => id, ?_, fun y fate' hmem => ?_⟩
    · rintro y h' ⟨⟩
    · rcases List.mem_append.mp hmem with hmem | hmem
      · exact ended_fate hrun hfate hmem
      · obtain ⟨-, rfl⟩ := mem_mark hmem
        exact .inr (.inr (.lost ⟨_, hsink⟩))
  | _ => exact ⟨fun _ _ => .inl, fun _ _ _ => id, fun _ _ => .inl, fun _ _ => .inl⟩

/-- What the handlers are, and which of them ran, in a run of the events `es`. -/
structure Known (es : List (Ev H P C)) (s : State H P C) : Prop where
  handlers : ∀ name h, s.handlers name = some h → .register name h ∈ es
  running : ∀ x h, s.running = some (x, h) → .register x.2.name h ∈ es
  ran : ∀ x fate h, (x, fate) ∈ s.fates → fate.handler = some h → .register x.2.name h ∈ es
  lost : ∀ x, (x, .lost) ∈ s.fates → ∃ e ∈ es, e.Noisy

theorem Skipped.handler {handlers : String → Option H} {noisy : Prop} {x : Item (TaskCall P)} {fate : Fate H}
    (h : Skipped handlers noisy x fate) : fate.handler = none := by
  cases h <;> rfl

theorem Known.step {es : List (Ev H P C)} {e : Ev H P C} {s' : State H P C} (hs : Known es s) (ht : Turned s e s') :
    Known (es ++ [e]) s' where
  handlers name h hh := by
    rcases ht.handlers name h hh with hh | rfl
    · exact List.mem_append_left _ (hs.handlers name h hh)
    · simp
  running x h hx := by
    rcases ht.running x h hx with hx | hh
    · exact List.mem_append_left _ (hs.running x h hx)
    · exact List.mem_append_left _ (hs.handlers _ h hh)
  ran x fate h hmem hfate := by
    refine List.mem_append_left _ ?_
    rcases ht.fates x fate hmem with hmem | ⟨h', hrun, hfate'⟩ | hskip
    · exact hs.ran x fate h hmem hfate
    · rw [hfate] at hfate'
      obtain rfl := Option.some_inj.mp hfate'
      exact hs.running x h hrun
    · rw [hskip.handler] at hfate
      cases hfate
  lost x hmem := by
    rcases ht.fates x .lost hmem with hmem | ⟨h, -, hfate⟩ | hskip
    · obtain ⟨e', he', hn⟩ := hs.lost x hmem
      exact ⟨e', List.mem_append_left _ he', hn⟩
    · cases hfate
    · cases hskip with
      | lost hn => exact ⟨e, by simp, hn⟩

/-- What holds as long as nobody resets the registry: handlers stay. -/
structure Steady (accepted : List (Item (TaskCall P))) (s : State H P C) : Prop where
  accepted : ∀ x ∈ accepted, ∃ h, s.handlers x.2.name = some h
  running : ∀ x h, s.running = some (x, h) → s.handlers x.2.name = some h
  ran : ∀ x fate, (x, fate) ∈ s.fates → fate = .lost ∨ ∃ h, fate.handler = some h ∧ s.handlers x.2.name = some h

/-- `submit` looks the name up. -/
theorem Stepped.acceptedCall {e : Ev H P C} {res : State H P C × Out P C} (h : Stepped s e res)
    {x : Item (TaskCall P)} (hx : x ∈ (acceptedCall ⟨s, e, res.2, res.1⟩).toList) :
    ∃ h, s.handlers x.2.name = some h := by
  cases h with
  | @submitted name handler payload ctx sink hname =>
    generalize (FireAndForget.submit queueConfig s.core ⟨name, payload⟩ ctx).2 = out at hx
    cases out with
    | accepted =>
      obtain rfl := List.mem_singleton.mp hx
      exact ⟨handler, hname⟩
    | _ => cases hx
  | @idle _ out hout =>
    cases e with
    | submit name payload ctx sink =>
      cases out with
      | submitted o => exact absurd rfl (hout o)
      | _ => cases hx
    | _ => cases hx
  | worked c => cases e <;> cases hx
  | _ => cases hx

theorem Steady.step {accepted : List (Item (TaskCall P))} {e : Ev H P C} {res : State H P C × Out P C}
    (hs : Steady accepted s) (h : Stepped s e res) (he : e ≠ .resetRegistry)
    (hfates : ∀ p ∈ res.1.fates, p.1 ∈ accepted ++ (acceptedCall ⟨s, e, res.2, res.1⟩).toList) :
    Steady (accepted ++ (acceptedCall ⟨s, e, res.2, res.1⟩).toList) res.1 := by
  have ht := h.turned
  have hknown : ∀ x ∈ accepted ++ (acceptedCall ⟨s, e, res.2, res.1⟩).toList, ∃ h, s.handlers x.2.name = some h := by
    intro x hx
    rcases List.mem_append.mp hx with hx | hx
    · exact hs.accepted x hx
    · exact h.acceptedCall hx
  refine ⟨fun x hx => ?_, fun x h hx => ?_, fun x fate hmem => ?_⟩
  · obtain ⟨h, hh⟩ := hknown x hx
    exact ⟨h, ht.stay he _ h hh⟩
  · rcases ht.running x h hx with hx | hh
    · exact ht.stay he _ h (hs.running x h hx)
    · exact ht.stay he _ h hh
  · rcases ht.fates x fate hmem with hold | ⟨h, hrun, hfate⟩ | hskip
    · refine (hs.ran x fate hold).imp_right ?_
      rintro ⟨h, hfate, hh⟩
      exact ⟨h, hfate, ht.stay he _ h hh⟩
    · exact .inr ⟨h, hfate, ht.stay he _ h (hs.running x h hrun)⟩
    · cases hskip with
      | unknown hnone =>
        obtain ⟨h, hh⟩ := hknown x (hfates _ hmem)
        rw [hnone] at hh
        cases hh
      | lost hn => exact .inl rfl

/-! ### Runs -/

/-- The calls whose `submit` returned true, in the order of the calls. -/
def accepted (l : List (Mealy.Step (State H P C) (Ev H P C) (Out P C))) : List (Item (TaskCall P)) :=
  l.filterMap acceptedCall

/-- What is promised of the calls in a run of the events `es` with the history `l`. -/
structure Once (es : List (Ev H P C)) (l : List (Mealy.Step (State H P C) (Ev H P C) (Out P C)))
    (s : State H P C) : Prop where
  inOrder : accepted l = s.fates.map Prod.fst ++ s.started ++ s.core.worker.pending ++ s.core.queue.items
  once : ((accepted l).map Prod.fst).Nodup
  joined : s.core.queue.joined = true ↔ s.fates.map Prod.fst = accepted l
  known : Known es s
  steady : .resetRegistry ∉ es → Steady (accepted l) s

theorem Kept.once {accepted : List (Item (TaskCall P))} {l : FireAndForget.History (TaskCall P) C}
    (hs : Kept accepted s l) :
    accepted = s.fates.map Prod.fst ++ s.started ++ s.core.worker.pending ++ s.core.queue.items ∧
      (accepted.map Prod.fst).Nodup ∧
      (s.core.queue.joined = true ↔ s.fates.map Prod.fst = accepted) := by
  have hall : accepted = (FireAndForget.Ledger.of l).kept := by
    unfold FireAndForget.Ledger.kept
    rw [hs.core.newest rfl, hs.accepted]
    simp
  have heq := hs.core.kept
  rw [← hall, hs.handed] at heq
  refine ⟨heq, hall ▸ hs.core.kept_nodup, fun hj => ?_, fun hover => ?_⟩
  · obtain ⟨hitems, hhand⟩ := hs.core.hand_of_joined hj
    rw [FireAndForget.Worker.hand_eq, List.append_eq_nil_iff] at hhand
    have hstarted : s.started = [] := by
      have hpart := hs.part
      rw [hhand.2] at hpart
      exact List.eq_nil_of_suffix_nil hpart
    rw [heq, hitems, hhand.1, hstarted]
    simp
  · rw [← hover, List.append_assoc, List.append_assoc, List.self_eq_append_right, List.append_eq_nil_iff,
      List.append_eq_nil_iff] at heq
    obtain ⟨hstarted, hpending, hitems⟩ := heq
    have hflush : s.core.worker.inFlush = [] := by
      refine hs.idle ?_
      cases hrun : s.running with
      | none => rfl
      | some p => simp [State.started, hrun] at hstarted
    have hun := hs.core.unfinished
    rw [FireAndForget.Worker.hand_eq, hpending, hflush, hitems] at hun
    exact decide_eq_true hun

/-- What every calm step keeps. -/
structure Going (l : List (Mealy.Step (State H P C) (Ev H P C) (Out P C))) (s : State H P C) : Prop where
  kept : ∃ l', Kept (accepted l) s l'
  known : Known (l.map Mealy.Step.ev) s
  steady : .resetRegistry ∉ l.map Mealy.Step.ev → Steady (accepted l) s

theorem Going.initial [DecidableEq H] : Going [] (system H P C).init where
  kept := ⟨[], Kept.initial⟩
  known := ⟨fun _ _ h => (by cases h), fun _ _ h => (by cases h), fun _ _ _ h => (by cases h), fun _ h => (by cases h)⟩
  steady _ := ⟨fun _ h => (by cases h), fun _ _ h => (by cases h), fun _ _ h => (by cases h)⟩

theorem Going.step {l : List (Mealy.Step (State H P C) (Ev H P C) (Out P C))} (hs : Going l s) {e : Ev H P C}
    {res : State H P C × Out P C} (h : Stepped s e res) : Going (l ++ [⟨s, e, res.2, res.1⟩]) res.1 := by
  obtain ⟨l', hkept⟩ := hs.kept
  have hacc : accepted (l ++ [⟨s, e, res.2, res.1⟩]) =
      accepted l ++ (acceptedCall ⟨s, e, res.2, res.1⟩).toList := by
    rw [accepted, List.filterMap_append]
    refine congrArg (accepted l ++ ·) ?_
    cases hcall : acceptedCall ⟨s, e, res.2, res.1⟩ <;> simp [hcall]
  have hnext := hkept.step h
  rw [← hacc] at hnext
  refine ⟨hnext, ?_, fun hreset => ?_⟩
  · rw [List.map_append]
    exact hs.known.step h.turned
  · rw [List.map_append, List.mem_append, not_or] at hreset
    have hfates : ∀ p ∈ res.1.fates, p.1 ∈ accepted (l ++ [⟨s, e, res.2, res.1⟩]) := by
      obtain ⟨l'', hkept'⟩ := hnext
      intro p hp
      rw [hkept'.once.1, List.append_assoc, List.append_assoc]
      exact List.mem_append_left _ (List.mem_map_of_mem hp)
    rw [hacc] at hfates ⊢
    exact (hs.steady hreset.1).step h (fun heq => hreset.2 (by simp [heq])) hfates

/-- **Each task once**: while nothing ends the worker, the calls that `submit` accepted are over, begun or waiting, in
the order of their submission, and no call is there twice; `join` resolves when they are all over.  A handler that runs
was registered under the name of its call, and a batch is given up only where the metrics sink raises at the metric of
a call.  As long as nobody resets the registry, a call that is over went through the handler that the name has, or was
given up. -/
theorem tasks_once [DecidableEq H] {es : List (Ev H P C)} (hcalm : ∀ e ∈ es, e.Calm) :
    Once es ((system H P C).log (system H P C).init es) ((system H P C).exec (system H P C).init es) := by
  have hguard : (system H P C).Along (fun _ _ e => e.Calm) (system H P C).init es := by
    rintro p e q rfl
    exact hcalm e (by simp)
  have hgoing : Going ((system H P C).log (system H P C).init es) ((system H P C).exec (system H P C).init es) :=
    Mealy.Along.induct Going.initial (fun l s e hs he => hs.step (stepped s he)) hguard
  obtain ⟨l', hkept⟩ := hgoing.kept
  obtain ⟨horder, honce, hjoined⟩ := hkept.once
  have hknown := hgoing.known
  have hsteady := hgoing.steady
  rw [Mealy.log_map_ev] at hknown hsteady
  exact ⟨horder, honce, hjoined, hknown, hsteady⟩

/-- Two calls in one batch; the handler of the second vanishes while that of the first runs, and fails. -/
def vanishing (sink : Sink Unit) : List (Ev ℕ Unit Unit) :=
  [.register "mail" 7, .register "push" 8, .submit "mail" () () sink, .submit "push" () () sink, .get, .fill,
    .fillEnd sink, .resetRegistry, .handlerEnds (some ⟨.valueError, 0⟩) sink]

def silent : Sink Unit := fun _ => false

def broken : Sink Unit
  | .flushed => true
  | _ => false

theorem tasks_once_vanishing :
    Once (vanishing silent) ((system ℕ Unit Unit).log (system ℕ Unit Unit).init (vanishing silent))
      ((system ℕ Unit Unit).exec (system ℕ Unit Unit).init (vanishing silent)) ∧
    ((system ℕ Unit Unit).exec (system ℕ Unit Unit).init (vanishing silent)).fates =
      [((0, ⟨"mail", ()⟩), .failed 7 ⟨.valueError, 0⟩), ((1, ⟨"push", ()⟩), .unknown)] := by
  have hquiet : silent.Quiet := ⟨rfl, rfl, rfl, rfl⟩
  have hexc : isinstance ⟨.valueError, 0⟩ .exception = true := by decide
  exact ⟨tasks_once (by simp [vanishing, Ev.Calm, hquiet, hexc]), by decide⟩

/-- With a sink that raises where the worker counts the batch both calls are over, and `join` does not resolve. -/
example : ((system ℕ Unit Unit).exec (system ℕ Unit Unit).init (vanishing broken)).fates.length = 2 ∧
    ((system ℕ Unit Unit).exec (system ℕ Unit Unit).init (vanishing broken)).core.queue.joined = false := by decide

end ResilienceKit.Tasks

import Mathlib.Tactic.SplitIfs
import ResilienceKit.Exceptions
import ResilienceKit.Lib.AsyncQueue
import ResilienceKit.Lib.Mealy

/-!
# Dispatch.FireAndForget — the bounded queue and its batching worker

Submitters and the worker share one event loop; what the worker does between two awaits is one step, and so
is a `submit`.  An event carries the number of its `submit` call, so that equal events are told apart.
`Submitted` and `Stepped` say what a call of `submit` and what a step can do.
-/

namespace ResilienceKit

inductive OverflowPolicy
  | DROP_NEWEST | DROP_OLDEST
  deriving DecidableEq, Repr

namespace FireAndForget

/-- The arguments of the constructor that the logic reads. -/
structure Config where
  queueSize : ℤ := 10000
  batchMax : ℤ := 100
  overflow : OverflowPolicy := .DROP_NEWEST

/-- An event with the number of its `submit` call. -/
abbrev Item (T : Type) := ℕ × T

/-- Where the worker waits, or what it does: `getting` the first event of a batch, `filling` a batch,
`flushing` one. -/
inductive Phase (T : Type)
  | getting
  | filling (batch : List (Item T))
  | flushing (batch : List (Item T))

/-- The batch in the worker's hand. -/
def Phase.hand {T : Type} : Phase T → List (Item T)
  | .getting => []
  | .filling batch => batch
  | .flushing batch => batch

/-- `_worker`: not created, running in the context it was created with, or done. -/
inductive Worker (T C : Type)
  | absent
  | running (ctx : C) (phase : Phase T)
  | done

def Worker.hand {T C : Type} : Worker T C → List (Item T)
  | .absent => []
  | .running _ phase => phase.hand
  | .done => []

/-- How far `aclose` has come. -/
inductive Closing
  | no
  | draining
  | returned
  deriving DecidableEq, Repr

/-- The dispatcher; `submits` counts the calls of `submit` that did not raise, `flushed`, `flushFailed` and
`dropped` are the sums of the values emitted to these metrics. -/
structure Dispatcher (T C : Type) where
  queue : AsyncQueue (Item T)
  worker : Worker T C := .absent
  closed : Bool := false
  closing : Closing := .no
  submits : ℕ := 0
  flushed : ℕ := 0
  flushFailed : ℕ := 0
  dropped : ℕ := 0

inductive Ev (T C : Type)
  /-- `submit(event)` under the bindings `ctx`. -/
  | submit (event : T) (ctx : C)
  /-- The worker gets the first event of a batch, or one more, or stops filling. -/
  | get
  | fill
  | fillEnd
  /-- `flush` returns, or raises an `Exception`. -/
  | flushEnd (raised : Bool)
  /-- `aclose` begins, its `join` resolves, or its timeout strikes. -/
  | aclose
  | drained
  | timeout
  /-- The worker ends: stopped from outside, or by a metric of its own. -/
  | cancel

/-- `handed` is a call of `flush` with the bindings it observes, `finished` the end of one. -/
inductive Out (T C : Type)
  | accepted
  | refused
  | raised (e : PyExc)
  | handed (ctx : C) (batch : List (Item T))
  | finished (batch : List (Item T))
  | none

variable {T C : Type} (cfg : Config) (s : Dispatcher T C)

/-- `_ensure_started`: a worker that is created now runs in a copy of the submitter's context. -/
def ensureStarted (ctx : C) : Dispatcher T C :=
  match s.worker with
  | .running _ _ => s
  | _ => { s with worker := .running ctx .getting }

/-- The event goes into the queue. -/
def accept (queue : AsyncQueue (Item T)) : Dispatcher T C :=
  { s with queue, submits := s.submits + 1 }

/-- `_handle_overflow`. -/
def handleOverflow (item : Item T) : Dispatcher T C × Out T C :=
  let s := { s with dropped := s.dropped + 1 }
  match cfg.overflow with
  | .DROP_NEWEST => ({ s with submits := s.submits + 1 }, .refused)
  | .DROP_OLDEST =>
    match s.queue.getNowait with
    | none =>
      match s.queue.putNowait item with
      | some queue => (accept s queue, .accepted)
      | none => (s, .raised ⟨.queueFull, 0⟩)
    | some (_, queue) =>
      match queue.taskDone with
      | none => ({ s with queue }, .raised ⟨.valueError, 0⟩)
      | some queue =>
        match queue.putNowait item with
        | some queue => (accept s queue, .accepted)
        | none => ({ s with queue }, .raised ⟨.queueFull, 0⟩)

def submit (event : T) (ctx : C) : Dispatcher T C × Out T C :=
  if s.closed then (s, .raised ⟨.runtimeError, 0⟩)
  else
    let s := ensureStarted s ctx
    let item := (s.submits, event)
    match s.queue.putNowait item with
    | some queue => (accept s queue, .accepted)
    | none => handleOverflow cfg s item

/-- The end of `_flush_batch` and the `task_done` loop after it. -/
def flushEnd (ctx : C) (batch : List (Item T)) (raised : Bool) : Dispatcher T C :=
  let s := if raised then { s with flushFailed := s.flushFailed + batch.length }
    else { s with flushed := s.flushed + batch.length }
  match AsyncQueue.tasksDone batch.length s.queue with
  | some queue => { s with queue, worker := .running ctx .getting }
  | none => { s with queue := { s.queue with unfinished := 0 }, worker := .done }

/-- A step of the dispatcher; what cannot happen in its state is no step. -/
def step (s : Dispatcher T C) (e : Ev T C) : Dispatcher T C × Out T C :=
  match e with
  | .submit event ctx => submit cfg s event ctx
  | .get =>
    match s.worker, s.queue.getNowait with
    | .running ctx .getting, some (first, queue) =>
      ({ s with queue, worker := .running ctx (.filling [first]) }, .none)
    | _, _ => (s, .none)
  | .fill =>
    match s.worker, s.queue.getNowait with
    | .running ctx (.filling batch), some (event, queue) =>
      if (batch.length : ℤ) < cfg.batchMax then
        ({ s with queue, worker := .running ctx (.filling (batch ++ [event])) }, .none)
      else (s, .none)
    | _, _ => (s, .none)
  | .fillEnd =>
    match s.worker with
    | .running ctx (.filling batch) =>
      ({ s with worker := .running ctx (.flushing batch) }, .handed ctx batch)
    | _ => (s, .none)
  | .flushEnd raised =>
    match s.worker with
    | .running ctx (.flushing batch) => (flushEnd s ctx batch raised, .finished batch)
    | _ => (s, .none)
  | .aclose =>
    if s.closed then (s, .none)
    else
      match s.worker with
      | .absent => ({ s with closed := true, closing := .returned }, .none)
      | _ => ({ s with closed := true, closing := .draining }, .none)
  | .drained =>
    if s.closing = .draining ∧ s.queue.joined then
      ({ s with worker := .done, closing := .returned }, .none)
    else (s, .none)
  | .timeout =>
    if s.closing = .draining then
      ({ s with
          dropped := s.dropped + s.queue.items.length
          worker := .done
          closing := .returned }, .none)
    else (s, .none)
  | .cancel =>
    match s.worker with
    | .running _ _ => ({ s with worker := .done }, .none)
    | _ => (s, .none)

/-- Any submitters, any flushes, in any order. -/
def system (T C : Type) : Mealy (Dispatcher T C) (Ev T C) (Out T C) where
  init := { queue := .empty cfg.queueSize }
  step := step cfg

/-! ### What a call of `submit` can do -/

variable {cfg : Config} {s : Dispatcher T C}

theorem ensureStarted_hand (s : Dispatcher T C) (ctx : C) :
    (ensureStarted s ctx).worker.hand = s.worker.hand := by
  unfold ensureStarted
  rcases hw : s.worker with _ | ⟨ctx', phase⟩ | _
  · rfl
  · simp only [hw]
  · rfl

/-- Only the worker can be new. -/
theorem ensureStarted_eq (s : Dispatcher T C) (ctx : C) :
    ensureStarted s ctx = { s with worker := (ensureStarted s ctx).worker } := by
  unfold ensureStarted
  split <;> rfl

@[simp] theorem ensureStarted_queue (s : Dispatcher T C) (ctx : C) :
    (ensureStarted s ctx).queue = s.queue := by
  rw [ensureStarted_eq]

@[simp] theorem ensureStarted_submits (s : Dispatcher T C) (ctx : C) :
    (ensureStarted s ctx).submits = s.submits := by
  rw [ensureStarted_eq]

/-- The queue without its oldest event. -/
def displace (s : Dispatcher T C) (queue : AsyncQueue (Item T)) : Dispatcher T C :=
  { s with dropped := s.dropped + 1, queue := { queue with unfinished := queue.unfinished - 1 } }

@[simp] theorem displace_submits (s : Dispatcher T C) (queue : AsyncQueue (Item T)) :
    (displace s queue).submits = s.submits := rfl

/-- The call as a step: where it may end while the queue counts its items. -/
inductive Submitted (cfg : Config) (s : Dispatcher T C) (event : T) (ctx : C) :
    Dispatcher T C × Out T C → Prop
  | closed (hc : s.closed = true) : Submitted cfg s event ctx (s, .raised ⟨.runtimeError, 0⟩)
  | accepted {queue : AsyncQueue (Item T)} (hc : s.closed = false) (hroom : s.queue.full = false)
      (hput : s.queue.Put (s.submits, event) queue) :
      Submitted cfg s event ctx (accept (ensureStarted s ctx) queue, .accepted)
  | refused (hc : s.closed = false) (hfull : s.queue.full = true) (hp : cfg.overflow = .DROP_NEWEST) :
      Submitted cfg s event ctx ({ ensureStarted s ctx with
        dropped := s.dropped + 1
        submits := s.submits + 1 }, .refused)
  | displaced {old : Item T} {rest queue : AsyncQueue (Item T)} (hc : s.closed = false)
      (hfull : s.queue.full = true) (hp : cfg.overflow = .DROP_OLDEST) (hgot : s.queue.Got old rest)
      (hput : (displace (ensureStarted s ctx) rest).queue.Put (s.submits, event) queue) :
      Submitted cfg s event ctx (accept (displace (ensureStarted s ctx) rest) queue, .accepted)

/-- **What `submit` can do.** -/
theorem submitted (hun : s.queue.items.length ≤ s.queue.unfinished) (event : T) (ctx : C) :
    Submitted cfg s event ctx (submit cfg s event ctx) := by
  have hst := ensureStarted_eq s ctx
  cases hc : s.closed with
  | true =>
    rw [submit, if_pos hc]
    exact .closed hc
  | false =>
    have hqueue := ensureStarted_queue s ctx
    have hsubmits := ensureStarted_submits s ctx
    cases hfull : s.queue.full with
    | false =>
      obtain ⟨queue, hsome, hput⟩ := AsyncQueue.putNowait_of_not_full hfull (s.submits, event)
      have h : submit cfg s event ctx = (accept (ensureStarted s ctx) queue, .accepted) := by
        simp [submit, hc, hsome]
      rw [h]
      exact .accepted hc hfull hput
    | true =>
      have hnone := AsyncQueue.putNowait_of_full hfull (s.submits, event)
      cases hp : cfg.overflow with
      | DROP_NEWEST =>
        have h : submit cfg s event ctx = ({ ensureStarted s ctx with
            dropped := s.dropped + 1
            submits := s.submits + 1 }, .refused) := by
          simp only [submit, hc, hqueue, hsubmits, hnone, handleOverflow, hp]
          rw [hst]
          rfl
        rw [h]
        exact .refused hc hfull hp
      | DROP_OLDEST =>
        obtain ⟨old, rest, hget⟩ :=
          AsyncQueue.getNowait_of_ne_nil (AsyncQueue.items_ne_nil_of_full hfull)
        have hgot := AsyncQueue.got_of_getNowait hget
        have hpos : 0 < rest.unfinished := by
          rw [hgot.unfinished]
          rw [hgot.items, List.length_cons] at hun
          omega
        have hdone := AsyncQueue.taskDone_of_pos hpos
        have hroom : (displace (ensureStarted s ctx) rest).queue.full = false := hgot.not_full
        obtain ⟨queue, hsome, hput⟩ := AsyncQueue.putNowait_of_not_full hroom (s.submits, event)
        have h : submit cfg s event ctx =
            (accept (displace (ensureStarted s ctx) rest) queue, .accepted) := by
          simp only [displace] at hsome
          simp only [submit, hc, hqueue, hsubmits, hnone, handleOverflow, hp, hget, hdone, hsome]
          rw [hst]
          rfl
        rw [h]
        exact .displaced hc hfull hp hgot hput

/-- `submit` leaves `aclose` alone. -/
theorem Submitted.closing {event : T} {ctx : C} {res : Dispatcher T C × Out T C}
    (h : Submitted cfg s event ctx res) : res.1.closing = s.closing ∧ res.1.closed = s.closed := by
  have hst := ensureStarted_eq s ctx
  cases h with
  | closed hc => exact ⟨rfl, rfl⟩
  | accepted hc hroom hput =>
    rw [hst]
    exact ⟨rfl, rfl⟩
  | refused hc hfull hp =>
    rw [hst]
    exact ⟨rfl, rfl⟩
  | displaced hc hfull hp hgot hput =>
    rw [hst]
    exact ⟨rfl, rfl⟩

/-! ### What a step can do -/

/-- The end of a flush whose batch is still counted. -/
def flushDone (s : Dispatcher T C) (ctx : C) (batch : List (Item T)) (raised : Bool) : Dispatcher T C :=
  { s with
    queue := { s.queue with unfinished := s.queue.unfinished - batch.length }
    worker := .running ctx .getting
    flushed := s.flushed + if raised then 0 else batch.length
    flushFailed := s.flushFailed + if raised then batch.length else 0 }

theorem flushEnd_of_le {batch : List (Item T)} (h : batch.length ≤ s.queue.unfinished) (ctx : C)
    (raised : Bool) : flushEnd s ctx batch raised = flushDone s ctx batch raised := by
  have hdone := AsyncQueue.tasksDone_of_le h
  cases raised <;> simp [flushEnd, flushDone, hdone]

/-- A step: `idle` where the event cannot happen. -/
inductive Stepped (cfg : Config) (s : Dispatcher T C) : Ev T C → Dispatcher T C × Out T C → Prop
  | submit (event : T) (ctx : C) : Stepped cfg s (.submit event ctx) (submit cfg s event ctx)
  | idle {e : Ev T C} (h : ∀ event ctx, e ≠ .submit event ctx)
      (ht : e = .timeout → s.closing ≠ .draining) : Stepped cfg s e (s, .none)
  | got {ctx : C} {first : Item T} {queue : AsyncQueue (Item T)} (hw : s.worker = .running ctx .getting)
      (hgot : s.queue.Got first queue) :
      Stepped cfg s .get ({ s with queue, worker := .running ctx (.filling [first]) }, .none)
  | filled {ctx : C} {batch : List (Item T)} {event : Item T} {queue : AsyncQueue (Item T)}
      (hw : s.worker = .running ctx (.filling batch)) (hgot : s.queue.Got event queue)
      (hmax : (batch.length : ℤ) < cfg.batchMax) :
      Stepped cfg s .fill
        ({ s with queue, worker := .running ctx (.filling (batch ++ [event])) }, .none)
  | handed {ctx : C} {batch : List (Item T)} (hw : s.worker = .running ctx (.filling batch)) :
      Stepped cfg s .fillEnd
        ({ s with worker := .running ctx (.flushing batch) }, .handed ctx batch)
  | flushed {ctx : C} {batch : List (Item T)} (raised : Bool)
      (hw : s.worker = .running ctx (.flushing batch)) :
      Stepped cfg s (.flushEnd raised) (flushEnd s ctx batch raised, .finished batch)
  | unused (hc : s.closed = false) (hw : s.worker = .absent) :
      Stepped cfg s .aclose ({ s with closed := true, closing := .returned }, .none)
  | closing (hc : s.closed = false) (hw : s.worker ≠ .absent) :
      Stepped cfg s .aclose ({ s with closed := true, closing := .draining }, .none)
  | drained (hd : s.closing = .draining) (hj : s.queue.joined = true) :
      Stepped cfg s .drained ({ s with worker := .done, closing := .returned }, .none)
  | timedOut (hd : s.closing = .draining) :
      Stepped cfg s .timeout
        ({ s with
            dropped := s.dropped + s.queue.items.length
            worker := .done
            closing := .returned }, .none)
  | cancelled {ctx : C} {phase : Phase T} (hw : s.worker = .running ctx phase) :
      Stepped cfg s .cancel ({ s with worker := .done }, .none)

/-- **What a step can do.** -/
theorem stepped (cfg : Config) (s : Dispatcher T C) (e : Ev T C) : Stepped cfg s e (step cfg s e) := by
  cases e with
  | submit event ctx => exact .submit event ctx
  | get =>
    simp only [step]
    split
    · exact .got (by assumption) (AsyncQueue.got_of_getNowait (by assumption))
    · exact .idle (by simp) (by simp)
  | fill =>
    simp only [step]
    split
    · split_ifs with hmax
      · exact .filled (by assumption) (AsyncQueue.got_of_getNowait (by assumption)) hmax
      · exact .idle (by simp) (by simp)
    · exact .idle (by simp) (by simp)
  | fillEnd =>
    simp only [step]
    split
    · exact .handed (by assumption)
    · exact .idle (by simp) (by simp)
  | flushEnd raised =>
    simp only [step]
    split
    · exact .flushed raised (by assumption)
    · exact .idle (by simp) (by simp)
  | aclose =>
    simp only [step]
    split_ifs with hc
    · exact .idle (by simp) (by simp)
    · rw [Bool.not_eq_true] at hc
      split
      · exact .unused hc (by assumption)
      · exact .closing hc (by assumption)
  | drained =>
    simp only [step]
    split_ifs with h
    · exact .drained h.1 h.2
    · exact .idle (by simp) (by simp)
  | timeout =>
    simp only [step]
    split_ifs with h
    · exact .timedOut h
    · exact .idle (by simp) (fun _ => h)
  | cancel =>
    simp only [step]
    split
    · exact .cancelled (by assumption)
    · exact .idle (by simp) (by simp)

end FireAndForget

end ResilienceKit

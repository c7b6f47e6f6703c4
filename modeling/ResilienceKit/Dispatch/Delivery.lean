import Mathlib.Data.List.Nodup
import ResilienceKit.Dispatch.FireAndForget

/-!
# Dispatch.Delivery — what the queue and the worker keep to while nobody stops them

A history tells which events were accepted, displaced, refused, handed to `flush` and through with it: its
`Ledger`.  `Invariant` ties the queue, its counter and the worker's hand to the ledger.  It is kept by every
step but a timeout of `aclose` and a stop from outside.
-/

namespace ResilienceKit.FireAndForget

variable {T C : Type}

abbrev History (T C : Type) := List (Mealy.Step (Dispatcher T C) (Ev T C) (Out T C))

/-- Neither a timeout of `aclose` nor a stop from outside. -/
def Ev.Calm : Ev T C → Prop
  | .timeout => False
  | .cancel => False
  | _ => True

/-! ### What a step does to the events -/

section Items

variable (r : Mealy.Step (Dispatcher T C) (Ev T C) (Out T C))

/-- The event of a `submit` that returned true. -/
def acceptedItem : Option (Item T) :=
  match r.ev, r.out with
  | .submit event _, .accepted => some (r.pre.submits, event)
  | _, _ => none

/-- The event of a `submit` that returned false. -/
def refusedItem : Option (Item T) :=
  match r.ev, r.out with
  | .submit event _, .refused => some (r.pre.submits, event)
  | _, _ => none

/-- The oldest queued event, if the step put another into a full queue. -/
def displacedItem : Option (Item T) :=
  match r.out with
  | .accepted => if r.pre.queue.full then r.pre.queue.items.head? else none
  | _ => none

/-- The batch of a `flush` that was called. -/
def handedBatch : Option (List (Item T)) :=
  match r.out with
  | .handed _ batch => some batch
  | _ => none

/-- The batch of a `flush` that ended. -/
def finishedBatch : Option (List (Item T)) :=
  match r.out with
  | .finished batch => some batch
  | _ => none

end Items

/-- What became of the events. -/
structure Ledger (T : Type) where
  accepted : List (Item T) := []
  displaced : List (Item T) := []
  refused : List (Item T) := []
  handed : List (List (Item T)) := []
  finished : List (Item T) := []

namespace Ledger

/-- The ledger of a history. -/
def of (l : History T C) : Ledger T where
  accepted := l.filterMap acceptedItem
  displaced := l.filterMap displacedItem
  refused := l.filterMap refusedItem
  handed := l.filterMap handedBatch
  finished := (l.filterMap finishedBatch).flatten

variable (b : Ledger T)

/-- The accepted events that were not displaced, in the order of their submission. -/
def kept : List (Item T) := b.accepted.filter fun x => x.1 ∉ b.displaced.map Prod.fst

/-- The events whose `submit` did not raise. -/
def submitted : List (Item T) := b.accepted ++ b.refused

theorem of_concat (l : History T C) (r : Mealy.Step (Dispatcher T C) (Ev T C) (Out T C)) :
    of (l ++ [r]) =
      { accepted := (of l).accepted ++ (acceptedItem r).toList
        displaced := (of l).displaced ++ (displacedItem r).toList
        refused := (of l).refused ++ (refusedItem r).toList
        handed := (of l).handed ++ (handedBatch r).toList
        finished := (of l).finished ++ (finishedBatch r).getD [] } := by
  have hsingle : ∀ {β : Type} (f : Mealy.Step (Dispatcher T C) (Ev T C) (Out T C) → Option β),
      [r].filterMap f = (f r).toList := by
    intro β f
    cases hf : f r <;> simp [hf]
  have hflat : (finishedBatch r).toList.flatten = (finishedBatch r).getD [] := by
    cases finishedBatch r <;> simp
  simp only [of, List.filterMap_append, hsingle, List.flatten_append, hflat]

end Ledger

/-! ### The invariant -/

/-- The batch that is being filled. -/
def Worker.pending : Worker T C → List (Item T)
  | .running _ (.filling batch) => batch
  | _ => []

/-- The batch that is being flushed. -/
def Worker.inFlush : Worker T C → List (Item T)
  | .running _ (.flushing batch) => batch
  | _ => []

theorem Worker.hand_eq (w : Worker T C) : w.hand = w.pending ++ w.inFlush := by
  rcases w with _ | ⟨ctx, _ | batch | batch⟩ | _ <;>
    simp [Worker.hand, Phase.hand, Worker.pending, Worker.inFlush]

/-- A batch that `flush` may be handed. -/
def BatchOk (cfg : Config) (batch : List (Item T)) : Prop :=
  1 ≤ batch.length ∧ (batch.length : ℤ) ≤ max 1 cfg.batchMax

structure Invariant (cfg : Config) (b : Ledger T) (s : Dispatcher T C) : Prop where
  maxsize : s.queue.maxsize = cfg.queueSize
  unfinished : s.queue.unfinished = s.queue.items.length + s.worker.hand.length
  kept : b.kept = b.handed.flatten ++ s.worker.pending ++ s.queue.items
  handed : b.handed.flatten = b.finished ++ s.worker.inFlush
  ordered : b.accepted.Pairwise fun x y => x.1 < y.1
  numbered : ∀ x ∈ b.submitted, x.1 < s.submits
  parted : ∀ x ∈ b.accepted, ∀ y ∈ b.refused, x.1 ≠ y.1
  displaced : ∀ x ∈ b.displaced, x ∈ b.accepted
  batches : ∀ batch ∈ b.handed, BatchOk cfg batch
  filling : ∀ ctx batch, s.worker = .running ctx (.filling batch) → BatchOk cfg batch
  newest : cfg.overflow = .DROP_NEWEST → b.displaced = []
  oldest : cfg.overflow = .DROP_OLDEST → b.refused = []

namespace Invariant

variable {cfg : Config} {b : Ledger T} {s : Dispatcher T C}

theorem initial (cfg : Config) : Invariant cfg {} (system cfg T C).init where
  maxsize := rfl
  unfinished := rfl
  kept := rfl
  handed := rfl
  ordered := List.Pairwise.nil
  numbered := by simp [Ledger.submitted]
  parted := by simp
  displaced := by simp
  batches := by simp
  filling ctx batch h := by cases h
  newest _ := rfl
  oldest _ := rfl

/-- A worker with empty hands may become another. -/
theorem of_emptyHanded (hs : Invariant cfg b s) {w : Worker T C} (hold : s.worker.hand = [])
    (hnew : w.hand = []) (hfill : ∀ ctx batch, w ≠ .running ctx (.filling batch)) :
    Invariant cfg b { s with worker := w } := by
  have hparts : ∀ v : Worker T C, v.hand = [] → v.pending = [] ∧ v.inFlush = [] := by
    intro v hv
    rw [Worker.hand_eq] at hv
    exact List.append_eq_nil_iff.mp hv
  obtain ⟨hp, hf⟩ := hparts _ hold
  obtain ⟨hp', hf'⟩ := hparts _ hnew
  exact { hs with
    unfinished := by
      rw [hnew, ← hold]
      exact hs.unfinished
    kept := by
      rw [hp', ← hp]
      exact hs.kept
    handed := by
      rw [hf', ← hf]
      exact hs.handed
    filling := fun ctx batch h => absurd h (hfill ctx batch) }

theorem ensureStarted (hs : Invariant cfg b s) (ctx : C) : Invariant cfg b (ensureStarted s ctx) := by
  unfold FireAndForget.ensureStarted
  rcases hw : s.worker with _ | ⟨ctx', phase⟩ | _
  · exact hs.of_emptyHanded (by rw [hw]; rfl) rfl (by simp)
  · exact hs
  · exact hs.of_emptyHanded (by rw [hw]; rfl) rfl (by simp)

/-- There is room for the event. -/
theorem accept (hs : Invariant cfg b s) {event : T} {queue : AsyncQueue (Item T)}
    (hput : s.queue.Put (s.submits, event) queue) :
    Invariant cfg { b with accepted := b.accepted ++ [(s.submits, event)] } (accept s queue) where
  maxsize := hput.maxsize.trans hs.maxsize
  unfinished := by
    show queue.unfinished = queue.items.length + s.worker.hand.length
    rw [hput.unfinished, hput.items, hs.unfinished, List.length_append, List.length_singleton]
    omega
  kept := by
    have hnew : s.submits ∉ b.displaced.map Prod.fst := by
      intro hmem
      obtain ⟨x, hx, heq⟩ := List.mem_map.mp hmem
      have := hs.numbered x (List.mem_append_left _ (hs.displaced x hx))
      omega
    have hone : ([(s.submits, event)] : List (Item T)).filter
        (fun x => x.1 ∉ b.displaced.map Prod.fst) = [(s.submits, event)] := by
      simp [hnew]
    show (b.accepted ++ [(s.submits, event)]).filter (fun x => x.1 ∉ b.displaced.map Prod.fst) =
      b.handed.flatten ++ s.worker.pending ++ queue.items
    rw [List.filter_append, hone, hput.items, ← List.append_assoc, ← hs.kept]
    rfl
  handed := hs.handed
  ordered := by
    refine List.pairwise_append.mpr ⟨hs.ordered, List.pairwise_singleton _ _, fun x hx y hy => ?_⟩
    obtain rfl := List.mem_singleton.mp hy
    exact hs.numbered x (List.mem_append_left _ hx)
  numbered := by
    intro x hx
    show x.1 < s.submits + 1
    rcases List.mem_append.mp hx with hx | hx
    · rcases List.mem_append.mp hx with hx | hx
      · exact Nat.lt_succ_of_lt (hs.numbered x (List.mem_append_left _ hx))
      · rw [List.mem_singleton.mp hx]
        exact Nat.lt_succ_self _
    · exact Nat.lt_succ_of_lt (hs.numbered x (List.mem_append_right _ hx))
  parted := by
    intro x hx y hy
    rcases List.mem_append.mp hx with hx | hx
    · exact hs.parted x hx y hy
    · have := hs.numbered y (List.mem_append_right _ hy)
      rw [List.mem_singleton.mp hx]
      omega
  displaced x hx := List.mem_append_left _ (hs.displaced x hx)
  batches := hs.batches
  filling := hs.filling
  newest := hs.newest
  oldest := hs.oldest

/-- The event is refused. -/
theorem refuse (hs : Invariant cfg b s) (hp : cfg.overflow = .DROP_NEWEST) (event : T) (n : ℕ) :
    Invariant cfg { b with refused := b.refused ++ [(s.submits, event)] }
      { s with dropped := n, submits := s.submits + 1 } :=
  { hs with
    numbered := by
      intro x hx
      show x.1 < s.submits + 1
      rw [Ledger.submitted, ← List.append_assoc] at hx
      rcases List.mem_append.mp hx with hx | hx
      · exact Nat.lt_succ_of_lt (hs.numbered x hx)
      · rw [List.mem_singleton.mp hx]
        exact Nat.lt_succ_self _
    parted := by
      intro x hx y hy
      rcases List.mem_append.mp hy with hy | hy
      · exact hs.parted x hx y hy
      · have := hs.numbered x (List.mem_append_left _ hx)
        rw [List.mem_singleton.mp hy]
        omega
    oldest := by
      intro h
      rw [hp] at h
      cases h }

end Invariant

/-- An item in the middle of an ordered list is the only one with its number. -/
theorem filter_ne_of_ordered {l₁ l₂ : List (Item T)} {x : Item T}
    (ho : (l₁ ++ x :: l₂).Pairwise fun x y => x.1 < y.1) :
    (l₁ ++ x :: l₂).filter (fun y => y.1 ≠ x.1) = l₁ ++ l₂ := by
  obtain ⟨-, hx, hlt⟩ := List.pairwise_append.mp ho
  have h₁ : l₁.filter (fun y => y.1 ≠ x.1) = l₁ := by
    refine List.filter_eq_self.mpr fun y hy => ?_
    have := hlt y hy x (by simp)
    simp
    omega
  have h₂ : l₂.filter (fun y => y.1 ≠ x.1) = l₂ := by
    refine List.filter_eq_self.mpr fun y hy => ?_
    have := (List.pairwise_cons.mp hx).1 y hy
    simp
    omega
  rw [List.filter_append, h₁, List.filter_cons_of_neg (by simp), h₂]

namespace Invariant

variable {cfg : Config} {b : Ledger T} {s : Dispatcher T C}

theorem kept_ordered (hs : Invariant cfg b s) : b.kept.Pairwise fun x y => x.1 < y.1 :=
  hs.ordered.sublist List.filter_sublist

/-- The oldest queued event makes room. -/
theorem displace (hs : Invariant cfg b s) (hp : cfg.overflow = .DROP_OLDEST) {old : Item T}
    {rest : AsyncQueue (Item T)} (hgot : s.queue.Got old rest) :
    Invariant cfg { b with displaced := b.displaced ++ [old] } (displace s rest) := by
  have hkept := hs.kept
  rw [hgot.items] at hkept
  have hmem : old ∈ b.accepted := by
    have : old ∈ b.kept := by
      rw [hkept]
      simp
    exact List.mem_of_mem_filter this
  exact { hs with
    maxsize := hgot.maxsize.trans hs.maxsize
    unfinished := by
      have := hs.unfinished
      rw [hgot.items, List.length_cons] at this
      show rest.unfinished - 1 = rest.items.length + s.worker.hand.length
      rw [hgot.unfinished]
      omega
    kept := by
      have hsplit : b.accepted.filter (fun x => x.1 ∉ (b.displaced ++ [old]).map Prod.fst) =
          b.kept.filter fun x => x.1 ≠ old.1 := by
        unfold Ledger.kept
        rw [List.filter_filter]
        refine List.filter_congr fun x _ => Bool.eq_iff_iff.mpr ?_
        rw [decide_eq_true_iff, Bool.and_eq_true, decide_eq_true_iff, decide_eq_true_iff, List.map_append,
          List.mem_append, not_or, and_comm]
        simp
      have hordered := hs.kept_ordered
      refine hsplit.trans ?_
      rw [hkept] at hordered ⊢
      exact filter_ne_of_ordered hordered
    displaced := by
      intro x hx
      rcases List.mem_append.mp hx with hx | hx
      · exact hs.displaced x hx
      · rw [List.mem_singleton.mp hx]
        exact hmem
    newest := by
      intro h
      rw [hp] at h
      cases h }

/-! ### Steps -/

/-- What the invariant says of the worker's batches. -/
theorem batch (hs : Invariant cfg b s) {w : Worker T C} (hw : s.worker = w) :
    s.queue.unfinished = s.queue.items.length + w.hand.length ∧
      b.kept = b.handed.flatten ++ w.pending ++ s.queue.items ∧
      b.handed.flatten = b.finished ++ w.inFlush := by
  subst hw
  exact ⟨hs.unfinished, hs.kept, hs.handed⟩

/-- The worker takes the event that it waits for. -/
theorem got (hs : Invariant cfg b s) {ctx : C} {first : Item T} {queue : AsyncQueue (Item T)}
    (hw : s.worker = .running ctx .getting) (hgot : s.queue.Got first queue) :
    Invariant cfg b { s with queue, worker := .running ctx (.filling [first]) } := by
  obtain ⟨hun, hkept, hhanded⟩ := hs.batch hw
  rw [hgot.items] at hun hkept
  exact { hs with
    maxsize := hgot.maxsize.trans hs.maxsize
    unfinished := by
      show queue.unfinished = queue.items.length + 1
      rw [hgot.unfinished, hun]
      rfl
    kept := by
      show b.kept = b.handed.flatten ++ [first] ++ queue.items
      rw [hkept]
      simp [Worker.pending]
    handed := hhanded
    filling := by
      rintro ctx' batch ⟨⟩
      exact ⟨le_refl 1, le_max_left _ _⟩ }

/-- The worker takes one more event. -/
theorem filled (hs : Invariant cfg b s) {ctx : C} {batch : List (Item T)} {event : Item T}
    {queue : AsyncQueue (Item T)} (hw : s.worker = .running ctx (.filling batch))
    (hgot : s.queue.Got event queue) (hmax : (batch.length : ℤ) < cfg.batchMax) :
    Invariant cfg b { s with queue, worker := .running ctx (.filling (batch ++ [event])) } := by
  obtain ⟨hun, hkept, hhanded⟩ := hs.batch hw
  rw [hgot.items] at hun hkept
  have hlength : (batch ++ [event]).length = batch.length + 1 := by simp
  exact { hs with
    maxsize := hgot.maxsize.trans hs.maxsize
    unfinished := by
      show queue.unfinished = queue.items.length + (batch ++ [event]).length
      rw [hgot.unfinished, hun, hlength]
      show queue.items.length + 1 + batch.length = _
      omega
    kept := by
      show b.kept = b.handed.flatten ++ (batch ++ [event]) ++ queue.items
      rw [hkept]
      simp [Worker.pending]
    handed := hhanded
    filling := by
      rintro ctx' batch' ⟨⟩
      rw [BatchOk, hlength]
      exact ⟨Nat.le_add_left 1 _, by omega⟩ }

/-- The batch is handed to `flush`. -/
theorem handing (hs : Invariant cfg b s) {ctx : C} {batch : List (Item T)}
    (hw : s.worker = .running ctx (.filling batch)) :
    Invariant cfg { b with handed := b.handed ++ [batch] }
      { s with worker := .running ctx (.flushing batch) } := by
  obtain ⟨hun, hkept, hhanded⟩ := hs.batch hw
  exact { hs with
    unfinished := hun
    kept := by
      show b.kept = (b.handed ++ [batch]).flatten ++ [] ++ s.queue.items
      rw [hkept]
      simp [Worker.pending]
    handed := by
      show (b.handed ++ [batch]).flatten = b.finished ++ batch
      rw [List.flatten_append, hhanded]
      simp [Worker.inFlush]
    batches := by
      intro batch' hb
      rcases List.mem_append.mp hb with hb | hb
      · exact hs.batches batch' hb
      · rw [List.mem_singleton.mp hb]
        exact hs.filling ctx batch hw
    filling := by
      rintro ctx' batch' ⟨⟩ }

/-- The batch in a flush is still counted. -/
theorem flushEnd_eq (hs : Invariant cfg b s) {ctx : C} {batch : List (Item T)} (raised : Bool)
    (hw : s.worker = .running ctx (.flushing batch)) :
    flushEnd s ctx batch raised = flushDone s ctx batch raised := by
  have hun : s.queue.unfinished = s.queue.items.length + batch.length := (hs.batch hw).1
  exact flushEnd_of_le (by omega) ctx raised

/-- The flush ended, and its events are done. -/
theorem flushed (hs : Invariant cfg b s) {ctx : C} {batch : List (Item T)} (raised : Bool)
    (hw : s.worker = .running ctx (.flushing batch)) :
    Invariant cfg { b with finished := b.finished ++ batch } (flushDone s ctx batch raised) := by
  obtain ⟨hun, hkept, hhanded⟩ := hs.batch hw
  exact { hs with
    unfinished := by
      show s.queue.unfinished - batch.length = s.queue.items.length + 0
      rw [hun]
      show s.queue.items.length + batch.length - batch.length = _
      omega
    kept := hkept
    handed := by
      show b.handed.flatten = b.finished ++ batch ++ []
      rw [hhanded, List.append_nil]
      rfl
    filling := by
      rintro ctx' batch' ⟨⟩ }

theorem closing (hs : Invariant cfg b s) (closed : Bool) (closing : Closing) :
    Invariant cfg b { s with closed, closing } :=
  { hs with }

/-- The worker has nothing in its hand when `join` resolves. -/
theorem hand_of_joined (hs : Invariant cfg b s) (hj : s.queue.joined = true) :
    s.queue.items = [] ∧ s.worker.hand = [] := by
  have hzero : s.queue.unfinished = 0 := of_decide_eq_true hj
  rw [hs.unfinished] at hzero
  constructor
  · exact List.eq_nil_of_length_eq_zero (by omega)
  · exact List.eq_nil_of_length_eq_zero (by omega)

attribute [local simp] acceptedItem displacedItem refusedItem handedBatch finishedBatch

theorem of_submit {l : History T C} (hs : Invariant cfg (Ledger.of l) s) (event : T) (ctx : C)
    {res : Dispatcher T C × Out T C} (h : Submitted cfg s event ctx res) :
    Invariant cfg (Ledger.of (l ++ [⟨s, .submit event ctx, res.2, res.1⟩])) res.1 := by
  have hstart := hs.ensureStarted ctx
  rw [Ledger.of_concat]
  cases h with
  | closed hc => simpa using hs
  | accepted hc hroom hput =>
    rw [← ensureStarted_submits s ctx, ← ensureStarted_queue s ctx] at hput
    simpa [hroom] using hstart.accept hput
  | refused hc hfull hp => simpa using hstart.refuse hp event (s.dropped + 1)
  | displaced hc hfull hp hgot hput =>
    have hitems := hgot.items
    rw [← ensureStarted_submits s ctx] at hput
    rw [← ensureStarted_queue s ctx] at hgot
    simpa [hfull, hitems] using (hstart.displace hp hgot).accept hput

/-- **Every calm step keeps the invariant.** -/
theorem step {l : History T C} (hs : Invariant cfg (Ledger.of l) s) {e : Ev T C} (hcalm : e.Calm)
    {res : Dispatcher T C × Out T C} (h : Stepped cfg s e res) :
    Invariant cfg (Ledger.of (l ++ [⟨s, e, res.2, res.1⟩])) res.1 := by
  rw [Ledger.of_concat]
  cases h with
  | submit event ctx =>
    have hun : s.queue.items.length ≤ s.queue.unfinished := by
      rw [hs.unfinished]
      exact Nat.le_add_right _ _
    rw [← Ledger.of_concat]
    exact hs.of_submit event ctx (submitted hun event ctx)
  | idle h ht => simpa using hs
  | got hw hgot => simpa using hs.got hw hgot
  | filled hw hgot hmax => simpa using hs.filled hw hgot hmax
  | handed hw => simpa using hs.handing hw
  | flushed raised hw =>
    rw [hs.flushEnd_eq raised hw]
    simpa using hs.flushed raised hw
  | unused hc hw => simpa using hs.closing true .returned
  | closing hc hw => simpa using hs.closing true .draining
  | drained hd hj =>
    have hdone := hs.of_emptyHanded (w := .done) (hs.hand_of_joined hj).2 rfl (by simp)
    simpa using hdone.closing s.closed .returned
  | timedOut hd => exact absurd hcalm not_false
  | cancelled hw => exact absurd hcalm not_false

end Invariant

/-! ### Runs -/

/-- **Every calm run keeps the invariant.** -/
theorem Invariant.run (cfg : Config) {es : List (Ev T C)} (hcalm : ∀ e ∈ es, e.Calm) :
    Invariant cfg (Ledger.of ((system cfg T C).log (system cfg T C).init es))
      ((system cfg T C).exec (system cfg T C).init es) := by
  have hguard : (system cfg T C).Along (fun _ _ e => e.Calm) (system cfg T C).init es := by
    rintro p e q rfl
    exact hcalm e (by simp)
  refine Mealy.Along.induct (P := fun l s => Invariant cfg (Ledger.of l) s) (Invariant.initial cfg) ?_ hguard
  intro l s e hs he
  exact hs.step he (stepped cfg s e)

namespace Invariant

variable {cfg : Config} {b : Ledger T} {s : Dispatcher T C}

theorem kept_nodup (hs : Invariant cfg b s) : (b.kept.map Prod.fst).Nodup := by
  have hlt : (b.kept.map Prod.fst).Pairwise (· < ·) := List.pairwise_map.mpr hs.kept_ordered
  exact hlt.imp Nat.ne_of_lt

/-- The number of an accepted event tells which event it is. -/
theorem eq_of_number (hs : Invariant cfg b s) {x y : Item T} (hx : x ∈ b.accepted) (hy : y ∈ b.accepted)
    (h : x.1 = y.1) : x = y := by
  have hlt : (b.accepted.map Prod.fst).Pairwise (· < ·) := List.pairwise_map.mpr hs.ordered
  exact List.inj_on_of_nodup_map (hlt.imp Nat.ne_of_lt) hx hy h

theorem mem_kept (hs : Invariant cfg b s) {x : Item T} :
    x ∈ b.kept ↔ x ∈ b.accepted ∧ x ∉ b.displaced := by
  unfold Ledger.kept
  rw [List.mem_filter, decide_eq_true_iff]
  refine and_congr_right fun hx => not_congr ⟨fun h => ?_, List.mem_map_of_mem⟩
  obtain ⟨y, hy, heq⟩ := List.mem_map.mp h
  rwa [hs.eq_of_number hx (hs.displaced y hy) heq.symm]

/-- All that was kept: through with `flush`, in the worker's hand, or queued. -/
theorem kept_eq (hs : Invariant cfg b s) :
    b.kept = b.finished ++ (s.worker.inFlush ++ s.worker.pending ++ s.queue.items) := by
  rw [hs.kept, hs.handed]
  simp

/-- `join` resolves when no accepted event is left. -/
theorem joined_iff (hs : Invariant cfg b s) :
    s.queue.joined = true ↔ ∀ x ∈ b.accepted, x ∈ b.finished ∨ x ∈ b.displaced := by
  constructor
  · intro hj x hx
    obtain ⟨hitems, hhand⟩ := hs.hand_of_joined hj
    rw [Worker.hand_eq, List.append_eq_nil_iff] at hhand
    have hall := hs.kept_eq
    rw [hitems, hhand.1, hhand.2] at hall
    by_cases hd : x ∈ b.displaced
    · exact Or.inr hd
    · have hk := hs.mem_kept.mpr ⟨hx, hd⟩
      rw [hall] at hk
      simpa using Or.inl hk
  · intro hall
    have hnodup := List.Nodup.of_map Prod.fst hs.kept_nodup
    rw [hs.kept_eq] at hnodup
    have hnone : s.worker.inFlush ++ s.worker.pending ++ s.queue.items = [] := by
      refine List.eq_nil_iff_forall_not_mem.mpr fun x hx => ?_
      have hk : x ∈ b.kept := by
        rw [hs.kept_eq]
        exact List.mem_append_right _ hx
      obtain ⟨ha, hd⟩ := hs.mem_kept.mp hk
      rcases hall x ha with hf | hf
      · exact (List.nodup_append.mp hnodup).2.2 x hf x hx rfl
      · exact hd hf
    rw [List.append_eq_nil_iff, List.append_eq_nil_iff] at hnone
    obtain ⟨⟨hflush, hpending⟩, hitems⟩ := hnone
    have hun := hs.unfinished
    rw [Worker.hand_eq, hflush, hpending, hitems] at hun
    exact decide_eq_true hun

theorem submitted (hs : Invariant cfg b s) (event : T) (ctx : C) :
    Submitted cfg s event ctx (submit cfg s event ctx) := by
  refine FireAndForget.submitted ?_ event ctx
  rw [hs.unfinished]
  exact Nat.le_add_right _ _

/-- `task_done` is not called once too often after a flush. -/
theorem tasksDone_isSome (hs : Invariant cfg b s) {ctx : C} {batch : List (Item T)}
    (hw : s.worker = .running ctx (.flushing batch)) :
    (AsyncQueue.tasksDone batch.length s.queue).isSome := by
  have hun : s.queue.unfinished = s.queue.items.length + batch.length := (hs.batch hw).1
  have hle : batch.length ≤ s.queue.unfinished := by omega
  rw [AsyncQueue.tasksDone_of_le hle]
  rfl

/-- `submit` raises only after `aclose`. -/
theorem closed_of_raised (hs : Invariant cfg b s) {event : T} {ctx : C} {e : PyExc}
    (he : (submit cfg s event ctx).2 = .raised e) : s.closed = true ∧ e = ⟨.runtimeError, 0⟩ := by
  have h := hs.submitted event ctx
  generalize submit cfg s event ctx = res at h he
  cases h with
  | closed hc =>
    cases he
    exact ⟨hc, rfl⟩
  | accepted hc hroom hput => cases he
  | refused hc hfull hp => cases he
  | displaced hc hfull hp hgot hput => cases he

/-- `DROP_OLDEST` accepts every event. -/
theorem keeps_new (hs : Invariant cfg b s) (hp : cfg.overflow = .DROP_OLDEST) (hopen : s.closed = false)
    (event : T) (ctx : C) : (submit cfg s event ctx).2 = .accepted ∧
      ∃ front, (submit cfg s event ctx).1.queue.items = front ++ [(s.submits, event)] := by
  have h := hs.submitted event ctx
  generalize submit cfg s event ctx = res at h
  cases h with
  | closed hc =>
    rw [hopen] at hc
    cases hc
  | accepted hc hroom hput => exact ⟨rfl, _, hput.items⟩
  | refused hc hfull hp' =>
    rw [hp] at hp'
    cases hp'
  | displaced hc hfull hp' hgot hput => exact ⟨rfl, _, hput.items⟩

theorem not_kept_iff_refused (hs : Invariant cfg b s) (hp : cfg.overflow = .DROP_NEWEST) {x : Item T}
    (hx : x ∈ b.submitted) : x ∉ b.kept ↔ x ∈ b.refused := by
  rw [hs.mem_kept, hs.newest hp]
  rcases List.mem_append.mp hx with ha | hr
  · refine iff_of_false ?_ fun hr => hs.parted x ha x hr rfl
    rw [not_not]
    exact ⟨ha, List.not_mem_nil⟩
  · refine iff_of_true ?_ hr
    rintro ⟨ha, -⟩
    exact hs.parted x ha x hr rfl

theorem not_kept_iff_displaced (hs : Invariant cfg b s) (hp : cfg.overflow = .DROP_OLDEST) {x : Item T}
    (hx : x ∈ b.submitted) : x ∉ b.kept ↔ x ∈ b.displaced := by
  have ha : x ∈ b.accepted := by
    rw [Ledger.submitted, hs.oldest hp, List.append_nil] at hx
    exact hx
  rw [hs.mem_kept, and_iff_right ha, not_not]

end Invariant

/-- The events that are not lost: handed to `flush`, in a batch that is being filled, or queued. -/
def held (b : Ledger T) (s : Dispatcher T C) : List (Item T) :=
  b.handed.flatten ++ s.worker.pending ++ s.queue.items

/-- What is promised of the events while nobody stops the worker. -/
structure Delivered (cfg : Config) (b : Ledger T) (s : Dispatcher T C) : Prop where
  unfinished : s.queue.unfinished = s.queue.items.length + s.worker.hand.length
  taskDone : ∀ ctx batch, s.worker = .running ctx (.flushing batch) →
    (AsyncQueue.tasksDone batch.length s.queue).isSome
  raised : ∀ event ctx e, (submit cfg s event ctx).2 = .raised e →
    s.closed = true ∧ e = ⟨.runtimeError, 0⟩
  joined : s.queue.joined = true ↔ ∀ x ∈ b.accepted, x ∈ b.finished ∨ x ∈ b.displaced
  inOrder : b.handed.flatten <+: b.kept
  once : (b.handed.flatten.map Prod.fst).Nodup
  batches : ∀ batch ∈ b.handed, BatchOk cfg batch
  bounded : (s.queue.items.length : ℤ) ≤ cfg.queueSize
  newest : cfg.overflow = .DROP_NEWEST → ∀ x ∈ b.submitted, x ∉ held b s ↔ x ∈ b.refused
  oldest : cfg.overflow = .DROP_OLDEST → ∀ x ∈ b.submitted, x ∉ held b s ↔ x ∈ b.displaced
  keeps : cfg.overflow = .DROP_OLDEST → s.closed = false → ∀ event ctx,
    (submit cfg s event ctx).2 = .accepted ∧
      ∃ front, (submit cfg s event ctx).1.queue.items = front ++ [(s.submits, event)]

/-- **Delivery**, in every state that is reached while `aclose` has not timed out and nobody has stopped
the worker. -/
theorem delivery {cfg : Config} (hsize : 1 ≤ cfg.queueSize) {es : List (Ev T C)}
    (hcalm : ∀ e ∈ es, e.Calm) :
    Delivered cfg (Ledger.of ((system cfg T C).log (system cfg T C).init es))
      ((system cfg T C).exec (system cfg T C).init es) := by
  have hs := Invariant.run cfg hcalm
  set b := Ledger.of ((system cfg T C).log (system cfg T C).init es)
  set s := (system cfg T C).exec (system cfg T C).init es
  have hheld : held b s = b.kept := hs.kept.symm
  have hpre : b.handed.flatten <+: b.kept := by
    rw [hs.kept, List.append_assoc]
    exact List.prefix_append _ _
  exact {
    unfinished := hs.unfinished
    taskDone := fun _ _ => hs.tasksDone_isSome
    raised := fun _ _ _ => hs.closed_of_raised
    joined := hs.joined_iff
    inOrder := hpre
    once := hs.kept_nodup.sublist (hpre.sublist.map Prod.fst)
    batches := hs.batches
    bounded := by
      have := s.queue.bounded
      rw [hs.maxsize] at this
      exact this (by omega)
    newest := by
      rw [hheld]
      exact fun hp x hx => hs.not_kept_iff_refused hp hx
    oldest := by
      rw [hheld]
      exact fun hp x hx => hs.not_kept_iff_displaced hp hx
    keeps := hs.keeps_new }

/-- Two events for a queue of one: the older one is displaced, the newer one flushed. -/
def crowded : List (Ev ℕ Unit) :=
  [.submit 7 (), .submit 8 (), .get, .fillEnd, .flushEnd true, .aclose, .drained]

theorem delivery_crowded :
    Delivered { queueSize := 1, overflow := .DROP_OLDEST }
      (Ledger.of ((system { queueSize := 1, overflow := .DROP_OLDEST } ℕ Unit).log
        (system { queueSize := 1, overflow := .DROP_OLDEST } ℕ Unit).init crowded))
      ((system { queueSize := 1, overflow := .DROP_OLDEST } ℕ Unit).exec
        (system { queueSize := 1, overflow := .DROP_OLDEST } ℕ Unit).init crowded) ∧
    (Ledger.of ((system { queueSize := 1, overflow := .DROP_OLDEST } ℕ Unit).log
      (system { queueSize := 1, overflow := .DROP_OLDEST } ℕ Unit).init crowded)).displaced = [(0, 7)] :=
  ⟨delivery (by decide) (by simp [crowded, Ev.Calm]), by decide⟩

end ResilienceKit.FireAndForget

import Mathlib.Data.List.Basic
import Mathlib.Data.List.Induction
import Mathlib.Order.Basic

/-!
# Mealy machines — runs, histories, invariants, simulations

A `Mealy σ ε ω` reads events `ε`, moves its state `σ` and answers each event with an output `ω`.
Every list of events is a run.  `M.log s es` is the history of the run from `s`, one `Step` for each
event, and `M.Along G s es` says that every step of the run meets the guard `G`, which may look at
the history so far.

Rules: `Along.induct` (an invariant that may mention the history), `outs_eq_of_sim` (lockstep
simulation of two machines), `exec_map` (naturality), `outs_filter_of_erase` (events that an observer
does not see can be taken out of a run) and `answers_eq_of_inserted` (such events can be put into a
run).  `Clocked` runs carry nondecreasing time stamps.
-/

/-- A deterministic machine that answers every event. -/
structure Mealy (σ ε ω : Type*) where
  init : σ
  step : σ → ε → σ × ω

namespace Mealy

/-- One step of a run as an observer records it. -/
structure Step (σ ε ω : Type*) where
  pre : σ
  ev : ε
  out : ω
  post : σ

variable {σ ε ω τ : Type*} (M : Mealy σ ε ω)

def next (s : σ) (e : ε) : σ := (M.step s e).1

def out (s : σ) (e : ε) : ω := (M.step s e).2

def record (s : σ) (e : ε) : Step σ ε ω := ⟨s, e, M.out s e, M.next s e⟩

/-- The state after the events `es`. -/
def exec (s : σ) (es : List ε) : σ := es.foldl M.next s

/-- The history of the run, oldest step first. -/
def log : σ → List ε → List (Step σ ε ω)
  | _, [] => []
  | s, e :: es => M.record s e :: log (M.next s e) es

/-- The answers of the run. -/
def outs (s : σ) (es : List ε) : List ω := (M.log s es).map Step.out

@[simp] theorem record_pre (s : σ) (e : ε) : (M.record s e).pre = s := rfl
@[simp] theorem record_ev (s : σ) (e : ε) : (M.record s e).ev = e := rfl
@[simp] theorem record_out (s : σ) (e : ε) : (M.record s e).out = M.out s e := rfl
@[simp] theorem record_post (s : σ) (e : ε) : (M.record s e).post = M.next s e := rfl

@[simp] theorem exec_nil (s : σ) : M.exec s [] = s := rfl
@[simp] theorem exec_cons (s : σ) (e : ε) (es : List ε) :
    M.exec s (e :: es) = M.exec (M.next s e) es := rfl
@[simp] theorem log_nil (s : σ) : M.log s [] = [] := rfl
@[simp] theorem log_cons (s : σ) (e : ε) (es : List ε) :
    M.log s (e :: es) = M.record s e :: M.log (M.next s e) es := rfl
@[simp] theorem outs_nil (s : σ) : M.outs s [] = [] := rfl
@[simp] theorem outs_cons (s : σ) (e : ε) (es : List ε) :
    M.outs s (e :: es) = M.out s e :: M.outs (M.next s e) es := rfl

theorem exec_append (s : σ) (es fs : List ε) :
    M.exec s (es ++ fs) = M.exec (M.exec s es) fs := List.foldl_append

theorem exec_concat (s : σ) (es : List ε) (e : ε) :
    M.exec s (es ++ [e]) = M.next (M.exec s es) e := by
  rw [exec_append, exec_cons, exec_nil]

theorem log_append (s : σ) (es fs : List ε) :
    M.log s (es ++ fs) = M.log s es ++ M.log (M.exec s es) fs := by
  induction es generalizing s with
  | nil => rfl
  | cons e es ih => simp only [List.cons_append, log_cons, exec_cons, ih]

theorem log_concat (s : σ) (es : List ε) (e : ε) :
    M.log s (es ++ [e]) = M.log s es ++ [M.record (M.exec s es) e] := by
  rw [log_append, log_cons, log_nil]

theorem outs_append (s : σ) (es fs : List ε) :
    M.outs s (es ++ fs) = M.outs s es ++ M.outs (M.exec s es) fs := by
  unfold outs
  rw [log_append, List.map_append]

/-- The events of a history are the events that were fed in. -/
theorem log_map_ev (s : σ) (es : List ε) : (M.log s es).map Step.ev = es := by
  induction es generalizing s with
  | nil => rfl
  | cons e es ih => rw [log_cons, List.map_cons, ih, record_ev]

/-- A recorded step splits the run at its event. -/
theorem log_split {M : Mealy σ ε ω} {s : σ} {es : List ε} {p q : List (Step σ ε ω)}
    {r : Step σ ε ω} (h : M.log s es = p ++ r :: q) :
    ∃ es₁ e es₂, es = es₁ ++ e :: es₂ ∧ p = M.log s es₁ ∧ r = M.record (M.exec s es₁) e := by
  induction p generalizing s es with
  | nil =>
    cases es with
    | nil => simp at h
    | cons e es =>
      rw [log_cons, List.nil_append, List.cons.injEq] at h
      exact ⟨[], e, es, rfl, rfl, h.1.symm⟩
  | cons r' p ih =>
    cases es with
    | nil => simp at h
    | cons e es =>
      rw [log_cons, List.cons_append, List.cons.injEq] at h
      obtain ⟨es₁, e', es₂, rfl, rfl, rfl⟩ := ih h.2
      exact ⟨e :: es₁, e', es₂, rfl, by rw [log_cons, h.1], rfl⟩

theorem mem_log_iff {M : Mealy σ ε ω} {s : σ} {es : List ε} {r : Step σ ε ω} : r ∈ M.log s es ↔
    ∃ p e q, es = p ++ e :: q ∧ r = M.record (M.exec s p) e := by
  constructor
  · intro hr
    obtain ⟨l₁, l₂, hl⟩ := List.append_of_mem hr
    obtain ⟨p, e, q, hes, -, hrec⟩ := log_split hl
    exact ⟨p, e, q, hes, hrec⟩
  · rintro ⟨p, e, q, rfl, rfl⟩
    rw [log_append, log_cons]
    exact List.mem_append_right _ List.mem_cons_self

/-- What does not hold at the start of a run and holds at its end was brought about by a step. -/
theorem exists_step_of_change {M : Mealy σ ε ω} {P : σ → Prop} {s : σ} {es : List ε} (h0 : ¬ P s)
    (h1 : P (M.exec s es)) : ∃ r ∈ M.log s es, ¬ P r.pre ∧ P r.post := by
  induction es generalizing s with
  | nil => exact absurd h1 h0
  | cons e es ih =>
    rw [log_cons]
    by_cases h : P (M.next s e)
    · exact ⟨M.record s e, List.mem_cons_self, h0, h⟩
    · obtain ⟨r, hr, hc⟩ := ih h h1
      exact ⟨r, List.mem_cons_of_mem _ hr, hc⟩

/-! ### Guarded runs -/

/-- Every step of the run meets `G`, which sees the history, the state and the event. -/
def Along (G : List (Step σ ε ω) → σ → ε → Prop) (s : σ) (es : List ε) : Prop :=
  ∀ p e q, es = p ++ e :: q → G (M.log s p) (M.exec s p) e

variable {M} {G H : List (Step σ ε ω) → σ → ε → Prop} {s : σ}

theorem Along.nil : M.Along G s [] := by
  intro p e q h
  simp at h

theorem Along.of_append {es fs : List ε} (h : M.Along G s (es ++ fs)) : M.Along G s es := by
  rintro p e q rfl
  exact h p e (q ++ fs) (by simp)

theorem Along.last {es : List ε} {e : ε} (h : M.Along G s (es ++ [e])) :
    G (M.log s es) (M.exec s es) e := h es e [] rfl

theorem Along.concat {es : List ε} {e : ε} (h : M.Along G s es)
    (he : G (M.log s es) (M.exec s es) e) : M.Along G s (es ++ [e]) := by
  intro p e' q heq
  rcases q.eq_nil_or_concat' with rfl | ⟨q', a, rfl⟩
  · obtain ⟨rfl, rfl⟩ := List.append_singleton_inj.mp heq
    exact he
  · have heq' : es ++ [e] = (p ++ e' :: q') ++ [a] := by simpa using heq
    exact h p e' q' (List.append_singleton_inj.mp heq').1

theorem Along.and {es : List ε} (h : M.Along G s es) (h' : M.Along H s es) :
    M.Along (fun l t e => G l t e ∧ H l t e) s es :=
  fun p e q heq => ⟨h p e q heq, h' p e q heq⟩

theorem Along.mono {es : List ε} (h : M.Along G s es) (hGH : ∀ l t e, G l t e → H l t e) :
    M.Along H s es :=
  fun p e q heq => hGH _ _ _ (h p e q heq)

/-- Guarded runs, step by step. -/
theorem along_iff {es : List ε} : M.Along G s es ↔
    ∀ n, ∀ h : n < es.length, G (M.log s (es.take n)) (M.exec s (es.take n)) es[n] := by
  constructor
  · intro hG n hn
    exact hG _ _ (es.drop (n + 1)) (by simp)
  · rintro hG p e q rfl
    simpa using hG p.length (by simp)

instance [∀ l t e, Decidable (G l t e)] (es : List ε) : Decidable (M.Along G s es) :=
  decidable_of_iff _ along_iff.symm

/-- **Invariant rule.**  What holds initially and is kept by every guarded step holds of every
guarded run; the invariant may speak about the history. -/
theorem Along.induct {P : List (Step σ ε ω) → σ → Prop} (h0 : P [] s)
    (hstep : ∀ l t e, P l t → G l t e → P (l ++ [M.record t e]) (M.next t e)) :
    ∀ {es : List ε}, M.Along G s es → P (M.log s es) (M.exec s es) := by
  intro es
  induction es using List.reverseRecOn with
  | nil => exact fun _ => h0
  | append_singleton es e ih =>
    intro hG
    rw [log_concat, exec_concat]
    exact hstep _ _ _ (ih hG.of_append) hG.last

/-- The invariant rule for runs without a guard. -/
theorem log_induct (M : Mealy σ ε ω) {P : List (Step σ ε ω) → σ → Prop} (h0 : P [] s)
    (hstep : ∀ l t e, P l t → P (l ++ [M.record t e]) (M.next t e)) (es : List ε) :
    P (M.log s es) (M.exec s es) :=
  Along.induct (G := fun _ _ _ => True) h0 (fun l t e h _ => hstep l t e h)
    (fun _ _ _ _ => trivial)

/-! ### Simulations -/

/-- **Lockstep simulation**: two machines whose states stay related along the guarded runs of the
first give the same answers. -/
theorem outs_eq_of_sim {σ' : Type*} {N : Mealy σ' ε ω} {R : σ → σ' → Prop} {s' : σ'}
    (h0 : R s s')
    (hstep : ∀ l t t' e, R t t' → G l t e →
      M.out t e = N.out t' e ∧ R (M.next t e) (N.next t' e))
    {es : List ε} (hG : M.Along G s es) :
    M.outs s es = N.outs s' es ∧ R (M.exec s es) (N.exec s' es) := by
  induction es using List.reverseRecOn with
  | nil => exact ⟨rfl, h0⟩
  | append_singleton es e ih =>
    obtain ⟨hout, hR⟩ := ih hG.of_append
    obtain ⟨h1, h2⟩ := hstep _ _ _ e hR hG.last
    simp only [outs_append, exec_concat, outs_cons, outs_nil, hout, h1]
    exact ⟨trivial, h2⟩

/-- **Naturality**: a step that commutes with maps of states, events and answers makes runs commute with
them. -/
theorem exec_map {σ' ε' ω' : Type*} {N : Mealy σ' ε' ω'} {f : σ → σ'} {g : ε → ε'} {k : ω → ω'}
    (hstep : ∀ s e, N.step (f s) (g e) = (f (M.step s e).1, k (M.step s e).2)) (s : σ) (es : List ε) :
    N.exec (f s) (es.map g) = f (M.exec s es) ∧ N.outs (f s) (es.map g) = (M.outs s es).map k := by
  induction es generalizing s with
  | nil => exact ⟨rfl, rfl⟩
  | cons e es ih =>
    have hnext : N.next (f s) (g e) = f (M.next s e) := congrArg Prod.fst (hstep s e)
    have hout : N.out (f s) (g e) = k (M.out s e) := congrArg Prod.snd (hstep s e)
    obtain ⟨hexec, houts⟩ := ih (M.next s e)
    rw [List.map_cons, exec_cons, exec_cons, outs_cons, outs_cons, List.map_cons, hnext, hout]
    exact ⟨hexec, congrArg _ houts⟩

/-- **Erasure**: if the events that fail `vis` keep the state related to the same state of the
second machine, and the others move both machines alike, then the second machine run on the
visible events alone gives the answers that the first gives to them. -/
theorem outs_filter_of_erase {σ' : Type*} {N : Mealy σ' ε ω} (vis : ε → Bool)
    {R : List (Step σ ε ω) → σ → σ' → Prop} {s' : σ'} (h0 : R [] s s')
    (hvis : ∀ l t t' e, R l t t' → G l t e → vis e = true →
      M.out t e = N.out t' e ∧ R (l ++ [M.record t e]) (M.next t e) (N.next t' e))
    (hinv : ∀ l t t' e, R l t t' → G l t e → vis e = false →
      R (l ++ [M.record t e]) (M.next t e) t')
    {es : List ε} (hG : M.Along G s es) :
    ((M.log s es).filter (fun r => vis r.ev)).map Step.out = N.outs s' (es.filter vis) ∧
      R (M.log s es) (M.exec s es) (N.exec s' (es.filter vis)) := by
  induction es using List.reverseRecOn with
  | nil => exact ⟨rfl, h0⟩
  | append_singleton es e ih =>
    obtain ⟨hout, hR⟩ := ih hG.of_append
    rw [log_concat, exec_concat, List.filter_append, List.filter_append, List.map_append, hout]
    cases he : vis e with
    | true =>
      obtain ⟨h1, h2⟩ := hvis _ _ _ e hR hG.last he
      simp [outs_append, exec_append, he, h1, h2]
    | false =>
      have h2 := hinv _ _ _ e hR hG.last he
      simp [he, h2]

/-- `es` is `bs` with events that satisfy `p` put in anywhere. -/
inductive Inserted (p : ε → Prop) : List ε → List ε → Prop
  | nil : Inserted p [] []
  | keep {bs es : List ε} (e : ε) : Inserted p bs es → Inserted p (bs ++ [e]) (es ++ [e])
  | insert {bs es : List ε} {e : ε} (he : p e) : Inserted p bs es → Inserted p bs (es ++ [e])

theorem Inserted.refl {p : ε → Prop} (es : List ε) : Inserted p es es := by
  induction es using List.reverseRecOn with
  | nil => exact .nil
  | append_singleton es e ih => exact .keep e ih

theorem Inserted.middle {p : ε → Prop} {e : ε} (he : p e) (es fs : List ε) :
    Inserted p (es ++ fs) (es ++ [e] ++ fs) := by
  induction fs using List.reverseRecOn with
  | nil =>
    rw [List.append_nil, List.append_nil]
    exact .insert he (.refl es)
  | append_singleton fs a ih =>
    rw [← List.append_assoc, ← List.append_assoc]
    exact .keep a ih

/-- The answers to the events that satisfy `vis`. -/
def answers (M : Mealy σ ε ω) (vis : ε → Bool) (s : σ) (es : List ε) : List ω :=
  ((M.log s es).filter fun r => vis r.ev).map Step.out

theorem answers_concat (vis : ε → Bool) (es : List ε) (e : ε) : M.answers vis s (es ++ [e]) =
    M.answers vis s es ++ if vis e then [M.out (M.exec s es) e] else [] := by
  unfold answers
  rw [log_concat, List.filter_append, List.map_append]
  cases he : vis e <;> simp [he]

/-- **Insertion**: if an event that satisfies `p` keeps the states of the two machines related when
only the second takes it, and every event does when both take it, then the run with insertions gives the
answers of the run without them.  Each run has its guard; `R` sees the history of the run with
insertions. -/
theorem answers_eq_of_inserted {σ' : Type*} {N : Mealy σ' ε ω} (vis : ε → Bool) {p : ε → Prop}
    {G' : List (Step σ' ε ω) → σ' → ε → Prop} {R : List (Step σ' ε ω) → σ → σ' → Prop} {s' : σ'}
    (h0 : R [] s s') (hp : ∀ e, p e → vis e = false)
    (hkeep : ∀ l l' t t' e, R l' t t' → G l t e → G' l' t' e →
      (vis e = true → M.out t e = N.out t' e) ∧ R (l' ++ [N.record t' e]) (M.next t e) (N.next t' e))
    (hins : ∀ l' t t' e, R l' t t' → p e → G' l' t' e → R (l' ++ [N.record t' e]) t (N.next t' e))
    {bs es : List ε} (hi : Inserted p bs es) (hG : M.Along G s bs) (hG' : N.Along G' s' es) :
    M.answers vis s bs = N.answers vis s' es ∧ R (N.log s' es) (M.exec s bs) (N.exec s' es) := by
  induction hi with
  | nil => exact ⟨rfl, h0⟩
  | keep e _ ih =>
    obtain ⟨hvis, hR⟩ := ih hG.of_append hG'.of_append
    obtain ⟨hout, hR'⟩ := hkeep _ _ _ _ e hR hG.last hG'.last
    rw [answers_concat, answers_concat, log_concat, exec_concat, exec_concat, hvis]
    refine ⟨?_, hR'⟩
    cases he : vis e with
    | true => rw [hout he]
    | false => rfl
  | insert he _ ih =>
    obtain ⟨hvis, hR⟩ := ih hG hG'.of_append
    rw [answers_concat, log_concat, exec_concat, hp _ he, hvis]
    exact ⟨by simp, hins _ _ _ _ hR he hG'.last⟩

/-- Two machines fed the same events do alike, as far as `O` can tell, at every step. -/
def Agree {σ' ω' : Type*} (M : Mealy σ ε ω) (N : Mealy σ' ε ω')
    (O : Step σ ε ω → Step σ' ε ω' → Prop) (s : σ) (s' : σ') (es : List ε) : Prop :=
  ∀ p e q, es = p ++ e :: q → O (M.record (M.exec s p) e) (N.record (N.exec s' p) e)

theorem Agree.of_append {σ' ω' : Type*} {N : Mealy σ' ε ω'} {O : Step σ ε ω → Step σ' ε ω' → Prop}
    {s' : σ'} {es fs : List ε} (h : Agree M N O s s' (es ++ fs)) : Agree M N O s s' es := by
  rintro p e q rfl
  exact h p e (q ++ fs) (by simp)

/-- **Agreement along guarded runs**: where a guarded step keeps the states related and makes the machines do
alike, they agree along every guarded run. -/
theorem agree_of_along {σ' ω' : Type*} {N : Mealy σ' ε ω'} {O : Step σ ε ω → Step σ' ε ω' → Prop}
    {R : List (Step σ ε ω) → σ → σ' → Prop} {s' : σ'} (h0 : R [] s s')
    (hstep : ∀ l t t' e, R l t t' → G l t e →
      O (M.record t e) (N.record t' e) ∧ R (l ++ [M.record t e]) (M.next t e) (N.next t' e))
    {es : List ε} (hG : M.Along G s es) : Agree M N O s s' es := by
  have hrel : ∀ es, M.Along G s es → R (M.log s es) (M.exec s es) (N.exec s' es) := by
    intro es
    induction es using List.reverseRecOn with
    | nil => exact fun _ => h0
    | append_singleton es e ih =>
      intro hG
      rw [log_concat, exec_concat, exec_concat]
      exact (hstep _ _ _ e (ih hG.of_append) hG.last).2
  rintro p e q rfl
  exact (hstep _ _ _ e (hrel p hG.of_append) (hG p e q rfl)).1

/-- **Agreement**: if related states agree on an event exactly when the event meets the guard, and stay
related where they agree, then the machines agree along a run exactly when the run is guarded. -/
theorem agree_iff_along {σ' ω' : Type*} {N : Mealy σ' ε ω'} {O : Step σ ε ω → Step σ' ε ω' → Prop}
    {R : σ → σ' → Prop} {s' : σ'} (h0 : R s s')
    (hiff : ∀ l t t' e, R t t' → (O (M.record t e) (N.record t' e) ↔ G l t e))
    (hkeep : ∀ t t' e, R t t' → O (M.record t e) (N.record t' e) → R (M.next t e) (N.next t' e))
    (es : List ε) : Agree M N O s s' es ↔ M.Along G s es := by
  have hrel : ∀ es, Agree M N O s s' es → R (M.exec s es) (N.exec s' es) := by
    intro es
    induction es using List.reverseRecOn with
    | nil => exact fun _ => h0
    | append_singleton es e ih =>
      intro ha
      rw [exec_concat, exec_concat]
      exact hkeep _ _ e (ih ha.of_append) (ha es e [] rfl)
  induction es using List.reverseRecOn with
  | nil => exact ⟨fun _ => Along.nil, fun _ p e q h => by simp at h⟩
  | append_singleton es e ih =>
    constructor
    · intro ha
      have hR := hrel es ha.of_append
      exact (ih.mp ha.of_append).concat ((hiff _ _ _ e hR).mp (ha es e [] rfl))
    · intro hG p e' q heq
      have ha := ih.mpr hG.of_append
      rcases q.eq_nil_or_concat' with rfl | ⟨q', a, rfl⟩
      · obtain ⟨rfl, rfl⟩ := List.append_singleton_inj.mp heq
        exact (hiff _ _ _ e (hrel es ha)).mpr hG.last
      · have heq' : es ++ [e] = (p ++ e' :: q') ++ [a] := by simpa using heq
        exact ha p e' q' (List.append_singleton_inj.mp heq').1

/-- Agreement on answers and on a part of the state, read off the prefixes of the run. -/
theorem agree_iff_outs {σ' β : Type*} {N : Mealy σ' ε ω} (f : σ → β) (f' : σ' → β) {s' : σ'}
    (h0 : f s = f' s') (es : List ε) :
    Agree M N (fun r r' => r.out = r'.out ∧ f r.post = f' r'.post) s s' es ↔
      ∀ p, p <+: es → M.outs s p = N.outs s' p ∧ f (M.exec s p) = f' (N.exec s' p) := by
  constructor
  · intro ha p
    induction p using List.reverseRecOn with
    | nil => exact fun _ => ⟨rfl, h0⟩
    | append_singleton p e ih =>
      rintro ⟨q, rfl⟩
      obtain ⟨houts, -⟩ := ih ⟨e :: q, by simp⟩
      obtain ⟨hout, hpost⟩ := ha p e q (by simp)
      rw [outs_append, outs_append, exec_concat, exec_concat, houts]
      exact ⟨congrArg (N.outs s' p ++ [·]) hout, hpost⟩
  · rintro hp p e q rfl
    obtain ⟨houts, hexec⟩ := hp (p ++ [e]) ⟨q, by simp⟩
    rw [outs_append, outs_append] at houts
    rw [exec_concat, exec_concat] at hexec
    exact ⟨(List.append_singleton_inj.mp houts).2, hexec⟩

/-! ### Time stamps -/

/-- An event with the clock reading at which it happens. -/
structure Timed (τ ε : Type*) where
  time : τ
  ev : ε

/-- The clock never goes back. -/
def Clocked [LE τ] (es : List (Timed τ ε)) : Prop :=
  es.Pairwise fun a b => a.time ≤ b.time

instance [LE τ] [DecidableLE τ] (es : List (Timed τ ε)) : Decidable (Clocked es) :=
  inferInstanceAs (Decidable (List.Pairwise _ _))

theorem Clocked.of_append [LE τ] {es fs : List (Timed τ ε)} (h : Clocked (es ++ fs)) : Clocked es :=
  (List.pairwise_append.mp h).1

theorem Clocked.le_of_split [LE τ] {es fs : List (Timed τ ε)} {e a : Timed τ ε}
    (h : Clocked (es ++ e :: fs)) (ha : a ∈ es) : a.time ≤ e.time :=
  (List.pairwise_append.mp h).2.2 a ha e (by simp)

/-- The last event of a clocked run is the latest. -/
theorem Clocked.le_last {τ ε : Type*} [Preorder τ] {es : List (Timed τ ε)} {e : Timed τ ε}
    (h : Clocked (es ++ [e])) : ∀ a ∈ es ++ [e], a.time ≤ e.time := by
  intro a ha
  rcases List.mem_append.mp ha with ha | ha
  · exact h.le_of_split ha
  · rw [List.mem_singleton.mp ha]

theorem Clocked.concat {τ ε : Type*} [Preorder τ] {es : List (Timed τ ε)} {a e : Timed τ ε}
    (h : Clocked (es ++ [a])) (ha : a.time ≤ e.time) : Clocked (es ++ [a] ++ [e]) := by
  refine List.pairwise_append.mpr ⟨h, List.pairwise_singleton _ _, fun f hf g hg => ?_⟩
  rw [List.mem_singleton.mp hg]
  exact (h.le_last f hf).trans ha

/-- The history of a clocked run is in order. -/
theorem Clocked.log_pairwise [LE τ] {M : Mealy σ (Timed τ ε) ω} {s : σ} {es : List (Timed τ ε)}
    (h : Clocked es) : (M.log s es).Pairwise fun a b => a.ev.time ≤ b.ev.time := by
  have hm : ((M.log s es).map Step.ev).Pairwise fun a b => a.time ≤ b.time := by
    rw [log_map_ev]
    exact h
  rwa [List.pairwise_map] at hm

/-- The guard of clocked runs: nothing in the history is later than the event. -/
def NotBefore [LE τ] (l : List (Step σ (Timed τ ε) ω)) (_ : σ) (e : Timed τ ε) : Prop :=
  ∀ r ∈ l, r.ev.time ≤ e.time

theorem Clocked.along [LE τ] {M : Mealy σ (Timed τ ε) ω} {s : σ} {es : List (Timed τ ε)}
    (h : Clocked es) : M.Along NotBefore s es := by
  rintro p e q rfl r hr
  have hmem : r.ev ∈ (M.log s p).map Step.ev := List.mem_map_of_mem hr
  rw [log_map_ev] at hmem
  exact h.le_of_split hmem

end Mealy

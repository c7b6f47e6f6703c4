import Mathlib.Logic.Function.Basic
import ResilienceKit.Lib.Mealy
import ResilienceKit.Lib.Program

/-!
# Pools — one program run by any number of overlapping calls

Every call runs the same program and waits at a question.  `resume id` answers the question at which the
call `id` waits and takes the call to its next question, so a question is asked in one step of the run and
answered in a later one, with steps of other calls between.  `serve` lets a shared state answer, or change
at, a question; the answers of everything else come with the event.

Rules: `Moved` says what a step does, `thread_induct` carries what the calls keep through every run;
`own_induct` is for what only depends on a call's own `exchanges`.
-/

namespace Pool

open Program
open Mealy (Timed)

/-- The shared state, and where every call waits. -/
structure Sys (σ : Type) (Q : Type) (A : Q → Type) (α : Type) where
  shared : σ
  threads : ℕ → Option (Program Q A α)

inductive Ev (Q : Type) (A : Q → Type)
  | spawn (id : ℕ)
  | resume (id : ℕ) (reply : (q : Q) → A q)

/-- `now` is the question that the call has just come to. -/
inductive Out (Q : Type) (A : Q → Type)
  | ignored
  | spawned (id : ℕ) (now : Option Q)
  | resumed (id : ℕ) (x : Exchange A) (now : Option Q)

variable {σ τ Q α : Type} {A : Q → Type}

/-- The first question of a program. -/
def first : Program Q A α → Option Q
  | .done _ => none
  | .ask q _ => some q

/-- How a call has ended. -/
def result : Program Q A α → Option α
  | .done a => some a
  | .ask _ _ => none

/-- Any number of calls of `prog`, their steps in any order. -/
def machine (serve : τ → σ → (q : Q) → A q → A q × σ) (prog : Program Q A α) (init : σ) :
    Mealy (Sys σ Q A α) (Timed τ (Ev Q A)) (Out Q A) where
  init := ⟨init, fun _ => none⟩
  step s e :=
    match e.ev with
    | .spawn id =>
      match s.threads id with
      | none => (⟨s.shared, Function.update s.threads id (some prog)⟩, .spawned id (first prog))
      | some _ => (s, .ignored)
    | .resume id reply =>
      match s.threads id with
      | some (.ask q next) =>
        let (a, shared) := serve e.time s.shared q (reply q)
        (⟨shared, Function.update s.threads id (some (next a))⟩,
          .resumed id ⟨q, a⟩ (first (next a)))
      | _ => (s, .ignored)

/-- What one step can do. -/
inductive Moved (serve : τ → σ → (q : Q) → A q → A q × σ) (prog : Program Q A α)
    (r : Mealy.Step (Sys σ Q A α) (Timed τ (Ev Q A)) (Out Q A)) : Prop
  | ignored (ho : r.out = .ignored) (h : r.post = r.pre)
  | spawned (id : ℕ) (hfree : r.pre.threads id = none) (ho : r.out = .spawned id (first prog))
      (h : r.post = ⟨r.pre.shared, Function.update r.pre.threads id (some prog)⟩)
  | resumed (id : ℕ) (q : Q) (next : A q → Program Q A α) (a₀ a : A q) (shared : σ)
      (hat : r.pre.threads id = some (.ask q next))
      (hserve : serve r.ev.time r.pre.shared q a₀ = (a, shared))
      (ho : r.out = .resumed id ⟨q, a⟩ (first (next a)))
      (h : r.post = ⟨shared, Function.update r.pre.threads id (some (next a))⟩)

/-- **Inversion.** -/
theorem moved (serve : τ → σ → (q : Q) → A q → A q × σ) (prog : Program Q A α) (init : σ)
    (s : Sys σ Q A α) (e : Timed τ (Ev Q A)) :
    Moved serve prog ((machine serve prog init).record s e) := by
  obtain ⟨t, ev⟩ := e
  cases ev with
  | spawn id =>
    cases hs : s.threads id with
    | none =>
      refine .spawned id hs ?_ ?_ <;> simp [Mealy.record, Mealy.out, Mealy.next, machine, hs]
    | some p =>
      refine .ignored ?_ ?_ <;> simp [Mealy.record, Mealy.out, Mealy.next, machine, hs]
  | resume id reply =>
    rcases hs : s.threads id with _ | (a | ⟨q, next⟩)
    · refine .ignored ?_ ?_ <;> simp [Mealy.record, Mealy.out, Mealy.next, machine, hs]
    · refine .ignored ?_ ?_ <;> simp [Mealy.record, Mealy.out, Mealy.next, machine, hs]
    · refine .resumed id q next (reply q) _ _ hs rfl ?_ ?_ <;>
        simp [Mealy.record, Mealy.out, Mealy.next, machine, hs]

/-- **Invariant rule**: what holds of the program when a call starts, and of a call after any of its own
steps, and is not lost as the history grows, holds of every call in every run. -/
theorem thread_induct {serve : τ → σ → (q : Q) → A q → A q × σ} {prog : Program Q A α} {init : σ}
    {I : List (Mealy.Step (Sys σ Q A α) (Timed τ (Ev Q A)) (Out Q A)) → ℕ → Program Q A α → Prop}
    (hgrow : ∀ l r id p, I l id p → I (l ++ [r]) id p)
    (hspawn : ∀ l id, I l id prog)
    (hstep : ∀ l r id q next a₀ a shared, I l id (.ask q next) →
      serve r.ev.time r.pre.shared q a₀ = (a, shared) → r.out = .resumed id ⟨q, a⟩ (first (next a)) →
      r.post.shared = shared → I (l ++ [r]) id (next a))
    (es : List (Timed τ (Ev Q A))) (id : ℕ) (p : Program Q A α)
    (hp : ((machine serve prog init).exec (machine serve prog init).init es).threads id = some p) :
    I ((machine serve prog init).log (machine serve prog init).init es) id p := by
  refine Mealy.log_induct (machine serve prog init)
    (P := fun l s => ∀ id p, s.threads id = some p → I l id p) ?_ (fun l s e hI id p hp => ?_) es id p hp
  · intro id p hp
    cases hp
  · cases moved serve prog init s e with
    | ignored ho h =>
      refine hgrow l _ id p (hI id p ?_)
      rw [← hp]
      exact congrArg (fun s : Sys σ Q A α => s.threads id) h.symm
    | spawned id' hfree ho h =>
      have hthreads : Function.update s.threads id' (some prog) id = some p := by
        rw [← hp]
        exact congrArg (fun s : Sys σ Q A α => s.threads id) h.symm
      by_cases hid : id = id'
      · subst hid
        rw [Function.update_self] at hthreads
        cases hthreads
        exact hspawn _ id
      · rw [Function.update_of_ne hid] at hthreads
        exact hgrow l _ id p (hI id p hthreads)
    | resumed id' q next a₀ a shared hat hserve ho h =>
      have hthreads : Function.update s.threads id' (some (next a)) id = some p := by
        rw [← hp]
        exact congrArg (fun s : Sys σ Q A α => s.threads id) h.symm
      by_cases hid : id = id'
      · subst hid
        rw [Function.update_self] at hthreads
        cases hthreads
        exact hstep l _ id q next a₀ a shared (hI id _ hat) hserve ho (by rw [h])
      · rw [Function.update_of_ne hid] at hthreads
        exact hgrow l _ id p (hI id p hthreads)

/-- What one call has asked and been answered. -/
def exchanges (id : ℕ) (l : List (Mealy.Step (Sys σ Q A α) (Timed τ (Ev Q A)) (Out Q A))) :
    List (Exchange A) :=
  l.filterMap fun r =>
    match r.out with
    | .resumed id' x _ => if id' = id then some x else none
    | _ => none

section Own

variable {serve : τ → σ → (q : Q) → A q → A q × σ} {prog : Program Q A α} {init : σ}

theorem exchanges_resumed {l : List (Mealy.Step (Sys σ Q A α) (Timed τ (Ev Q A)) (Out Q A))}
    {r : Mealy.Step (Sys σ Q A α) (Timed τ (Ev Q A)) (Out Q A)} {id : ℕ} {x : Exchange A} {now : Option Q}
    (ho : r.out = .resumed id x now) (id' : ℕ) :
    exchanges id' (l ++ [r]) = exchanges id' l ++ if id = id' then [x] else [] := by
  unfold exchanges
  rw [List.filterMap_append, List.filterMap_cons, ho]
  split_ifs with h <;> simp [h]

theorem exchanges_other {l : List (Mealy.Step (Sys σ Q A α) (Timed τ (Ev Q A)) (Out Q A))}
    {r : Mealy.Step (Sys σ Q A α) (Timed τ (Ev Q A)) (Out Q A)} {id : ℕ}
    (ho : ∀ x now, r.out ≠ .resumed id x now) : exchanges id (l ++ [r]) = exchanges id l := by
  unfold exchanges
  rw [List.filterMap_append, List.filterMap_cons]
  cases hr : r.out with
  | ignored => simp
  | spawned id' now => simp
  | resumed id' x now =>
    have hne : id' ≠ id := by
      rintro rfl
      exact ho x now hr
    simp [hne]

/-- **Invariant rule** for the calls one by one: what holds of the program before it has asked anything, and
is kept by every answer, holds of every call in every run. -/
theorem own_induct {I : List (Exchange A) → Program Q A α → Prop} (h0 : I [] prog)
    (hstep : ∀ h q next a, I h (.ask q next) → I (h ++ [⟨q, a⟩]) (next a))
    (es : List (Timed τ (Ev Q A))) (id : ℕ) (p : Program Q A α)
    (hp : ((machine serve prog init).exec (machine serve prog init).init es).threads id = some p) :
    I (exchanges id ((machine serve prog init).log (machine serve prog init).init es)) p := by
  have hall := Mealy.log_induct (machine serve prog init) (s := (machine serve prog init).init)
    (P := fun l s => ∀ id, (s.threads id = none → exchanges id l = []) ∧
      ∀ p, s.threads id = some p → I (exchanges id l) p)
    (fun id => ⟨fun _ => rfl, fun p hp => by cases hp⟩) (fun l s e hI id => ?_) es id
  · exact hall.2 p hp
  · obtain ⟨hnone, hsome⟩ := hI id
    cases moved serve prog init s e with
    | ignored ho h =>
      have hpost : (machine serve prog init).next s e = s := h
      rw [exchanges_other (fun x now hr => by cases ho.symm.trans hr), hpost]
      exact ⟨hnone, hsome⟩
    | spawned id' hfree ho h =>
      have hpost : (machine serve prog init).next s e = _ := h
      rw [exchanges_other (fun x now hr => by cases ho.symm.trans hr), hpost]
      by_cases heq : id = id'
      · subst heq
        rw [hnone hfree]
        refine ⟨fun _ => rfl, fun p hp => ?_⟩
        obtain rfl : prog = p := by simpa using hp
        exact h0
      · simp only [Mealy.record_pre, Function.update_of_ne heq]
        exact ⟨hnone, hsome⟩
    | resumed id' q next a₀ a shared hat hserve ho h =>
      have hpost : (machine serve prog init).next s e = _ := h
      rw [exchanges_resumed ho, hpost]
      by_cases heq : id = id'
      · subst heq
        rw [if_pos rfl]
        refine ⟨fun hn => by simp at hn, fun p hp => ?_⟩
        obtain rfl : next a = p := by simpa using hp
        exact hstep _ q next a (hsome _ hat)
      · simp only [Mealy.record_pre, Function.update_of_ne heq, if_neg (Ne.symm heq), List.append_nil]
        exact ⟨hnone, hsome⟩

/-- Every question of a run is one that the program can come to. -/
theorem asks {P : Q → Prop} (hp : prog.Asks P) {es : List (Timed τ (Ev Q A))}
    {r : Mealy.Step (Sys σ Q A α) (Timed τ (Ev Q A)) (Out Q A)}
    (hr : r ∈ (machine serve prog init).log (machine serve prog init).init es) {id : ℕ} {x : Exchange A}
    {now : Option Q} (ho : r.out = .resumed id x now) : P x.1 := by
  obtain ⟨p, e, q, rfl, rfl⟩ := Mealy.mem_log_iff.mp hr
  cases moved serve prog init ((machine serve prog init).exec (machine serve prog init).init p) e with
  | ignored ho' h => cases ho'.symm.trans ho
  | spawned id' hfree ho' h => cases ho'.symm.trans ho
  | resumed id' q' next a₀ a shared hat hserve ho' h =>
    obtain ⟨rfl, rfl, rfl⟩ := Out.resumed.inj (ho'.symm.trans ho)
    exact (own_induct (I := fun _ p => p.Asks P) hp (fun _ _ _ a hI => hI.2 a) p id' _ hat).1

theorem asks_exchanges {P : Q → Prop} (hp : prog.Asks P) {es : List (Timed τ (Ev Q A))} {id : ℕ}
    {x : Exchange A}
    (hx : x ∈ exchanges id ((machine serve prog init).log (machine serve prog init).init es)) : P x.1 := by
  obtain ⟨r, hr, hx⟩ := List.mem_filterMap.mp hx
  cases ho : r.out with
  | ignored => simp [ho] at hx
  | spawned id' now => simp [ho] at hx
  | resumed id' y now =>
    rw [ho] at hx
    obtain ⟨-, rfl⟩ : id' = id ∧ y = x := by simpa using hx
    exact asks hp hr ho

end Own

end Pool

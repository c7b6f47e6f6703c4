import Mathlib.Logic.Function.Basic
import ResilienceKit.Lib.Mealy
import ResilienceKit.Lib.Program

/-!
# Locks — threads on one memory, and a program logic for them

A thread is a program whose questions take a lock, give it back, or do one atomic operation on the memory.
`machine` runs any number of calls, one operation at a time and in any order; a thread that wants a lock that is
taken stays where it is.

A `Discipline` says what each lock protects (`view`), what holds of it while the lock is free (`tidy`), in which
order locks may be taken (`rank`), and how the memory may grow (`grows`).  `Runs held s p post` proves a program
against it: between two operations of the thread the memory may have moved to any that `Rely` allows.

Rules: `runs_*` for programs and `does_*` for code; `Discipline.finished` carries a proof of every call to every run
(what a call promised holds when it ends), `grown` says that runs grow, `tidy_of_free` what holds of a free lock, and
`exists_ready` that the threads never deadlock.
-/

namespace Locks

open Program

inductive Op (L Q : Type)
  | acquire (l : L)
  | release (l : L)
  | act (q : Q)

@[reducible] def Ans (L : Type) {Q : Type} (A : Q → Type) : Op L Q → Type
  | .acquire _ => Unit
  | .release _ => Unit
  | .act q => A q

abbrev Thread (L : Type) {Q : Type} (A : Q → Type) (α : Type) := Program (Op L Q) (Ans L A) α

/-- Code of a thread that may raise. -/
abbrev Locking (L : Type) {Q : Type} (A : Q → Type) (ε α : Type) := Code (Op L Q) (Ans L A) ε α

section Code

variable {L Q ε α : Type} {A : Q → Type}

def act (q : Q) : Locking L A ε (A q) := Code.perform (Op.act q)

def acquire (l : L) : Locking L A ε Unit := Code.perform (Op.acquire l)

def release (l : L) : Locking L A ε Unit := Code.perform (Op.release l)

/-- `with lock: body`; the lock is given back however the body ends. -/
def withLock (l : L) (body : Locking L A ε α) : Locking L A ε α := do
  acquire l
  let r ← Code.attempt body
  release l
  Code.ofExcept r

end Code

/-! ### The machine -/

/-- Each thread is the call it is of, and what is left of it. -/
structure Sys (σ L : Type) {Q C : Type} (A : Q → Type) (R : C → Type) where
  mem : σ
  owner : L → Option ℕ
  threads : ℕ → Option ((c : C) × Thread L A (R c))

/-- `reply` is what comes from outside of the memory. -/
inductive Ev {Q : Type} (C : Type) (A : Q → Type)
  | start (id : ℕ) (c : C)
  | go (id : ℕ) (reply : (q : Q) → A q)

inductive Out
  | ignored
  | started
  | blocked
  | went
  deriving DecidableEq

variable {σ L Q C : Type} {A : Q → Type} {R : C → Type} {α β ε : Type}

def Sys.own [DecidableEq L] (s : Sys σ L A R) (l : L) (o : Option ℕ) : Sys σ L A R :=
  { s with owner := Function.update s.owner l o }

/-- The thread goes on with `p`. -/
def Sys.set (s : Sys σ L A R) (id : ℕ) {c : C} (p : Thread L A (R c)) : Sys σ L A R :=
  { s with threads := Function.update s.threads id (some ⟨c, p⟩) }

@[simp] theorem threads_set (s : Sys σ L A R) (id id' : ℕ) {c : C} (p : Thread L A (R c)) :
    (s.set id p).threads id' = if id' = id then some ⟨c, p⟩ else s.threads id' := Function.update_apply ..

@[simp] theorem mem_set (s : Sys σ L A R) (id : ℕ) {c : C} (p : Thread L A (R c)) : (s.set id p).mem = s.mem := rfl

@[simp] theorem owner_set (s : Sys σ L A R) (id : ℕ) {c : C} (p : Thread L A (R c)) :
    (s.set id p).owner = s.owner := rfl

/-- A call that has not ended. -/
def Unfinished (s : Sys σ L A R) (id : ℕ) : Prop := ∃ c q next, s.threads id = some ⟨c, .ask q next⟩

/-- A call that its next step takes on, whatever comes from outside. -/
def Ready (s : Sys σ L A R) (id : ℕ) : Prop :=
  ∃ c q next, s.threads id = some ⟨c, .ask q next⟩ ∧ ∀ l, q = .acquire l → s.owner l = none

section Machine

variable [DecidableEq L]

@[simp] theorem owner_own (s : Sys σ L A R) (l l' : L) (o : Option ℕ) :
    (s.own l o).owner l' = if l' = l then o else s.owner l' := Function.update_apply ..

@[simp] theorem mem_own (s : Sys σ L A R) (l : L) (o : Option ℕ) : (s.own l o).mem = s.mem := rfl

@[simp] theorem threads_own (s : Sys σ L A R) (l : L) (o : Option ℕ) : (s.own l o).threads = s.threads := rfl

def machine (serve : σ → (q : Q) → A q → A q × σ) (code : (c : C) → Thread L A (R c)) (init : σ) :
    Mealy (Sys σ L A R) (Ev C A) Out where
  init := ⟨init, fun _ => none, fun _ => none⟩
  step s
    | .start id c =>
      match s.threads id with
      | none => (s.set id (code c), .started)
      | some _ => (s, .ignored)
    | .go id reply =>
      match s.threads id with
      | some ⟨c, .ask (.acquire l) next⟩ =>
        match s.owner l with
        | none => ((s.own l (some id)).set id (c := c) (next ()), .went)
        | some _ => (s, .blocked)
      | some ⟨c, .ask (.release l) next⟩ =>
        ((s.own l none).set id (c := c) (next ()), .went)
      | some ⟨c, .ask (.act q) next⟩ =>
        let (a, mem) := serve s.mem q (reply q)
        ({ s with mem }.set id (c := c) (next a), .went)
      | _ => (s, .ignored)

/-- The system after a run. -/
def after (serve : σ → (q : Q) → A q → A q × σ) (code : (c : C) → Thread L A (R c)) (init : σ) (es : List (Ev C A)) :
    Sys σ L A R :=
  (machine serve code init).exec (machine serve code init).init es

/-- The events `es'` led the thread to `p`, and before the last of them it had not ended. -/
def Led (serve : σ → (q : Q) → A q → A q × σ) (code : (c : C) → Thread L A (R c)) (init : σ) (es es' : List (Ev C A))
    (id : ℕ) {c : C} (p : Thread L A (R c)) : Prop :=
  (after serve code init (es ++ es')).threads id = some ⟨c, p⟩ ∧
    ∀ es₁ e, es' = es₁ ++ [e] → Unfinished (after serve code init (es ++ es₁)) id

/-- What one step can do. -/
inductive Moved (serve : σ → (q : Q) → A q → A q × σ) (code : (c : C) → Thread L A (R c)) (s : Sys σ L A R) :
    Ev C A → Sys σ L A R → Prop
  | still {e : Ev C A} : Moved serve code s e s
  | started (id : ℕ) (c : C) (hfree : s.threads id = none) : Moved serve code s (.start id c) (s.set id (code c))
  | acquired (id : ℕ) {c : C} {reply : (q : Q) → A q} (l : L) (next : Unit → Thread L A (R c))
      (hat : s.threads id = some ⟨c, .ask (.acquire l) next⟩) (hfree : s.owner l = none) :
      Moved serve code s (.go id reply) ((s.own l (some id)).set id (c := c) (next ()))
  | released (id : ℕ) {c : C} {reply : (q : Q) → A q} (l : L) (next : Unit → Thread L A (R c))
      (hat : s.threads id = some ⟨c, .ask (.release l) next⟩) :
      Moved serve code s (.go id reply) ((s.own l none).set id (c := c) (next ()))
  | acted (id : ℕ) {c : C} {reply : (q : Q) → A q} (q : Q) (next : A q → Thread L A (R c))
      (hat : s.threads id = some ⟨c, .ask (.act q) next⟩) :
      Moved serve code s (.go id reply)
        ({ s with mem := (serve s.mem q (reply q)).2 }.set id (c := c) (next (serve s.mem q (reply q)).1))

theorem after_concat (serve : σ → (q : Q) → A q → A q × σ) (code : (c : C) → Thread L A (R c)) (init : σ)
    (es : List (Ev C A)) (e : Ev C A) :
    after serve code init (es ++ [e]) = (machine serve code init).next (after serve code init es) e :=
  Mealy.exec_concat ..

/-- **Inversion.** -/
theorem moved (serve : σ → (q : Q) → A q → A q × σ) (code : (c : C) → Thread L A (R c)) (init : σ) (s : Sys σ L A R)
    (e : Ev C A) : Moved serve code s e ((machine serve code init).next s e) := by
  unfold Mealy.next machine
  cases e with
  | start id c =>
    cases hs : s.threads id with
    | none => simpa [hs] using .started id c hs
    | some t => simpa [hs] using .still
  | go id reply =>
    rcases hs : s.threads id with _ | ⟨c, p⟩
    · simpa [hs] using .still
    · cases p with
      | done r => simpa [hs] using .still
      | ask q next =>
        cases q with
        | acquire l =>
          cases ho : s.owner l with
          | none => simpa [hs, ho] using .acquired id l next hs ho
          | some other => simpa [hs, ho] using .still
        | release l => simpa [hs] using .released id l next hs
        | act q => simpa [hs] using .acted id q next hs

omit [DecidableEq L] in
/-- A thread that goes on stays with its call. -/
theorem call_of_set {s t : Sys σ L A R} {id id' : ℕ} {c c' : C} {p : Thread L A (R c)} {p' q' : Thread L A (R c')}
    (hat' : s.threads id' = some ⟨c', p'⟩) (ht : t.threads = s.threads)
    (hat : (t.set id' q').threads id = some ⟨c, p⟩) : ∃ p'', s.threads id = some ⟨c, p''⟩ := by
  rw [threads_set] at hat
  split_ifs at hat with hid
  · subst hid
    cases hat
    exact ⟨p', hat'⟩
  · exact ⟨p, ht ▸ hat⟩

/-- A thread of the run is one that an event started. -/
theorem exists_start {serve : σ → (q : Q) → A q → A q × σ} {code : (c : C) → Thread L A (R c)} {init : σ}
    (es : List (Ev C A)) {id : ℕ} {c : C} {p : Thread L A (R c)}
    (hat : (after serve code init es).threads id = some ⟨c, p⟩) :
    ∃ es₁ es₂, es = es₁ ++ [.start id c] ++ es₂ ∧ (after serve code init es₁).threads id = none := by
  induction es using List.reverseRecOn generalizing p with
  | nil => cases hat
  | append_singleton es e ih =>
    have hgo : ∀ p', (after serve code init es).threads id = some ⟨c, p'⟩ →
        ∃ es₁ es₂, es ++ [e] = es₁ ++ [.start id c] ++ es₂ ∧ (after serve code init es₁).threads id = none := by
      intro p' hat'
      obtain ⟨es₁, es₂, rfl, hfree⟩ := ih hat'
      exact ⟨es₁, es₂ ++ [e], by rw [List.append_assoc _ es₂], hfree⟩
    rw [after_concat] at hat
    have hm := moved serve code init (after serve code init es) e
    generalize (machine serve code init).next (after serve code init es) e = s' at hat hm
    cases hm with
    | still => exact hgo p hat
    | started id' c' hfree =>
      rw [threads_set] at hat
      split_ifs at hat with hid
      · subst hid
        cases hat
        exact ⟨es, [], by rw [List.append_nil], hfree⟩
      · exact hgo p hat
    | acquired id' l next hat' hfree => exact (call_of_set hat' rfl hat).elim hgo
    | released id' l next hat' => exact (call_of_set hat' rfl hat).elim hgo
    | acted id' q next hat' => exact (call_of_set hat' rfl hat).elim hgo

end Machine

/-! ### Disciplines -/

/-- `view l` is the part of the memory that the lock `l` protects. -/
structure Discipline (σ L : Type) where
  View : L → Type
  view : (l : L) → σ → View l
  tidy : (l : L) → View l → Prop
  rank : L → ℕ
  top : ℕ
  rank_lt : ∀ l, rank l < top
  grows : σ → σ → Prop
  grows_refl : ∀ s, grows s s
  grows_trans : ∀ {s t u}, grows s t → grows t u → grows s u

namespace Discipline

variable (d : Discipline σ L) (serve : σ → (q : Q) → A q → A q × σ)

/-- How the memory can move while a thread that holds `held` waits. -/
def Rely (held : List L) (s t : σ) : Prop := d.grows s t ∧ ∀ l ∈ held, d.view l t = d.view l s

variable {d}

theorem Rely.refl (held : List L) (s : σ) : d.Rely held s s := ⟨d.grows_refl s, fun _ _ => rfl⟩

theorem Rely.trans {held : List L} {s t u : σ} (h : d.Rely held s t) (h' : d.Rely held t u) : d.Rely held s u :=
  ⟨d.grows_trans h.1 h'.1, fun l hl => (h'.2 l hl).trans (h.2 l hl)⟩

variable (d)

/-- The program, run by a thread that holds `held`, keeps to the discipline and ends in `post`. -/
def Runs (held : List L) : σ → Thread L A α → (α → List L → σ → Prop) → Prop
  | s, .done a, post => post a held s
  | s, .ask (.acquire l) next, post => (∀ l' ∈ held, d.rank l' < d.rank l) ∧
      ∀ t, d.Rely held s t → d.tidy l (d.view l t) → Runs (l :: held) t (next ()) post
  | s, .ask (.release l) next, post => ∃ rest, held = l :: rest ∧
      ∀ t, d.Rely held s t → d.tidy l (d.view l t) ∧ Runs rest t (next ()) post
  | s, .ask (.act q) next, post => ∀ t, d.Rely held s t → ∀ a₀, d.grows t (serve t q a₀).2 ∧
      (∀ l ∉ held, d.view l (serve t q a₀).2 = d.view l t) ∧ Runs held (serve t q a₀).2 (next (serve t q a₀).1) post

section Rules

variable {d serve} {held : List L} {s : σ}

theorem Runs.mono {p : Thread L A α} {post post' : α → List L → σ → Prop} (hp : d.Runs serve held s p post)
    (hpost : ∀ a held t, post a held t → post' a held t) : d.Runs serve held s p post' := by
  induction p generalizing held s with
  | done a => exact hpost a held s hp
  | ask q next ih =>
    cases q with
    | acquire l => exact ⟨hp.1, fun t ht htidy => ih () (hp.2 t ht htidy)⟩
    | release l =>
      obtain ⟨rest, rfl, hnext⟩ := hp
      exact ⟨rest, rfl, fun t ht => ⟨(hnext t ht).1, ih () (hnext t ht).2⟩⟩
    | act q =>
      intro t ht a₀
      obtain ⟨hgrows, hframe, hnext⟩ := hp t ht a₀
      exact ⟨hgrows, hframe, ih _ hnext⟩

theorem Runs.bind {p : Thread L A α} {f : α → Thread L A β} {post : β → List L → σ → Prop}
    (hp : d.Runs serve held s p fun a held t => d.Runs serve held t (f a) post) :
    d.Runs serve held s (p >>= f) post := by
  induction p generalizing held s with
  | done a => exact hp
  | ask q next ih =>
    cases q with
    | acquire l => exact ⟨hp.1, fun t ht htidy => ih () (hp.2 t ht htidy)⟩
    | release l =>
      obtain ⟨rest, rfl, hnext⟩ := hp
      exact ⟨rest, rfl, fun t ht => ⟨(hnext t ht).1, ih () (hnext t ht).2⟩⟩
    | act q =>
      intro t ht a₀
      obtain ⟨hgrows, hframe, hnext⟩ := hp t ht a₀
      exact ⟨hgrows, hframe, ih _ hnext⟩

/-- The memory only grows. -/
theorem Runs.grown {p : Thread L A α} {post : α → List L → σ → Prop} (hp : d.Runs serve held s p post) :
    d.Runs serve held s p fun a held t => d.grows s t ∧ post a held t := by
  induction p generalizing held s with
  | done a => exact ⟨d.grows_refl s, hp⟩
  | ask q next ih =>
    cases q with
    | acquire l =>
      refine ⟨hp.1, fun t ht htidy => (ih () (hp.2 t ht htidy)).mono fun a held u hu => ?_⟩
      exact ⟨d.grows_trans ht.1 hu.1, hu.2⟩
    | release l =>
      obtain ⟨rest, rfl, hnext⟩ := hp
      refine ⟨rest, rfl, fun t ht => ⟨(hnext t ht).1, (ih () (hnext t ht).2).mono fun a held u hu => ?_⟩⟩
      exact ⟨d.grows_trans ht.1 hu.1, hu.2⟩
    | act q =>
      intro t ht a₀
      obtain ⟨hgrows, hframe, hnext⟩ := hp t ht a₀
      refine ⟨hgrows, hframe, (ih _ hnext).mono fun a held u hu => ?_⟩
      exact ⟨d.grows_trans ht.1 (d.grows_trans hgrows hu.1), hu.2⟩

end Rules

/-! ### Code -/

/-- The logic for code that may raise. -/
def Does (held : List L) (s : σ) (x : Locking L A ε α) (post : Except ε α → List L → σ → Prop) : Prop :=
  d.Runs serve held s x.run post

section Code

variable {d serve} {held : List L} {s : σ}

theorem Does.mono {x : Locking L A ε α} {post post' : Except ε α → List L → σ → Prop}
    (hx : d.Does serve held s x post) (hpost : ∀ r held t, post r held t → post' r held t) :
    d.Does serve held s x post' := Runs.mono hx hpost

theorem Does.grown {x : Locking L A ε α} {post : Except ε α → List L → σ → Prop} (hx : d.Does serve held s x post) :
    d.Does serve held s x fun r held t => d.grows s t ∧ post r held t := Runs.grown hx

theorem does_pure {a : α} {post : Except ε α → List L → σ → Prop} (h : post (.ok a) held s) :
    d.Does serve held s (pure a) post := h

theorem does_throw {e : ε} {post : Except ε α → List L → σ → Prop} (h : post (.error e) held s) :
    d.Does serve held s (throw e) post := h

theorem does_ofExcept {r : Except ε α} {post : Except ε α → List L → σ → Prop} (h : post r held s) :
    d.Does serve held s (Code.ofExcept r) post := by
  cases r <;> exact h

theorem does_bind {x : Locking L A ε α} {f : α → Locking L A ε β} {post : Except ε β → List L → σ → Prop}
    (hx : d.Does serve held s x fun r held t =>
      (∀ a, r = .ok a → d.Does serve held t (f a) post) ∧ ∀ e, r = .error e → post (.error e) held t) :
    d.Does serve held s (x >>= f) post := by
  unfold Does
  rw [ExceptT.run_bind]
  refine Runs.bind (Runs.mono hx fun r held t hr => ?_)
  cases r with
  | ok a => exact hr.1 a rfl
  | error e => exact hr.2 e rfl

theorem does_attempt {x : Locking L A ε α} {post : Except ε (Except ε α) → List L → σ → Prop}
    (hx : d.Does serve held s x fun r held t => post (.ok r) held t) :
    d.Does serve held s (Code.attempt x) post := Runs.bind hx

theorem does_tryElse {body : Locking L A ε α} {handler : ε → Locking L A ε β} {orElse : α → Locking L A ε β}
    {post : Except ε β → List L → σ → Prop}
    (hbody : d.Does serve held s body fun r held t =>
      (∀ a, r = .ok a → d.Does serve held t (orElse a) post) ∧
        ∀ e, r = .error e → d.Does serve held t (handler e) post) :
    d.Does serve held s (Code.tryElse body handler orElse) post := by
  unfold Does Code.tryElse
  rw [ExceptT.run_mk]
  refine Runs.bind (Runs.mono hbody fun r held t hr => ?_)
  cases r with
  | ok a => exact hr.1 a rfl
  | error e => exact hr.2 e rfl

theorem does_act {q : Q} {post : Except ε (A q) → List L → σ → Prop}
    (h : ∀ t, d.Rely held s t → ∀ a₀, d.grows t (serve t q a₀).2 ∧
      (∀ l ∉ held, d.view l (serve t q a₀).2 = d.view l t) ∧ post (.ok (serve t q a₀).1) held (serve t q a₀).2) :
    d.Does serve held s (act q) post := h

/-- An operation that only reads. -/
theorem does_read {q : Q} {post : Except ε (A q) → List L → σ → Prop} (hq : ∀ t a₀, (serve t q a₀).2 = t)
    (h : ∀ t, d.Rely held s t → ∀ a₀, post (.ok (serve t q a₀).1) held t) : d.Does serve held s (act q) post := by
  refine does_act fun t ht a₀ => ?_
  rw [hq]
  exact ⟨d.grows_refl t, fun _ _ => rfl, h t ht a₀⟩

/-- **Sections.**  The body finds tidy what the lock protects, and has to leave it so. -/
theorem does_withLock {l : L} {body : Locking L A ε α} {post : Except ε α → List L → σ → Prop}
    (hrank : ∀ l' ∈ held, d.rank l' < d.rank l)
    (hbody : ∀ t, d.Rely held s t → d.tidy l (d.view l t) → d.Does serve (l :: held) t body fun r held' u =>
      held' = l :: held ∧ ∀ v, d.Rely held' u v → d.tidy l (d.view l v) ∧ post r held v) :
    d.Does serve held s (withLock l body) post := by
  refine does_bind (x := acquire l) ⟨hrank, fun t ht htidy => ⟨fun _ _ => ?_, nofun⟩⟩
  refine does_bind (does_attempt ((hbody t ht htidy).mono fun r held' u hu => ⟨fun r' hr' => ?_, nofun⟩))
  obtain rfl : r = r' := Except.ok.inj hr'
  obtain ⟨rfl, hu⟩ := hu
  refine does_bind (x := release l) ⟨held, rfl, fun v hv => ⟨(hu v hv).1, fun _ _ => ?_, nofun⟩⟩
  exact does_ofExcept (hu v hv).2

end Code

/-! ### Threads in a run -/

section Threads

variable {d serve}

/-- What is left of a thread, since the memory was `s₀`. -/
def Doing (d : Discipline σ L) (serve : σ → (q : Q) → A q → A q × σ) (s₀ : σ) (id : ℕ) (s : Sys σ L A R)
    (p : Thread L A α) (post : α → σ → Prop) : Prop :=
  ∃ held, held.Pairwise (fun l l' => d.rank l' < d.rank l) ∧ (∀ l, l ∈ held ↔ s.owner l = some id) ∧
    d.Rely held s₀ s.mem ∧ d.Runs serve held s₀ p fun a held t => held = [] ∧ post a t

/-- What a step of the thread `id` can do to the others. -/
structure Change (d : Discipline σ L) (id : ℕ) (s s' : Sys σ L A R) : Prop where
  grows : d.grows s.mem s'.mem
  view : ∀ l, s.owner l ≠ some id → d.view l s'.mem = d.view l s.mem
  owner : ∀ l id', id' ≠ id → (s'.owner l = some id' ↔ s.owner l = some id')
  free : ∀ l, s'.owner l = none → s.owner l = none ∨ d.tidy l (d.view l s'.mem)

theorem Doing.other {s₀ : σ} {id id' : ℕ} {s s' : Sys σ L A R} {p : Thread L A α} {post : α → σ → Prop}
    (hp : Doing d serve s₀ id' s p post) (hc : Change d id s s') (hid : id' ≠ id) :
    Doing d serve s₀ id' s' p post := by
  obtain ⟨held, hsorted, hheld, hrely, hruns⟩ := hp
  refine ⟨held, hsorted, fun l => (hheld l).trans (hc.owner l id' hid).symm,
    hrely.trans ⟨hc.grows, fun l hl => ?_⟩, hruns⟩
  refine hc.view l fun howner => hid ?_
  have hown := (hheld l).mp hl
  rw [howner] at hown
  exact (Option.some.inj hown).symm

/-- A thread that has ended holds nothing. -/
theorem Doing.done {s₀ : σ} {id : ℕ} {s : Sys σ L A R} {a : α} {post : α → σ → Prop}
    (hp : Doing d serve s₀ id s (.done a) post) : (∀ l, s.owner l ≠ some id) ∧ post a s₀ := by
  obtain ⟨held, -, hheld, -, rfl, hpost⟩ := hp
  exact ⟨fun l hl => List.not_mem_nil ((hheld l).mpr hl), hpost⟩

variable [DecidableEq L] {c : C} {s₀ : σ} {id : ℕ} {s : Sys σ L A R} {post : R c → σ → Prop}

theorem Doing.acquire {l : L} {next : Unit → Thread L A (R c)}
    (hp : Doing d serve s₀ id s (.ask (.acquire l) next) post) (hfree : s.owner l = none)
    (htidy : d.tidy l (d.view l s.mem)) :
    Doing d serve s.mem id ((s.own l (some id)).set id (c := c) (next ())) (next ()) post ∧
      Change d id s ((s.own l (some id)).set id (c := c) (next ())) := by
  obtain ⟨held, hsorted, hheld, hrely, hrank, hnext⟩ := hp
  refine ⟨⟨l :: held, List.pairwise_cons.mpr ⟨hrank, hsorted⟩, fun l' => ?_, Rely.refl _ _, hnext _ hrely htidy⟩,
    d.grows_refl _, fun _ _ => rfl, fun l' id' hid => ?_, fun l' hl' => ?_⟩
  · rw [List.mem_cons, hheld, owner_set, owner_own]
    split_ifs with h <;> simp [h]
  · rw [owner_set, owner_own]
    split_ifs with h
    · subst h
      simpa [hfree] using hid.symm
    · exact Iff.rfl
  · rw [owner_set, owner_own] at hl'
    split_ifs at hl' with h
    exact .inl hl'

theorem Doing.release {l : L} {next : Unit → Thread L A (R c)}
    (hp : Doing d serve s₀ id s (.ask (.release l) next) post) :
    Doing d serve s.mem id ((s.own l none).set id (c := c) (next ())) (next ()) post ∧
      Change d id s ((s.own l none).set id (c := c) (next ())) := by
  obtain ⟨held, hsorted, hheld, hrely, rest, rfl, hnext⟩ := hp
  obtain ⟨htidy, hruns⟩ := hnext _ hrely
  obtain ⟨hrank, hsorted⟩ := List.pairwise_cons.mp hsorted
  have hown : s.owner l = some id := (hheld l).mp List.mem_cons_self
  refine ⟨⟨rest, hsorted, fun l' => ?_, Rely.refl _ _, hruns⟩, d.grows_refl _, fun _ _ => rfl, fun l' id' hid => ?_,
    fun l' hl' => ?_⟩
  · rw [owner_set, owner_own]
    split_ifs with h
    · subst h
      -- The lock given back is not held twice: the ranks fall along the stack.
      exact ⟨fun hmem => absurd (hrank l' hmem) (Nat.lt_irrefl _), nofun⟩
    · rw [← hheld, List.mem_cons]
      exact ⟨.inr, fun hmem => hmem.resolve_left h⟩
  · rw [owner_set, owner_own]
    split_ifs with h
    · subst h
      simpa [hown] using hid.symm
    · exact Iff.rfl
  · rw [owner_set, owner_own] at hl'
    split_ifs at hl' with h
    · exact .inr (h ▸ htidy)
    · exact .inl hl'

omit [DecidableEq L] in
theorem Doing.act {q : Q} {next : A q → Thread L A (R c)} (a₀ : A q)
    (hp : Doing d serve s₀ id s (.ask (.act q) next) post) :
    Doing d serve (serve s.mem q a₀).2 id
        ({ s with mem := (serve s.mem q a₀).2 }.set id (c := c) (next (serve s.mem q a₀).1))
        (next (serve s.mem q a₀).1) post ∧
      Change d id s ({ s with mem := (serve s.mem q a₀).2 }.set id (c := c) (next (serve s.mem q a₀).1)) := by
  obtain ⟨held, hsorted, hheld, hrely, hnext⟩ := hp
  obtain ⟨hgrows, hframe, hruns⟩ := hnext _ hrely a₀
  refine ⟨⟨held, hsorted, hheld, Rely.refl _ _, hruns⟩, hgrows, fun l hl => hframe l ?_, fun _ _ _ => Iff.rfl,
    fun l hl => ?_⟩
  · exact fun h => hl ((hheld l).mp h)
  · exact .inl hl

end Threads

/-! ### Runs -/

section Runs

/-- Every call, run alone from any memory, keeps to the discipline and ends as `post` says. -/
def Keeps (code : (c : C) → Thread L A (R c)) (post : (c : C) → σ → R c → σ → Prop) : Prop :=
  ∀ c s, d.Runs serve [] s (code c) fun r held t => held = [] ∧ post c s r t

/-- The invariant of the system. -/
structure Sound (s : Sys σ L A R) : Prop where
  free : ∀ l, s.owner l = none → d.tidy l (d.view l s.mem)
  owned : ∀ l id, s.owner l = some id → s.threads id ≠ none
  doing : ∀ id c p, s.threads id = some ⟨c, p⟩ → ∃ s₀, Doing d serve s₀ id s p fun _ _ => True

variable {d serve} {code : (c : C) → Thread L A (R c)} {post : (c : C) → σ → R c → σ → Prop} {s s' : Sys σ L A R}
  {init : σ}

/-- A step starts a call, or takes one thread on. -/
inductive Went (d : Discipline σ L) (serve : σ → (q : Q) → A q → A q × σ) (code : (c : C) → Thread L A (R c))
    (s : Sys σ L A R) : Sys σ L A R → Prop
  | still : Went d serve code s s
  | started (id : ℕ) (c : C) (hfree : s.threads id = none) : Went d serve code s (s.set id (code c))
  | went (id : ℕ) {c : C} {p p' : Thread L A (R c)} {s' : Sys σ L A R} (hat : s.threads id = some ⟨c, p⟩)
      (hid : Unfinished s id) (hthreads : s'.threads = (s.set id p').threads)
      (hdoing : ∀ (post : R c → σ → Prop) s₀, Doing d serve s₀ id s p post →
        Doing d serve s'.mem id s' p' post ∧ Change d id s s') : Went d serve code s s'

/-- A step of the system, as each thread sees it. -/
theorem Went.doing (hw : Went d serve code s s') (hs : Sound d serve s) {id : ℕ} {c : C} {p : Thread L A (R c)}
    (hat : s.threads id = some ⟨c, p⟩) {s₀ : σ} {post : R c → σ → Prop} (hp : Doing d serve s₀ id s p post) :
    ∃ p' s₀', s'.threads id = some ⟨c, p'⟩ ∧ (s₀' = s₀ ∧ p' = p ∨ s₀' = s'.mem ∧ Unfinished s id) ∧
      Doing d serve s₀' id s' p' post := by
  cases hw with
  | still => exact ⟨p, s₀, hat, .inl ⟨rfl, rfl⟩, hp⟩
  | started id' c' hfree =>
    have hid : id ≠ id' := by
      rintro rfl
      rw [hfree] at hat
      cases hat
    refine ⟨p, s₀, ?_, .inl ⟨rfl, rfl⟩, hp⟩
    rw [threads_set, if_neg hid, hat]
  | @went id' c' q q' _ hat' hun hthreads hdoing =>
    by_cases hid : id = id'
    · subst hid
      rw [hat] at hat'
      cases hat'
      refine ⟨q', s'.mem, ?_, .inr ⟨rfl, hun⟩, (hdoing post s₀ hp).1⟩
      rw [hthreads, threads_set, if_pos rfl]
    · obtain ⟨s₁, hp'⟩ := hs.doing id' c' q hat'
      refine ⟨p, s₀, ?_, .inl ⟨rfl, rfl⟩, hp.other (hdoing _ _ hp').2 hid⟩
      rw [hthreads, threads_set, if_neg hid, hat]

theorem Went.grows (hw : Went d serve code s s') (hs : Sound d serve s) : d.grows s.mem s'.mem := by
  cases hw with
  | still => exact d.grows_refl _
  | started id c hfree => exact d.grows_refl _
  | went id hat hun hthreads hdoing =>
    obtain ⟨s₀, hp⟩ := hs.doing id _ _ hat
    exact (hdoing _ _ hp).2.grows

theorem Doing.start {id : ℕ} {c : C} (hcode : Keeps d serve code post) (hs : Sound d serve s)
    (hfree : s.threads id = none) : Doing d serve s.mem id (s.set id (code c)) (code c) (post c s.mem) := by
  refine ⟨[], .nil, fun l => ⟨nofun, fun hl => ?_⟩, Rely.refl _ _, hcode c s.mem⟩
  exact absurd hfree (hs.owned l id hl)

theorem Doing.weaken {s₀ : σ} {id : ℕ} {p : Thread L A α} {post : α → σ → Prop}
    (hp : Doing d serve s₀ id s p post) : Doing d serve s₀ id s p fun _ _ => True := by
  obtain ⟨held, hsorted, hheld, hrely, hruns⟩ := hp
  exact ⟨held, hsorted, hheld, hrely, hruns.mono fun a held t ht => ⟨ht.1, trivial⟩⟩

/-- **Step lemma.** -/
theorem Went.sound (hw : Went d serve code s s') (hcode : Keeps d serve code post) (hs : Sound d serve s) :
    Sound d serve s' := by
  cases hw with
  | still => exact hs
  | started id c hfree =>
    refine ⟨hs.free, fun l id' hl => ?_, fun id' c' p hat => ?_⟩
    · rw [threads_set]
      split_ifs with hid
      · exact Option.some_ne_none _
      · exact hs.owned l id' hl
    · rw [threads_set] at hat
      split_ifs at hat with hid
      · subst hid
        cases hat
        exact ⟨s.mem, (Doing.start hcode hs hfree).weaken⟩
      · exact hs.doing id' c' p hat
  | @went id c p p' _ hat hun hthreads hdoing =>
    obtain ⟨s₀, hp⟩ := hs.doing id c p hat
    obtain ⟨hp', hc⟩ := hdoing _ _ hp
    refine ⟨fun l hl => ?_, fun l id' hl => ?_, fun id' c' q hat' => ?_⟩
    · rcases hc.free l hl with hfree | htidy
      · rw [hc.view l (by rw [hfree]; nofun)]
        exact hs.free l hfree
      · exact htidy
    · rw [hthreads, threads_set]
      split_ifs with hid
      · exact Option.some_ne_none _
      · exact hs.owned l id' ((hc.owner l id' hid).mp hl)
    · rw [hthreads, threads_set] at hat'
      split_ifs at hat' with hid
      · subst hid
        cases hat'
        exact ⟨_, hp'⟩
      · obtain ⟨s₁, hq⟩ := hs.doing id' c' q hat'
        exact ⟨s₁, hq.other hc hid⟩

variable [DecidableEq L]

theorem went_of_moved {e : Ev C A} (hm : Moved serve code s e s') (hs : Sound d serve s) : Went d serve code s s' := by
  cases hm with
  | still => exact .still
  | started id c hfree => exact .started id c hfree
  | acquired id l next hat hfree =>
    exact .went id hat ⟨_, .acquire l, next, hat⟩ rfl fun post s₀ hp => hp.acquire hfree (hs.free l hfree)
  | released id l next hat => exact .went id hat ⟨_, .release l, next, hat⟩ rfl fun post s₀ hp => hp.release
  | acted id q next hat => exact .went id hat ⟨_, .act q, next, hat⟩ rfl fun post s₀ hp => hp.act _

variable (hinit : ∀ l, d.tidy l (d.view l init)) (hcode : Keeps d serve code post)
include hinit hcode

/-- **Run lemma.** -/
theorem sound_after (es : List (Ev C A)) : Sound d serve (after serve code init es) := by
  induction es using List.reverseRecOn with
  | nil => exact ⟨fun l _ => hinit l, nofun, nofun⟩
  | append_singleton es e ih =>
    rw [after_concat]
    exact (went_of_moved (moved ..) ih).sound hcode ih

/-- The memory grows along every run. -/
theorem grown (es es' : List (Ev C A)) :
    d.grows (after serve code init es).mem (after serve code init (es ++ es')).mem := by
  induction es' using List.reverseRecOn with
  | nil =>
    rw [List.append_nil]
    exact d.grows_refl _
  | append_singleton es' e ih =>
    have hs := sound_after hinit hcode (es ++ es')
    rw [← List.append_assoc, after_concat]
    exact d.grows_trans ih ((went_of_moved (moved ..) hs).grows hs)

/-- A call in the run, since it began. -/
theorem doing_after (es es' : List (Ev C A)) {id : ℕ} {c : C} (hfree : (after serve code init es).threads id = none) :
    ∃ p es₁ es₂, (after serve code init (es ++ [.start id c] ++ es')).threads id = some ⟨c, p⟩ ∧ es' = es₁ ++ es₂ ∧
      Led serve code init (es ++ [.start id c]) es₁ id p ∧
      Doing d serve (after serve code init (es ++ [.start id c] ++ es₁)).mem id
        (after serve code init (es ++ [.start id c] ++ es')) p (post c (after serve code init es).mem) := by
  induction es' using List.reverseRecOn with
  | nil =>
    have hstart : after serve code init (es ++ [.start id c]) = (after serve code init es).set id (code c) := by
      simp [after_concat, Mealy.next, machine, hfree]
    have hdoing := Doing.start (c := c) hcode (sound_after hinit hcode es) hfree
    have hat : (after serve code init (es ++ [.start id c] ++ [])).threads id = some ⟨c, code c⟩ := by
      rw [List.append_nil, hstart, threads_set, if_pos rfl]
    refine ⟨code c, [], [], hat, rfl, ⟨hat, fun es₂ e h => ?_⟩, ?_⟩
    · exact absurd h.symm (List.append_ne_nil_of_right_ne_nil _ (List.cons_ne_nil _ _))
    · rw [List.append_nil, hstart]
      exact hdoing
  | append_singleton es' e ih =>
    obtain ⟨p, es₁, es₂, hat, rfl, hled, hp⟩ := ih
    have hs := sound_after hinit hcode (es ++ [.start id c] ++ (es₁ ++ es₂))
    obtain ⟨p', s₀, hat', hs₀, hp'⟩ := (went_of_moved (moved serve code init _ e) hs).doing hs hat hp
    have happend : es ++ [.start id c] ++ (es₁ ++ es₂) ++ [e] = es ++ [.start id c] ++ (es₁ ++ es₂ ++ [e]) :=
      List.append_assoc ..
    rw [← after_concat, happend] at hat' hp' hs₀
    rcases hs₀ with ⟨rfl, rfl⟩ | ⟨rfl, hun⟩
    · exact ⟨p', es₁, es₂ ++ [e], hat', by rw [List.append_assoc], hled, hp'⟩
    · refine ⟨p', es₁ ++ es₂ ++ [e], [], hat', by rw [List.append_nil], ⟨hat', fun es₃ e' h => ?_⟩, hp'⟩
      obtain ⟨rfl, -⟩ := List.append_inj' h rfl
      exact hun

/-- **A call that has ended kept its promise**, at the memory that its last step left. -/
theorem finished (es es' : List (Ev C A)) {id : ℕ} {c : C} (hfree : (after serve code init es).threads id = none)
    {r : R c} (hend : (after serve code init (es ++ [.start id c] ++ es')).threads id = some ⟨c, .done r⟩) :
    ∃ es₁ es₂, es' = es₁ ++ es₂ ∧ Led serve code init (es ++ [.start id c]) es₁ id (c := c) (.done r) ∧
      post c (after serve code init es).mem r (after serve code init (es ++ [.start id c] ++ es₁)).mem := by
  obtain ⟨p, es₁, es₂, hat, hes', hled, hp⟩ := doing_after hinit hcode es es' (c := c) hfree
  rw [hend] at hat
  cases hat
  exact ⟨es₁, es₂, hes', hled, hp.done.2⟩

theorem tidy_of_free (es : List (Ev C A)) {l : L} (hfree : (after serve code init es).owner l = none) :
    d.tidy l (d.view l (after serve code init es).mem) := (sound_after hinit hcode es).free l hfree

end Runs

/-! ### Progress -/

section Progress

variable {d serve} {s : Sys σ L A R}

/-- The thread that has a lock has not ended. -/
theorem Sound.unfinished (hs : Sound d serve s) {l : L} {id : ℕ} (hl : s.owner l = some id) :
    ∃ c q next s₀, s.threads id = some ⟨c, .ask q next⟩ ∧ Doing d serve s₀ id s (.ask q next) fun _ _ => True := by
  obtain ⟨⟨c, p⟩, hat⟩ := Option.ne_none_iff_exists'.mp (hs.owned l id hl)
  obtain ⟨s₀, hp⟩ := hs.doing id c p hat
  cases p with
  | done r => exact absurd hl (hp.done.1 l)
  | ask q next => exact ⟨c, q, next, s₀, hat, hp⟩

/-- Whoever has a lock is ready, or waits for one of a higher rank. -/
theorem Sound.ready_of_owned (hs : Sound d serve s) {l : L} {id : ℕ} (hl : s.owner l = some id) :
    ∃ id', Ready s id' := by
  -- The induction is on how many ranks there are above that of the lock.
  induction hn : d.top - d.rank l using Nat.strong_induction_on generalizing l id with
  | h n ih =>
    obtain ⟨c, q, next, s₀, hat, held, hsorted, hheld, hrely, hruns⟩ := hs.unfinished hl
    by_cases hready : ∀ l', q = .acquire l' → s.owner l' = none
    · exact ⟨id, c, q, next, hat, hready⟩
    · push Not at hready
      obtain ⟨l', rfl, howned⟩ := hready
      obtain ⟨id', hl'⟩ := Option.ne_none_iff_exists'.mp howned
      have hrank := hruns.1 l ((hheld l).mpr hl)
      have htop := d.rank_lt l'
      exact ih (d.top - d.rank l') (by omega) hl' rfl

theorem Sound.ready (hs : Sound d serve s) {id : ℕ} (hid : Unfinished s id) : ∃ id', Ready s id' := by
  obtain ⟨c, q, next, hat⟩ := hid
  by_cases hready : ∀ l, q = .acquire l → s.owner l = none
  · exact ⟨id, c, q, next, hat, hready⟩
  · push Not at hready
    obtain ⟨l, rfl, howned⟩ := hready
    obtain ⟨id', hl⟩ := Option.ne_none_iff_exists'.mp howned
    exact hs.ready_of_owned hl

/-- **No deadlock.** -/
theorem exists_ready [DecidableEq L] {code : (c : C) → Thread L A (R c)} {post : (c : C) → σ → R c → σ → Prop}
    {init : σ} (hinit : ∀ l, d.tidy l (d.view l init)) (hcode : Keeps d serve code post) (es : List (Ev C A)) {id : ℕ}
    (hid : Unfinished (after serve code init es) id) : ∃ id', Ready (after serve code init es) id' :=
  (sound_after hinit hcode es).ready hid

end Progress

end Discipline

end Locks

import Mathlib.Data.List.Basic
import Mathlib.Data.List.Infix
import Mathlib.Data.Nat.Notation

/-!
# Interactive programs — code that asks its surroundings

A `Program Q A α` asks questions `q : Q`, goes on with the answers `A q` and ends in an `α`.  Code that
may raise an `ε` is a `Code`.  `exec env h x` runs `x` after the history `h` of questions and answers;
the environment sees that history, so it can stand for anything outside the code.

Rules: the simp set `exec_*` runs code symbolically, and `Asks P`, which holds of code whose questions
all satisfy `P`, carries invariants through code that is not run (`Asks.invariant`).  Surroundings that
are a machine can be run in turn with the code (`play_*`); `exec_envOf` says that this is the same.
-/

/-- Code that asks questions and goes on with the answers. -/
inductive Program (Q : Type) (A : Q → Type) (α : Type)
  | done (a : α)
  | ask (q : Q) (next : A q → Program Q A α)

namespace Program

variable {Q : Type} {A : Q → Type} {α β γ ε : Type}

protected def bind : Program Q A α → (α → Program Q A β) → Program Q A β
  | done a, f => f a
  | ask q next, f => ask q fun a => (next a).bind f

instance : Monad (Program Q A) where
  pure := done
  bind := Program.bind

/-- A question with its answer. -/
abbrev Exchange (A : Q → Type) := (q : Q) × A q

/-- Answers every question in view of what was asked before. -/
abbrev Env (A : Q → Type) := List (Exchange A) → (q : Q) → A q

/-- The history and the result of a run that starts after the history `h`. -/
def run (env : Env A) : List (Exchange A) → Program Q A α → List (Exchange A) × α
  | h, done a => (h, a)
  | h, ask q next => run env (h ++ [⟨q, env h q⟩]) (next (env h q))

theorem run_bind (env : Env A) (h : List (Exchange A)) (p : Program Q A α)
    (f : α → Program Q A β) :
    run env h (p >>= f) = run env (run env h p).1 (f (run env h p).2) := by
  induction p generalizing h with
  | done a => rfl
  | ask q next ih => exact ih (env h q) (h ++ [⟨q, env h q⟩])

/-- A run of the program can be this, with this result. -/
protected def Runs : Program Q A α → List (Exchange A) → α → Prop
  | done a, log, b => log = [] ∧ a = b
  | ask q next, log, b => ∃ a rest, log = ⟨q, a⟩ :: rest ∧ (next a).Runs rest b

/-- A run only adds to the history. -/
theorem prefix_run (env : Env A) (h : List (Exchange A)) (p : Program Q A α) :
    h <+: (run env h p).1 := by
  induction p generalizing h with
  | done a => exact List.prefix_refl h
  | ask q next ih => exact (List.prefix_append h _).trans (ih _ _)

/-- What a program does against an environment is a run. -/
theorem runs_run (env : Env A) (h : List (Exchange A)) (p : Program Q A α) :
    ∃ log, (run env h p).1 = h ++ log ∧ p.Runs log (run env h p).2 := by
  induction p generalizing h with
  | done a => exact ⟨[], (List.append_nil h).symm, rfl, rfl⟩
  | ask q next ih =>
    obtain ⟨log, hlog, hruns⟩ := ih (env h q) (h ++ [⟨q, env h q⟩])
    exact ⟨⟨q, env h q⟩ :: log, by rw [run, hlog, List.append_assoc]; rfl, env h q, log, rfl, hruns⟩

/-- Only the answers from here on matter. -/
theorem run_congr {env env' : Env A} {h : List (Exchange A)} (p : Program Q A α)
    (hsame : ∀ h', h <+: h' → env h' = env' h') : run env h p = run env' h p := by
  induction p generalizing h with
  | done a => rfl
  | ask q next ih =>
    rw [run, run, hsame h (List.prefix_refl h)]
    exact ih _ fun h' hp => hsame h' ((List.prefix_append h _).trans hp)

/-- Every question that the program can come to satisfies `P`. -/
protected def Asks (P : Q → Prop) : Program Q A α → Prop
  | done _ => True
  | ask q next => P q ∧ ∀ a, (next a).Asks P

theorem Asks.bind {P : Q → Prop} {p : Program Q A α} {f : α → Program Q A β} (hp : p.Asks P)
    (hf : ∀ a, (f a).Asks P) : (p >>= f).Asks P := by
  induction p with
  | done a => exact hf a
  | ask q next ih => exact ⟨hp.1, fun a => ih a (hp.2 a)⟩

theorem Asks.mono {P P' : Q → Prop} {p : Program Q A α} (hp : p.Asks P) (h : ∀ q, P q → P' q) :
    p.Asks P' := by
  induction p with
  | done a => trivial
  | ask q next ih => exact ⟨h q hp.1, fun a => ih a (hp.2 a)⟩

/-- **Invariant rule**: what every question of the program keeps, with any answer, holds at the end of
its runs. -/
theorem Asks.invariant {P : Q → Prop} {I : List (Exchange A) → Prop} {p : Program Q A α}
    (hp : p.Asks P) (env : Env A) (hstep : ∀ h q, P q → I h → I (h ++ [⟨q, env h q⟩]))
    {h : List (Exchange A)} (h0 : I h) : I (run env h p).1 := by
  induction p generalizing h with
  | done a => exact h0
  | ask q next ih => exact ih _ (hp.2 _) (hstep h q hp.1 h0)

/-! ### Surroundings that are a machine -/

section Play

variable {σ : Type} (serve : σ → (q : Q) → A q × σ)

/-- The state of the machine after a history. -/
def stateAfter (s : σ) (h : List (Exchange A)) : σ := h.foldl (fun s x => (serve s x.1).2) s

/-- The machine as an environment. -/
def envOf (s : σ) : Env A := fun h q => (serve (stateAfter serve s h) q).1

/-- The program and the machine in turn. -/
protected def play : σ → Program Q A α → σ × α
  | s, done a => (s, a)
  | s, ask q next => Program.play (serve s q).2 (next (serve s q).1)

theorem stateAfter_concat (s : σ) (h : List (Exchange A)) (x : Exchange A) :
    stateAfter serve s (h ++ [x]) = (serve (stateAfter serve s h) x.1).2 := by
  rw [stateAfter, List.foldl_append]
  rfl

protected theorem play_bind (s : σ) (p : Program Q A α) (f : α → Program Q A β) :
    Program.play serve s (p >>= f) =
      Program.play serve (Program.play serve s p).1 (f (Program.play serve s p).2) := by
  induction p generalizing s with
  | done a => rfl
  | ask q next ih => exact ih _ _

/-- **Invariant rule** against a machine. -/
theorem Asks.play_invariant {P : Q → Prop} {I : σ → Prop} {p : Program Q A α} (hp : p.Asks P)
    (hstep : ∀ s q, P q → I s → I (serve s q).2) {s : σ} (h0 : I s) : I (Program.play serve s p).1 := by
  induction p generalizing s with
  | done a => exact h0
  | ask q next ih => exact ih _ (hp.2 _) (hstep s q hp.1 h0)

/-- **Adequacy**: a run against the environment that the machine is does what the two do in turn. -/
theorem run_envOf (s : σ) (h : List (Exchange A)) (p : Program Q A α) :
    stateAfter serve s (run (envOf serve s) h p).1 = (Program.play serve (stateAfter serve s h) p).1 ∧
      (run (envOf serve s) h p).2 = (Program.play serve (stateAfter serve s h) p).2 := by
  induction p generalizing h with
  | done a => exact ⟨rfl, rfl⟩
  | ask q next ih =>
    have hnext := ih (envOf serve s h q) (h ++ [⟨q, envOf serve s h q⟩])
    rw [stateAfter_concat] at hnext
    exact hnext

end Play

/-! ### What was asked -/

/-- How many questions of a kind stand in the history. -/
def asked (p : Q → Bool) (h : List (Exchange A)) : ℕ := h.countP fun x => p x.1

/-- What an observer who only sees some of the questions sees of the history. -/
def seen (f : Q → Option β) (h : List (Exchange A)) : List β := h.filterMap fun x => f x.1

section History

variable (p : Q → Bool) (f : Q → Option β) (q : Q) (a : A q) (h h' : List (Exchange A))

@[simp] theorem asked_nil : asked (A := A) p [] = 0 := rfl

@[simp] theorem asked_cons : asked p (⟨q, a⟩ :: h) = asked p h + if p q then 1 else 0 :=
  List.countP_cons

@[simp] theorem asked_append : asked p (h ++ h') = asked p h + asked p h' := List.countP_append

@[simp] theorem seen_nil : seen (A := A) f [] = [] := rfl

@[simp] theorem seen_cons : seen f (⟨q, a⟩ :: h) = (f q).toList ++ seen f h := by
  unfold seen
  rw [List.filterMap_cons]
  cases f q <;> rfl

@[simp] theorem seen_append : seen f (h ++ h') = seen f h ++ seen f h' := List.filterMap_append

end History

/-- The last answer that an observer of the answers sees. -/
def lastSeen (f : (q : Q) → A q → Option β) (h : List (Exchange A)) : Option β :=
  (h.filterMap fun x => f x.1 x.2).getLast?

@[simp] theorem lastSeen_nil (f : (q : Q) → A q → Option β) : lastSeen f [] = none := rfl

@[simp] theorem lastSeen_concat (f : (q : Q) → A q → Option β) (h : List (Exchange A)) (q : Q) (a : A q) :
    lastSeen f (h ++ [⟨q, a⟩]) = (f q a).or (lastSeen f h) := by
  unfold lastSeen
  rw [List.filterMap_append]
  cases hq : f q a <;> simp [hq]

/-- A place in a history that grew by one exchange is the new one, or lies before it. -/
theorem split_concat {h p r : List (Exchange A)} {x y : Exchange A} (he : h ++ [x] = p ++ y :: r) :
    (r = [] ∧ p = h ∧ y = x) ∨ ∃ r', r = r' ++ [x] ∧ h = p ++ y :: r' := by
  rcases r.eq_nil_or_concat' with rfl | ⟨r', z, rfl⟩
  · obtain ⟨rfl, rfl⟩ := List.append_singleton_inj.mp he
    exact .inl ⟨rfl, rfl, rfl⟩
  · have he' : h ++ [x] = (p ++ y :: r') ++ [z] := by simpa using he
    obtain ⟨rfl, rfl⟩ := List.append_singleton_inj.mp he'
    exact .inr ⟨r', rfl, rfl⟩

end Program

/-- Code that asks questions and may raise. -/
abbrev Code (Q : Type) (A : Q → Type) (ε α : Type) := ExceptT ε (Program Q A) α

namespace Code

open Program

variable {Q : Type} {A : Q → Type} {α β γ ε : Type}

def perform (q : Q) : Code Q A ε (A q) := ExceptT.lift (Program.ask q Program.done)

/-- What is returned or raised at once. -/
protected def ofExcept : Except ε α → Code Q A ε α
  | .ok a => pure a
  | .error e => throw e

/-- `try: body … except: handler … else: orElse`; what the handler or the `else` part raises is not
handled. -/
def tryElse (body : Code Q A ε α) (handler : ε → Code Q A ε β) (orElse : α → Code Q A ε β) :
    Code Q A ε β :=
  ExceptT.mk do
    match ← body.run with
    | .ok a => (orElse a).run
    | .error e => (handler e).run

/-- How the code ends, as a value. -/
def attempt (x : Code Q A ε α) : Code Q A ε (Except ε α) :=
  ExceptT.mk do
    let r ← x.run
    return .ok r

/-- The history and the result of the code after the history `h`. -/
def exec (env : Env A) (h : List (Exchange A)) (x : Code Q A ε α) :
    List (Exchange A) × Except ε α :=
  Program.run env h x.run

variable {env : Env A} {h : List (Exchange A)}

@[simp] theorem exec_pure (a : α) : exec env h (pure a : Code Q A ε α) = (h, .ok a) := rfl

@[simp] theorem exec_throw (e : ε) : exec env h (throw e : Code Q A ε α) = (h, .error e) := rfl

@[simp] theorem exec_perform (q : Q) :
    exec env h (perform q : Code Q A ε (A q)) = (h ++ [⟨q, env h q⟩], .ok (env h q)) := rfl

@[simp] theorem exec_ofExcept (x : Except ε α) :
    exec env h (Code.ofExcept x : Code Q A ε α) = (h, x) := by
  cases x <;> rfl

theorem exec_bind (x : Code Q A ε α) (f : α → Code Q A ε β) : exec env h (x >>= f) =
    match exec env h x with
    | (h', .ok a) => exec env h' (f a)
    | (h', .error e) => (h', .error e) := by
  unfold exec
  rw [ExceptT.run_bind, run_bind]
  rcases Program.run env h x.run with ⟨h', a | e⟩ <;> rfl

theorem exec_tryElse (body : Code Q A ε α) (handler : ε → Code Q A ε β)
    (orElse : α → Code Q A ε β) : exec env h (tryElse body handler orElse) =
    match exec env h body with
    | (h', .ok a) => exec env h' (orElse a)
    | (h', .error e) => exec env h' (handler e) := by
  unfold exec tryElse
  rw [ExceptT.run_mk, run_bind]
  rcases Program.run env h body.run with ⟨h', a | e⟩ <;> rfl

@[simp] theorem exec_attempt (x : Code Q A ε α) :
    exec env h (attempt x) = ((exec env h x).1, .ok (exec env h x).2) := by
  unfold exec attempt
  rw [ExceptT.run_mk, run_bind]
  rfl

/-- Code whose run is known hands its result on. -/
theorem exec_bind_ok {x : Code Q A ε α} {f : α → Code Q A ε β} {h' : List (Exchange A)} {a : α}
    (hx : exec env h x = (h', .ok a)) : exec env h (x >>= f) = exec env h' (f a) := by
  rw [exec_bind, hx]

theorem exec_bind_error {x : Code Q A ε α} {f : α → Code Q A ε β} {h' : List (Exchange A)} {e : ε}
    (hx : exec env h x = (h', .error e)) : exec env h (x >>= f) = (h', .error e) := by
  rw [exec_bind, hx]

theorem prefix_exec (x : Code Q A ε α) : h <+: (exec env h x).1 := prefix_run env h x.run

theorem prefix_of_exec {x : Code Q A ε α} {h' : List (Exchange A)} {r : Except ε α}
    (hx : exec env h x = (h', r)) : h <+: h' := by
  have hp : h <+: (exec env h x).1 := prefix_exec x
  rwa [hx] at hp

/-- What has happened stays in the history. -/
theorem prefix_exec_bind (x : Code Q A ε α) (f : α → Code Q A ε β) :
    (exec env h x).1 <+: (exec env h (x >>= f)).1 := by
  rw [exec_bind]
  rcases exec env h x with ⟨h', a | e⟩
  · exact List.prefix_refl h'
  · exact prefix_exec _

theorem prefix_exec_tryElse (body : Code Q A ε α) (handler : ε → Code Q A ε β)
    (orElse : α → Code Q A ε β) :
    (exec env h body).1 <+: (exec env h (tryElse body handler orElse)).1 := by
  rw [exec_tryElse]
  rcases exec env h body with ⟨h', a | e⟩
  · exact prefix_exec _
  · exact prefix_exec _

/-- A longer history asked no less. -/
theorem asked_le {h' : List (Exchange A)} (p : Q → Bool) (hp : h <+: h') : asked p h ≤ asked p h' :=
  hp.sublist.countP_le

/-! ### Surroundings that are a machine -/

section Play

variable {σ : Type} (serve : σ → (q : Q) → A q × σ) (s : σ)

/-- The code and the machine in turn. -/
def play (x : Code Q A ε α) : σ × Except ε α := Program.play serve s x.run

@[simp] theorem play_pure (a : α) : play serve s (pure a : Code Q A ε α) = (s, .ok a) := rfl

@[simp] theorem play_throw (e : ε) : play serve s (throw e : Code Q A ε α) = (s, .error e) := rfl

@[simp] theorem play_perform (q : Q) :
    play serve s (perform q : Code Q A ε (A q)) = ((serve s q).2, .ok (serve s q).1) := rfl

@[simp] theorem play_ofExcept (x : Except ε α) :
    play serve s (Code.ofExcept x : Code Q A ε α) = (s, x) := by
  cases x <;> rfl

theorem play_bind (x : Code Q A ε α) (f : α → Code Q A ε β) : play serve s (x >>= f) =
    match play serve s x with
    | (s', .ok a) => play serve s' (f a)
    | (s', .error e) => (s', .error e) := by
  unfold play
  rw [ExceptT.run_bind, Program.play_bind]
  rcases Program.play serve s x.run with ⟨s', a | e⟩ <;> rfl

theorem play_ask (q : Q) (f : A q → Code Q A ε α) :
    play serve s (perform q >>= f) = play serve (serve s q).2 (f (serve s q).1) := rfl

theorem play_tryElse (body : Code Q A ε α) (handler : ε → Code Q A ε β)
    (orElse : α → Code Q A ε β) : play serve s (tryElse body handler orElse) =
    match play serve s body with
    | (s', .ok a) => play serve s' (orElse a)
    | (s', .error e) => play serve s' (handler e) := by
  unfold play tryElse
  rw [ExceptT.run_mk, Program.play_bind]
  rcases Program.play serve s body.run with ⟨s', a | e⟩ <;> rfl

/-- **Adequacy** for code. -/
theorem exec_envOf (x : Code Q A ε α) :
    stateAfter serve s (exec (envOf serve s) [] x).1 = (play serve s x).1 ∧
      (exec (envOf serve s) [] x).2 = (play serve s x).2 :=
  run_envOf serve s [] x.run

end Play

/-! ### Runs of any surroundings -/

/-- A run of the code can be this, with this result. -/
def Runs (x : Code Q A ε α) (log : List (Exchange A)) (r : Except ε α) : Prop := x.run.Runs log r

theorem runs_exec (env : Env A) (h : List (Exchange A)) (x : Code Q A ε α) :
    ∃ log, (exec env h x).1 = h ++ log ∧ Runs x log (exec env h x).2 := runs_run env h x.run

/-! ### What code can ask -/

/-- Every question that the code can come to satisfies `P`. -/
def Asks (P : Q → Prop) (x : Code Q A ε α) : Prop := Program.Asks P x.run

variable {P : Q → Prop}

theorem Asks.mono {P' : Q → Prop} {x : Code Q A ε α} (hx : Asks P x) (h : ∀ q, P q → P' q) :
    Asks P' x :=
  Program.Asks.mono hx h

theorem Asks.pure (a : α) : Asks P (Pure.pure a : Code Q A ε α) := trivial

theorem Asks.throw (e : ε) : Asks P (throw e : Code Q A ε α) := trivial

theorem Asks.ofExcept (x : Except ε α) : Asks P (Code.ofExcept x : Code Q A ε α) := by
  cases x <;> trivial

theorem Asks.perform {q : Q} (hq : P q) : Asks P (perform q : Code Q A ε (A q)) :=
  ⟨hq, fun _ => trivial⟩

theorem Asks.bind {x : Code Q A ε α} {f : α → Code Q A ε β} (hx : Asks P x)
    (hf : ∀ a, Asks P (f a)) : Asks P (x >>= f) :=
  Program.Asks.bind hx fun r => by
    cases r with
    | ok a => exact hf a
    | error e => trivial

theorem Asks.tryElse {body : Code Q A ε α} {handler : ε → Code Q A ε β} {orElse : α → Code Q A ε β}
    (hb : Asks P body) (hh : ∀ e, Asks P (handler e)) (he : ∀ a, Asks P (orElse a)) :
    Asks P (tryElse body handler orElse) :=
  Program.Asks.bind hb fun r => by
    cases r with
    | ok a => exact he a
    | error e => exact hh e

theorem Asks.attempt {x : Code Q A ε α} (hx : Asks P x) : Asks P (attempt x) :=
  Program.Asks.bind hx fun _ => trivial

/-- **Invariant rule** for code. -/
theorem Asks.invariant {I : List (Exchange A) → Prop} {x : Code Q A ε α} (hx : Asks P x) (env : Env A)
    (hstep : ∀ h q, P q → I h → I (h ++ [⟨q, env h q⟩])) {h : List (Exchange A)} (h0 : I h) :
    I (exec env h x).1 :=
  Program.Asks.invariant hx env hstep h0

/-- The last answer seen stays while nothing is asked whose answers are seen. -/
theorem Asks.lastSeen_eq {f : (q : Q) → A q → Option β} {x : Code Q A ε α} (hx : Asks (fun q => ∀ a, f q a = none) x)
    (env : Env A) (h : List (Exchange A)) : lastSeen f (exec env h x).1 = lastSeen f h := by
  refine hx.invariant env (I := fun h' => lastSeen f h' = lastSeen f h) (fun h' q hq hI => ?_) rfl
  rw [lastSeen_concat, hq, Option.none_or, hI]

theorem Asks.play_invariant {σ : Type} {serve : σ → (q : Q) → A q × σ} {I : σ → Prop} {x : Code Q A ε α}
    (hx : Asks P x) (hstep : ∀ s q, P q → I s → I (serve s q).2) {s : σ} (h0 : I s) :
    I (play serve s x).1 :=
  Program.Asks.play_invariant serve hx hstep h0

/-- What a run adds to the history. -/
theorem Asks.exists_added {x : Code Q A ε α} (hx : Asks P x) (env : Env A) (h : List (Exchange A)) :
    ∃ g, (exec env h x).1 = h ++ g ∧ ∀ y ∈ g, P y.1 := by
  refine hx.invariant env (I := fun h' => ∃ g, h' = h ++ g ∧ ∀ y ∈ g, P y.1) ?_
    ⟨[], (List.append_nil h).symm, by simp⟩
  rintro h' q hq ⟨g, rfl, hg⟩
  refine ⟨g ++ [⟨q, env (h ++ g) q⟩], by rw [List.append_assoc], fun y hy => ?_⟩
  rcases List.mem_append.mp hy with hy | hy
  · exact hg y hy
  · obtain rfl := List.mem_singleton.mp hy
    exact hq

/-- Code that never asks a kind of question does not change how often it was asked. -/
theorem Asks.asked_eq {p : Q → Bool} {x : Code Q A ε α} (hx : Asks (fun q => p q = false) x)
    (env : Env A) (h : List (Exchange A)) : asked p (exec env h x).1 = asked p h := by
  refine hx.invariant env (I := fun h' => asked p h' = asked p h) (fun h' q hq hI => ?_) rfl
  simp [hq, hI]

end Code

import Mathlib.Tactic.SplitIfs
import ResilienceKit.Lib.Program

/-!
# Layers — code over code

`interpret k x` is `x` with a program `k q` in place of every question `q`.  To `x` the layers below are surroundings
(`outside`), and a run of the whole is a run of `x` in them (`exec_interpret`), so what is known of the runs of `x` in
any surroundings is known of the whole.  `inside` is the history that a history of `x` leaves underneath; what it holds
of a kind of question follows from what one `k q` asks (`asked_inside`).

`Keeps env I x`: the run of `x` in `env` keeps `I`.  `AtMost p n x`: no run of `x` asks more than `n` questions of the
kind `p`.
-/

namespace Program

variable {Q Q' : Type} {A : Q → Type} {A' : Q' → Type} {α β γ : Type}

/-- A program in place of every question. -/
protected def interpret (k : (q : Q) → Program Q' A' (A q)) : Program Q A α → Program Q' A' α
  | done a => done a
  | ask q next => k q >>= fun a => Program.interpret k (next a)

/-- What happens below while this happens above. -/
def inside (k : (q : Q) → Program Q' A' (A q)) (env : Env A') (h : List (Exchange A'))
    (log : List (Exchange A)) : List (Exchange A') :=
  log.foldl (fun g x => (run env g (k x.1)).1) h

/-- The layers below as surroundings. -/
def outside (k : (q : Q) → Program Q' A' (A q)) (env : Env A') (h : List (Exchange A')) : Env A :=
  fun log q => (run env (inside k env h log) (k q)).2

section Interpret

variable {k : (q : Q) → Program Q' A' (A q)} {env : Env A'} {h : List (Exchange A')}

@[simp] theorem inside_nil : inside k env h [] = h := rfl

theorem inside_concat (log : List (Exchange A)) (x : Exchange A) :
    inside k env h (log ++ [x]) = (run env (inside k env h log) (k x.1)).1 := by
  rw [inside, List.foldl_append]
  rfl

theorem inside_append (log log' : List (Exchange A)) :
    inside k env h (log ++ log') = inside k env (inside k env h log) log' := List.foldl_append

/-- **Adequacy**: the whole runs as the upper layer does in what the lower layers are to it. -/
theorem run_interpret (p : Program Q A α) (log : List (Exchange A)) :
    run env (inside k env h log) (Program.interpret k p) =
      (inside k env h (run (outside k env h) log p).1, (run (outside k env h) log p).2) := by
  induction p generalizing log with
  | done a => rfl
  | ask q next ih =>
    have hnext := ih (outside k env h log q) (log ++ [⟨q, outside k env h log q⟩])
    rw [inside_concat] at hnext
    rw [Program.interpret, run_bind]
    exact hnext

variable (k env h) in
/-- **Simulation rule**: what every question keeps between the history above and the one below holds of their runs. -/
theorem related_inside {R : List (Exchange A) → List (Exchange A') → Prop} (h0 : R [] h)
    (hk : ∀ log g q, R log g → R (log ++ [⟨q, (run env g (k q)).2⟩]) (run env g (k q)).1) (p : Program Q A α) :
    R (run (outside k env h) [] p).1 (inside k env h (run (outside k env h) [] p).1) := by
  have hall : ∀ log, R log (inside k env h log) →
      R (run (outside k env h) log p).1 (inside k env h (run (outside k env h) log p).1) := by
    induction p with
    | done a => exact fun log hR => hR
    | ask q next ih =>
      intro log hR
      refine ih _ _ ?_
      rw [inside_concat]
      exact hk log _ q hR
  exact hall [] h0

/-- What one question adds underneath adds up. -/
theorem asked_inside {p : Q → Bool} {p' : Q' → Bool}
    (hk : ∀ q g, asked p' (run env g (k q)).1 = asked p' g + if p q then 1 else 0) (log : List (Exchange A)) :
    asked p' (inside k env h log) = asked p' h + asked p log := by
  induction log using List.reverseRecOn with
  | nil => rfl
  | append_singleton log x ih =>
    rw [inside_concat, hk, ih, asked_append, asked_cons, asked_nil]
    omega

theorem asked_inside_le {p : Q → Bool} {p' : Q' → Bool}
    (hk : ∀ q g, asked p' (run env g (k q)).1 ≤ asked p' g + if p q then 1 else 0) (log : List (Exchange A)) :
    asked p' (inside k env h log) ≤ asked p' h + asked p log := by
  induction log using List.reverseRecOn with
  | nil => exact le_rfl
  | append_singleton log x ih =>
    have hone := hk x.1 (inside k env h log)
    rw [inside_concat, asked_append, asked_cons, asked_nil]
    omega

theorem seen_inside {f : Q → Option β} {f' : Q' → Option β}
    (hk : ∀ q g, seen f' (run env g (k q)).1 = seen f' g ++ (f q).toList) (log : List (Exchange A)) :
    seen f' (inside k env h log) = seen f' h ++ seen f log := by
  induction log using List.reverseRecOn with
  | nil => exact (List.append_nil _).symm
  | append_singleton log x ih =>
    rw [inside_concat, hk, ih, seen_append, seen_cons, seen_nil, List.append_nil, List.append_assoc]

end Interpret

theorem prefix_inside (k : (q : Q) → Program Q' A' (A q)) (env : Env A') (h : List (Exchange A'))
    (log : List (Exchange A)) : h <+: inside k env h log := by
  induction log using List.reverseRecOn with
  | nil => exact List.prefix_refl h
  | append_singleton log x ih =>
    rw [inside_concat]
    exact ih.trans (prefix_run _ _ _)

/-- An observer counts what it sees. -/
theorem length_seen (f : Q → Option β) (h : List (Exchange A)) :
    (seen f h).length = asked (fun q => (f q).isSome) h := by
  rw [seen, asked, List.length_filterMap_eq_countP]

/-- Below nothing else is asked than what the lower layers ask. -/
protected theorem Asks.interpret {k : (q : Q) → Program Q' A' (A q)} {P : Q' → Prop} (hk : ∀ q, (k q).Asks P)
    (p : Program Q A α) : (Program.interpret k p).Asks P := by
  induction p with
  | done a => trivial
  | ask q next ih => exact (hk q).bind ih

/-- The run of the program keeps `I`. -/
protected def Keeps (env : Env A) (I : List (Exchange A) → Prop) (p : Program Q A α) : Prop :=
  ∀ h, I h → I (run env h p).1

namespace Keeps

variable {env : Env A} {I : List (Exchange A) → Prop}

protected theorem done (a : α) : Program.Keeps env I (done a) := fun _ h0 => h0

protected theorem bind {p : Program Q A α} {f : α → Program Q A β} (hp : p.Keeps env I)
    (hf : ∀ a, (f a).Keeps env I) : (p >>= f).Keeps env I := by
  intro h h0
  rw [run_bind]
  exact hf _ _ (hp h h0)

protected theorem interpret {env : Env A'} {I : List (Exchange A') → Prop} {k : (q : Q) → Program Q' A' (A q)}
    (hk : ∀ q, (k q).Keeps env I) (p : Program Q A α) : (Program.interpret k p).Keeps env I := by
  induction p with
  | done a => exact .done a
  | ask q next ih => exact (hk q).bind ih

end Keeps

end Program

namespace Code

open Program

variable {Q Q' : Type} {A : Q → Type} {A' : Q' → Type} {ε α β : Type}

def interpret (k : (q : Q) → Program Q' A' (A q)) (x : Code Q A ε α) : Code Q' A' ε α :=
  ExceptT.mk (Program.interpret k x.run)

/-- **Adequacy** for code. -/
theorem exec_interpret {k : (q : Q) → Program Q' A' (A q)} {env : Env A'} {h : List (Exchange A')}
    (x : Code Q A ε α) : exec env h (interpret k x) =
      (inside k env h (exec (outside k env h) [] x).1, (exec (outside k env h) [] x).2) :=
  run_interpret x.run []

theorem Asks.interpret {k : (q : Q) → Program Q' A' (A q)} {P : Q' → Prop} (hk : ∀ q, (k q).Asks P)
    (x : Code Q A ε α) : Asks P (interpret k x) := Program.Asks.interpret hk x.run

/-- The run of the code keeps `I`. -/
def Keeps (env : Env A) (I : List (Exchange A) → Prop) (x : Code Q A ε α) : Prop :=
  ∀ h, I h → I (exec env h x).1

namespace Keeps

variable {env : Env A} {I : List (Exchange A) → Prop}

theorem pure (a : α) : Keeps env I (Pure.pure a : Code Q A ε α) := fun _ h0 => h0

theorem ofExcept (r : Except ε α) : Keeps env I (Code.ofExcept r : Code Q A ε α) := by
  intro h h0
  rw [exec_ofExcept]
  exact h0

theorem perform {q : Q} (hq : ∀ h, I h → I (h ++ [⟨q, env h q⟩])) :
    Keeps env I (perform q : Code Q A ε (A q)) := hq

theorem bind {x : Code Q A ε α} {f : α → Code Q A ε β} (hx : Keeps env I x) (hf : ∀ a, Keeps env I (f a)) :
    Keeps env I (x >>= f) := by
  intro h h0
  have hI := hx h h0
  rw [exec_bind]
  generalize exec env h x = r at hI
  rcases r with ⟨h', a | e⟩
  · exact hI
  · exact hf _ _ hI

theorem interpret {env : Env A'} {I : List (Exchange A') → Prop} {k : (q : Q) → Program Q' A' (A q)}
    (hk : ∀ q, (k q).Keeps env I) (x : Code Q A ε α) : Keeps env I (Code.interpret k x) :=
  Program.Keeps.interpret hk x.run

end Keeps

/-- No run of the code asks more than `n` questions of this kind. -/
def AtMost (p : Q → Bool) (n : ℕ) (x : Code Q A ε α) : Prop :=
  ∀ (env : Env A) (h : List (Exchange A)), asked p (exec env h x).1 ≤ asked p h + n

section AtMost

variable {p : Q → Bool} {n m : ℕ}

theorem AtMost.ofAsks {x : Code Q A ε α} (hx : Asks (fun q => p q = false) x) : AtMost p 0 x :=
  fun env h => (hx.asked_eq env h).le

theorem AtMost.mono {x : Code Q A ε α} (hx : AtMost p n x) (h : n ≤ m) : AtMost p m x :=
  fun env g => (hx env g).trans (by omega)

theorem AtMost.perform (q : Q) : AtMost p 1 (perform q : Code Q A ε (A q)) := by
  intro env h
  rw [exec_perform, asked_append, asked_cons, asked_nil]
  split_ifs <;> omega

theorem AtMost.bind {x : Code Q A ε α} {f : α → Code Q A ε β} (hx : AtMost p n x) (hf : ∀ a, AtMost p m (f a)) :
    AtMost p (n + m) (x >>= f) := by
  intro env h
  have h₁ := hx env h
  rw [exec_bind]
  generalize exec env h x = r at h₁
  rcases r with ⟨h', a | e⟩
  · exact h₁.trans (by omega)
  · have h₂ := hf e env h'
    simp only at h₁ ⊢
    omega

theorem AtMost.attempt {x : Code Q A ε α} (hx : AtMost p n x) : AtMost p n (attempt x) := by
  intro env h
  rw [exec_attempt]
  exact hx env h

end AtMost

/-- Code that does not ask what an observer sees does not change what it sees. -/
theorem Asks.seen_eq {f : Q → Option β} {x : Code Q A ε α} (hx : Asks (fun q => f q = none) x) (env : Env A)
    (h : List (Exchange A)) : seen f (exec env h x).1 = seen f h := by
  refine hx.invariant env (I := fun h' => seen f h' = seen f h) (fun h' q hq hI => ?_) rfl
  rw [seen_append, seen_cons, seen_nil, hq, Option.toList_none, List.append_nil, List.append_nil, hI]

end Code

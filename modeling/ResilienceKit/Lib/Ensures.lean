import ResilienceKit.Lib.Pool
import ResilienceKit.Lib.Relay

/-!
# Postconditions — how code ends, whatever it is answered

`Ensures Φ h x` says that `x`, run after the history `h` of questions and answers, ends as `Φ` says, for
every pattern of answers; `Φ` sees the whole history and the result.  The `ensures_*` lemmas compute it along
the code, `Ensures.translate` carries it to other questions, and `Pool.ensures` to every call of a pool.
-/

namespace Program

variable {Q : Type} {A : Q → Type} {α β : Type}

protected def Ensures (Φ : List (Exchange A) → α → Prop) : List (Exchange A) → Program Q A α → Prop
  | h, done a => Φ h a
  | h, ask q next => ∀ a, Program.Ensures Φ (h ++ [⟨q, a⟩]) (next a)

protected theorem ensures_bind {Φ : List (Exchange A) → β → Prop} {h : List (Exchange A)} (p : Program Q A α)
    (f : α → Program Q A β) : Program.Ensures Φ h (p >>= f) ↔
      Program.Ensures (fun h a => Program.Ensures Φ h (f a)) h p := by
  induction p generalizing h with
  | done a => exact Iff.rfl
  | ask q next ih => exact forall_congr' fun a => ih a

theorem Ensures.mono {Φ Ψ : List (Exchange A) → α → Prop} {h : List (Exchange A)} {p : Program Q A α}
    (hp : Program.Ensures Φ h p) (hΦ : ∀ h a, Φ h a → Ψ h a) : Program.Ensures Ψ h p := by
  induction p generalizing h with
  | done a => exact hΦ h a hp
  | ask q next ih => exact fun a => ih a (hp a)

/-- The history only grows. -/
theorem Ensures.grown {Φ : List (Exchange A) → α → Prop} {h : List (Exchange A)} {p : Program Q A α}
    (hp : Program.Ensures Φ h p) : Program.Ensures (fun h' a => h <+: h' ∧ Φ h' a) h p := by
  induction p generalizing h with
  | done a => exact ⟨List.prefix_refl h, hp⟩
  | ask q next ih =>
    exact fun a => (ih a (hp a)).mono fun h' b hb => ⟨(List.prefix_append h _).trans hb.1, hb.2⟩

/-- A run against an environment ends as every run does. -/
theorem Ensures.run {Φ : List (Exchange A) → α → Prop} {h : List (Exchange A)} {p : Program Q A α}
    (hp : Program.Ensures Φ h p) (env : Env A) : Φ (run env h p).1 (run env h p).2 := by
  induction p generalizing h with
  | done a => exact hp
  | ask q next ih => exact ih _ (hp (env h q))

/-- And so does a run of any surroundings. -/
theorem Ensures.runs {Φ : List (Exchange A) → α → Prop} {h log : List (Exchange A)} {a : α} {p : Program Q A α}
    (hp : Program.Ensures Φ h p) (hruns : p.Runs log a) : Φ (h ++ log) a := by
  induction p generalizing h log with
  | done b =>
    obtain ⟨rfl, rfl⟩ := hruns
    rw [List.append_nil]
    exact hp
  | ask q next ih =>
    obtain ⟨b, rest, rfl, hrest⟩ := hruns
    rw [List.append_cons]
    exact ih b (hp b) hrest

/-- **Completeness**: what holds against all environments is ensured, if there is one. -/
theorem ensures_of_run (env₀ : Env A) {Φ : List (Exchange A) → α → Prop} {h : List (Exchange A)}
    {p : Program Q A α} (hp : ∀ env, Φ (Program.run env h p).1 (Program.run env h p).2) :
    Program.Ensures Φ h p := by
  classical
  induction p generalizing h with
  | done a => exact hp env₀
  | ask q next ih =>
    intro a
    refine ih a fun env => ?_
    -- the environment that answers `a` here, and then as `env`
    have hthis := hp (Function.update env h (Function.update (env h) q a))
    rw [Program.run, Function.update_self, Function.update_self] at hthis
    have hrest : ∀ h', h ++ [⟨q, a⟩] <+: h' →
        Function.update env h (Function.update (env h) q a) h' = env h' := by
      intro h' hprefix
      refine Function.update_of_ne ?_ _ _
      rintro rfl
      exact absurd hprefix.length_le (by simp)
    rwa [run_congr (next a) hrest] at hthis

end Program

namespace Code

open Program

variable {Q : Type} {A : Q → Type} {ε α β : Type}

/-- A postcondition for each of the two ways to end. -/
def ends (ok : List (Exchange A) → α → Prop) (error : List (Exchange A) → ε → Prop)
    (h : List (Exchange A)) : Except ε α → Prop
  | .ok a => ok h a
  | .error e => error h e

def Ensures (Φ : List (Exchange A) → Except ε α → Prop) (h : List (Exchange A)) (x : Code Q A ε α) : Prop :=
  Program.Ensures Φ h x.run

variable {Φ Ψ : List (Exchange A) → Except ε α → Prop} {h : List (Exchange A)}

theorem Ensures.mono {x : Code Q A ε α} (hx : Ensures Φ h x) (hΦ : ∀ h r, Φ h r → Ψ h r) : Ensures Ψ h x :=
  Program.Ensures.mono hx hΦ

theorem Ensures.grown {x : Code Q A ε α} (hx : Ensures Φ h x) : Ensures (fun h' r => h <+: h' ∧ Φ h' r) h x :=
  Program.Ensures.grown hx

theorem Ensures.exec {x : Code Q A ε α} (hx : Ensures Φ h x) (env : Env A) :
    Φ (exec env h x).1 (exec env h x).2 :=
  Program.Ensures.run hx env

theorem Ensures.runs {x : Code Q A ε α} (hx : Ensures Φ h x) {log : List (Exchange A)} {r : Except ε α}
    (hruns : Runs x log r) : Φ (h ++ log) r :=
  Program.Ensures.runs hx hruns

theorem ensures_of_exec (env₀ : Env A) {x : Code Q A ε α}
    (hx : ∀ env : Env A, Φ (Code.exec env h x).1 (Code.exec env h x).2) : Ensures Φ h x :=
  Program.ensures_of_run env₀ hx

@[simp] theorem ensures_pure (a : α) : Ensures Φ h (pure a) ↔ Φ h (.ok a) := Iff.rfl

@[simp] theorem ensures_throw (e : ε) : Ensures Φ h (throw e) ↔ Φ h (.error e) := Iff.rfl

@[simp] theorem ensures_ofExcept (r : Except ε α) : Ensures Φ h (Code.ofExcept r) ↔ Φ h r := by
  cases r <;> exact Iff.rfl

@[simp] theorem ensures_perform (q : Q) {Φ : List (Exchange A) → Except ε (A q) → Prop} :
    Ensures Φ h (perform q) ↔ ∀ a, Φ (h ++ [⟨q, a⟩]) (.ok a) := Iff.rfl

/-- Code that begins with a question. -/
theorem ensures_perform_bind (q : Q) (f : A q → Code Q A ε α) :
    Ensures Φ h (perform q >>= f) ↔ ∀ a, Ensures Φ (h ++ [⟨q, a⟩]) (f a) := Iff.rfl

theorem ensures_bind {Φ : List (Exchange A) → Except ε β → Prop} (x : Code Q A ε α)
    (f : α → Code Q A ε β) : Ensures Φ h (x >>= f) ↔
      Ensures (ends (fun h a => Ensures Φ h (f a)) fun h e => Φ h (.error e)) h x := by
  unfold Ensures
  rw [ExceptT.run_bind, Program.ensures_bind]
  constructor <;> refine fun hx => Program.Ensures.mono hx fun h r hr => ?_ <;> cases r <;> exact hr

theorem ensures_tryElse {Φ : List (Exchange A) → Except ε β → Prop} (body : Code Q A ε α)
    (handler : ε → Code Q A ε β) (orElse : α → Code Q A ε β) :
    Ensures Φ h (tryElse body handler orElse) ↔
      Ensures (ends (fun h a => Ensures Φ h (orElse a)) fun h e => Ensures Φ h (handler e)) h body := by
  unfold Ensures tryElse
  rw [ExceptT.run_mk, Program.ensures_bind]
  constructor <;> refine fun hx => Program.Ensures.mono hx fun h r hr => ?_ <;> cases r <;> exact hr

/-- **Invariant rule**: what every question of the code keeps, with any answer, holds at the end. -/
theorem Asks.ensures {P : Q → Prop} {I : List (Exchange A) → Prop} {x : Code Q A ε α} (hx : Asks P x)
    (hstep : ∀ h q a, P q → I h → I (h ++ [⟨q, a⟩])) (h0 : I h) : Ensures (fun h _ => I h) h x := by
  have hprog : ∀ (p : Program Q A (Except ε α)) h, Program.Asks P p → I h →
      Program.Ensures (fun h _ => I h) h p := by
    intro p
    induction p with
    | done r => exact fun h _ hI => hI
    | ask q next ih => exact fun h hp hI a => ih a _ (hp.2 a) (hstep h q a hp.1 hI)
  exact hprog x.run h hx h0

/-- Nothing is promised. -/
theorem ensures_true (x : Code Q A ε α) : Ensures (fun _ _ => True) h x := by
  have hprog : ∀ (p : Program Q A (Except ε α)) h, Program.Ensures (fun _ _ => True) h p := by
    intro p
    induction p with
    | done r => exact fun h => trivial
    | ask q next ih => exact fun h a => ih a _
  exact hprog x.run h

/-- Code of which only the rest matters. -/
theorem ensures_bind_of {Φ : List (Exchange A) → Except ε β → Prop} {x : Code Q A ε α}
    {f : α → Code Q A ε β} (hf : ∀ h a, Ensures Φ h (f a)) (he : ∀ h e, Φ h (.error e)) :
    Ensures Φ h (x >>= f) := by
  refine (ensures_bind x f).mpr ((ensures_true x).mono fun h r _ => ?_)
  cases r with
  | ok a => exact hf h a
  | error e => exact he h e

/-- What holds of the code in its own questions holds of its translation, where `I` relates the two
histories. -/
theorem Ensures.translate {Q' : Type} {A' : Q' → Type} {k : (q : Q) → Code Q' A' ε (A q)}
    {Ψ : List (Exchange A') → Except ε α → Prop} {I : List (Exchange A) → List (Exchange A') → Prop}
    {h' : List (Exchange A')} {x : Code Q A ε α} (hx : Ensures Φ h x) (hI : I h h')
    (hk : ∀ h h' q, I h h' →
      Ensures (ends (fun g a => I (h ++ [⟨q, a⟩]) g) fun g e => Ψ g (.error e)) h' (k q))
    (hend : ∀ h h' r, I h h' → Φ h r → Ψ h' r) : Ensures Ψ h' (translate k x) := by
  have hprog : ∀ (p : Program Q A (Except ε α)) h h', Program.Ensures Φ h p → I h h' →
      Program.Ensures Ψ h' (Program.translate (fun q => (k q).run) p) := by
    intro p
    induction p with
    | done r => exact fun h h' hp hI => hend h h' r hI hp
    | ask q next ih =>
      intro h h' hp hI
      rw [Program.translate]
      refine (Program.ensures_bind _ _).mpr (Program.Ensures.mono (hk h h' q hI) fun g r hr => ?_)
      cases r with
      | ok a => exact ih a _ g (hp a) hr
      | error e => exact hr
  exact hprog x.run h h' hx hI

end Code

namespace Pool

open Program
open Mealy (Timed)

variable {σ τ Q α : Type} {A : Q → Type} {serve : τ → σ → (q : Q) → A q → A q × σ} {prog : Program Q A α}
  {init : σ}

/-- Every call that has ended ended as the program ensures. -/
theorem ensures {Φ : List (Exchange A) → α → Prop} (hp : Program.Ensures Φ [] prog)
    (es : List (Timed τ (Ev Q A))) (id : ℕ) (a : α)
    (hdone : (((machine serve prog init).exec (machine serve prog init).init es).threads id).bind result = some a) :
    Φ (exchanges id ((machine serve prog init).log (machine serve prog init).init es)) a := by
  obtain ⟨p, hp', hres⟩ := Option.bind_eq_some_iff.mp hdone
  have hown := own_induct (I := fun h p => Program.Ensures Φ h p) hp (fun _ _ _ a hI => hI a) es id p hp'
  cases p with
  | done b =>
    obtain rfl : b = a := Option.some.inj hres
    exact hown
  | ask q next => cases hres

end Pool

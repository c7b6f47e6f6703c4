import ResilienceKit.Lib.Program

/-!
# Relay — code whose questions pass through a wrapper

`relay f back s x` is `x` with every question `q` asked as `f s q`; `back` has the answer that `x` gets and
what the wrapper remembers.  A wrapper without memory passes through `try` (`relay_tryElse`), and what a
wrapper does to questions carries over to all questions of the code (`Asks.relay`).

`translate k x` is `x` with code in place of every question, over questions of another type.
-/

namespace Program

variable {Q : Type} {A : Q → Type} {α β σ : Type}
  (f : σ → Q → Q) (back : (s : σ) → (q : Q) → A (f s q) → A q × σ)

protected def relay : σ → Program Q A α → Program Q A α
  | _, done a => done a
  | s, ask q next => ask (f s q) fun a => Program.relay (back s q a).2 (next (back s q a).1)

variable {f back}

/-- Every program satisfies what all questions satisfy. -/
protected theorem asks_of_forall {P : Q → Prop} (hP : ∀ q, P q) (p : Program Q A α) : p.Asks P := by
  induction p with
  | done a => trivial
  | ask q next ih => exact ⟨hP q, ih⟩

theorem Asks.relay {P P' : Q → Prop} {p : Program Q A α} (hp : p.Asks P)
    (hf : ∀ s q, P q → P' (f s q)) (s : σ) : (Program.relay f back s p).Asks P' := by
  induction p generalizing s with
  | done a => trivial
  | ask q next ih => exact ⟨hf s q hp.1, fun a => ih _ (hp.2 _) _⟩

/-- A wrapper without memory wraps the parts. -/
protected theorem relay_bind {f : Unit → Q → Q} {back : (s : Unit) → (q : Q) → A (f s q) → A q × Unit}
    (p : Program Q A α) (k : α → Program Q A β) :
    Program.relay f back () (p >>= k) = Program.relay f back () p >>= fun a => Program.relay f back () (k a) := by
  induction p with
  | done a => rfl
  | ask q next ih => exact congrArg (ask (f () q)) (funext fun a => ih _)

/-- Code in place of every question; what the code raises ends the program. -/
protected def translate {Q' : Type} {A' : Q' → Type} {ε : Type} (k : (q : Q) → Program Q' A' (Except ε (A q))) :
    Program Q A (Except ε α) → Program Q' A' (Except ε α)
  | done r => done r
  | ask q next => k q >>= fun
    | .ok a => Program.translate k (next a)
    | .error e => done (.error e)

/-- What a wrapper that only changes answers makes of the exchanges that pass through it. -/
def told (back : σ → (q : Q) → A q → A q × σ) : σ → List (Exchange A) → List (Exchange A)
  | _, [] => []
  | s, x :: log => ⟨x.1, (back s x.1 x.2).1⟩ :: told back (back s x.1 x.2).2 log

/-- The wrapped program runs on what it is told. -/
protected theorem runs_relay {back : σ → (q : Q) → A q → A q × σ} {p : Program Q A α} {s : σ}
    {log : List (Exchange A)} {b : α} :
    (Program.relay (fun _ q => q) back s p).Runs log b ↔ p.Runs (told back s log) b := by
  induction p generalizing s log with
  | done a => cases log <;> simp [Program.relay, Program.Runs, told]
  | ask q next ih =>
    constructor
    · rintro ⟨a, rest, rfl, hrest⟩
      exact ⟨_, _, rfl, ih _ |>.mp hrest⟩
    · rintro ⟨a, rest, hlog, hrest⟩
      cases log with
      | nil => cases hlog
      | cons x log =>
        obtain ⟨q', a'⟩ := x
        obtain ⟨hx, rfl⟩ := List.cons.inj hlog
        cases hx
        exact ⟨a', log, rfl, ih _ |>.mpr hrest⟩

/-- An observer of the wrapped program sees what one of the program itself sees, through the wrapper. -/
protected theorem runs_of_relay {f : σ → Q → Q} {back : (s : σ) → (q : Q) → A (f s q) → A q × σ}
    {φ ψ : Q → Option β} (hf : ∀ s q, φ (f s q) = ψ q) {p : Program Q A α} {s : σ} {log : List (Exchange A)}
    {b : α} (hr : (Program.relay f back s p).Runs log b) :
    ∃ inner, p.Runs inner b ∧ seen φ log = seen ψ inner := by
  induction p generalizing s log with
  | done a =>
    obtain ⟨rfl, hb⟩ := hr
    exact ⟨[], ⟨rfl, hb⟩, rfl⟩
  | ask q next ih =>
    obtain ⟨a, rest, rfl, hrest⟩ := hr
    obtain ⟨inner, hruns, hseen⟩ := ih _ hrest
    refine ⟨⟨q, (back s q a).1⟩ :: inner, ⟨_, _, rfl, hruns⟩, ?_⟩
    rw [seen_cons, seen_cons, hf, hseen]

end Program

namespace Code

open Program

variable {Q : Type} {A : Q → Type} {ε α β σ : Type}

def relay (f : σ → Q → Q) (back : (s : σ) → (q : Q) → A (f s q) → A q × σ) (s : σ)
    (x : Code Q A ε α) : Code Q A ε α :=
  ExceptT.mk (Program.relay f back s x.run)

theorem asks_of_forall {P : Q → Prop} (hP : ∀ q, P q) (x : Code Q A ε α) : Asks P x :=
  Program.asks_of_forall hP x.run

theorem Asks.relay {f : σ → Q → Q} {back : (s : σ) → (q : Q) → A (f s q) → A q × σ} {P P' : Q → Prop}
    {x : Code Q A ε α} (hx : Asks P x) (hf : ∀ s q, P q → P' (f s q)) (s : σ) :
    Asks P' (relay f back s x) :=
  Program.Asks.relay hx hf s

theorem runs_relay {back : σ → (q : Q) → A q → A q × σ} {x : Code Q A ε α} {s : σ}
    {log : List (Exchange A)} {r : Except ε α} :
    Runs (relay (fun _ q => q) back s x) log r ↔ Runs x (told back s log) r := Program.runs_relay

theorem runs_of_relay {f : σ → Q → Q} {back : (s : σ) → (q : Q) → A (f s q) → A q × σ} {φ ψ : Q → Option β}
    (hf : ∀ s q, φ (f s q) = ψ q) {x : Code Q A ε α} {s : σ} {log : List (Exchange A)} {r : Except ε α}
    (hr : Runs (relay f back s x) log r) : ∃ inner, Runs x inner r ∧ seen φ log = seen ψ inner :=
  Program.runs_of_relay hf hr

section Translate

variable {Q' : Type} {A' : Q' → Type} (k : (q : Q) → Code Q' A' ε (A q))

def translate (x : Code Q A ε α) : Code Q' A' ε α :=
  ExceptT.mk (Program.translate (fun q => (k q).run) x.run)

variable {k}

theorem Asks.translate {P : Q → Prop} {P' : Q' → Prop} {x : Code Q A ε α} (hx : Asks P x)
    (hk : ∀ q, P q → Asks P' (k q)) : Asks P' (translate k x) := by
  have hprog : ∀ p : Program Q A (Except ε α), p.Asks P →
      (Program.translate (fun q => (k q).run) p).Asks P' := by
    intro p hp
    induction p with
    | done r => trivial
    | ask q next ih =>
      rw [Program.translate]
      refine Program.Asks.bind (hk q hp.1) fun r => ?_
      cases r with
      | ok a => exact ih a (hp.2 a)
      | error e => trivial
  exact hprog x.run hx

end Translate

section Stateless

variable {f : Unit → Q → Q} {back : (s : Unit) → (q : Q) → A (f s q) → A q × Unit}

@[simp] theorem relay_pure (a : α) : relay f back () (pure a : Code Q A ε α) = pure a := rfl

@[simp] theorem relay_throw (e : ε) : relay f back () (throw e : Code Q A ε α) = throw e := rfl

theorem relay_tryElse (body : Code Q A ε α) (handler : ε → Code Q A ε β) (orElse : α → Code Q A ε β) :
    relay f back () (tryElse body handler orElse) =
      tryElse (relay f back () body) (fun e => relay f back () (handler e))
        fun a => relay f back () (orElse a) := by
  unfold relay tryElse
  rw [ExceptT.run_mk, Program.relay_bind]
  refine congrArg _ (congrArg _ (funext fun r => ?_))
  cases r <;> rfl

theorem relay_bind (x : Code Q A ε α) (k : α → Code Q A ε β) :
    relay f back () (x >>= k) = relay f back () x >>= fun a => relay f back () (k a) := by
  unfold relay
  refine (Program.relay_bind _ _).trans (congrArg _ (funext fun r => ?_))
  cases r <;> rfl

end Stateless

end Code

import Mathlib.Logic.Function.Basic

/-!
# Handling — exceptions raised while others are handled

Code runs with the exception that is being handled around it, in its own frames or in those of the
callers that await it.  Raising an exception while another is handled sets its `__context__` to the other.
-/

/-- The contexts of the exceptions, and whatever else code can change. -/
@[ext] structure Heap (E σ : Type) where
  context : E → Option E
  world : σ

/-- Code that is told the exception being handled, if any. -/
def Handling (E σ α : Type) := Option E → Heap E σ → Heap E σ × Except E α

namespace Handling

variable {E σ α β : Type}

instance : Monad (Handling E σ) where
  pure a := fun _ s => (s, .ok a)
  bind x f := fun handled s =>
    match x handled s with
    | (s, .ok a) => f a handled s
    | (s, .error e) => (s, .error e)

/-- The contexts once `e` is raised.  Where `e` is itself the context of the handled exception, that link is cut; a
longer chain from the handled exception back to `e` would stay, where Python cuts it as well. -/
def chain [DecidableEq E] (context : E → Option E) (e : E) : Option E → E → Option E
  | none => context
  | some o =>
    if o = e then context
    else Function.update (if context o = some e then Function.update context o none else context) e (some o)

/-- `raise e` -/
def raise [DecidableEq E] (e : E) : Handling E σ α :=
  fun handled s => ({ s with context := chain s.context e handled }, .error e)

/-- `raise`, in the handler of `e`. -/
def reraise (e : E) : Handling E σ α := fun _ s => (s, .error e)

/-- `try: x except BaseException as e: h(e)` -/
def tryExcept (x : Handling E σ α) (h : E → Handling E σ α) : Handling E σ α :=
  fun handled s =>
    match x handled s with
    | (s, .ok a) => (s, .ok a)
    | (s, .error e) => h e (some e) s

/-- `e.__context__` -/
def contextOf (e : E) : Handling E σ (Option E) := fun _ s => (s, .ok (s.context e))

/-- A step on the world that cannot raise. -/
def step (f : σ → σ × α) : Handling E σ α := fun _ s => ({ s with world := (f s.world).1 }, .ok (f s.world).2)

variable {handled : Option E} {s s' : Heap E σ}

theorem bind_ok {x : Handling E σ α} {f : α → Handling E σ β} {a : α} (h : x handled s = (s', .ok a)) :
    (x >>= f) handled s = f a handled s' := by
  show (match x handled s with
    | (s, .ok a) => f a handled s
    | (s, .error e) => (s, .error e)) = _
  rw [h]

theorem bind_error {x : Handling E σ α} {f : α → Handling E σ β} {e : E} (h : x handled s = (s', .error e)) :
    (x >>= f) handled s = (s', .error e) := by
  show (match x handled s with
    | (s, .ok a) => f a handled s
    | (s, .error e) => (s, .error e)) = _
  rw [h]

theorem contextOf_bind {e : E} {g : Option E → Handling E σ β} :
    (contextOf e >>= g) handled s = g (s.context e) handled s := rfl

theorem tryExcept_ok {x : Handling E σ α} {h : E → Handling E σ α} {a : α}
    (hx : x handled s = (s', .ok a)) : tryExcept x h handled s = (s', .ok a) := by
  rw [tryExcept, hx]

theorem tryExcept_error {x : Handling E σ α} {h : E → Handling E σ α} {e : E}
    (hx : x handled s = (s', .error e)) : tryExcept x h handled s = h e (some e) s' := by
  rw [tryExcept, hx]

section Chain

variable [DecidableEq E] {context : E → Option E} {e o : E}

/-- What is handled becomes the context. -/
theorem chain_self (h : o ≠ e) : chain context e (some o) e = some o := by
  rw [chain, if_neg h, Function.update_self]

theorem chain_none : chain context e none = context := rfl

end Chain

end Handling

import Mathlib.Logic.Function.Basic
import Mathlib.Order.Lattice

/-!
# Maps whose entries have deadlines

`m k` has the value under `k` and its deadline, if it has one; the entry is there before its deadline and
gone from it on.  `sweep now m` takes out what is gone.  Maps with the same sweep cannot be told apart from
`now` on (`sweep_eq_later`), and updates keep that (`sweep_update`).
-/

variable {K V T : Type*} [LinearOrder T]

/-- The deadline has not come. -/
def Expiring.live (now : T) : Option T → Bool
  | none => true
  | some x => decide (now < x)

/-- A map with deadlines. -/
abbrev Expiring (K V T : Type*) := K → Option (V × Option T)

namespace Expiring

theorem live_of_le {now t : T} {x : Option T} (hle : now ≤ t) (h : live t x = true) : live now x = true := by
  cases x with
  | none => rfl
  | some x => exact decide_eq_true (hle.trans_lt (of_decide_eq_true h))

/-- The entries that are not gone. -/
def sweep (now : T) (m : Expiring K V T) : Expiring K V T := fun k => (m k).filter fun e => live now e.2

variable {now t : T} {m m' : Expiring K V T} {k : K}

theorem sweep_apply (now : T) (m : Expiring K V T) (k : K) :
    sweep now m k = (m k).filter fun e => live now e.2 := rfl

theorem sweep_eq_some {e : V × Option T} : sweep now m k = some e ↔ m k = some e ∧ live now e.2 = true :=
  Option.filter_eq_some_iff

theorem sweep_eq_none (h : ∀ e, m k = some e → live now e.2 = false) : sweep now m k = none := by
  rw [sweep_apply, Option.filter_eq_none_iff]
  intro e he
  rw [h e he]
  exact Bool.false_ne_true

/-- Sweeping earlier makes no difference. -/
theorem sweep_sweep (hle : now ≤ t) : sweep t (sweep now m) = sweep t m := by
  funext k
  rw [sweep_apply, sweep_apply, sweep_apply, Option.filter_filter]
  congr 1
  funext e
  cases h : live t e.2 with
  | false => exact Bool.and_false _
  | true => rw [live_of_le hle h, Bool.and_self]

theorem sweep_eq_later (h : sweep now m = sweep now m') (hle : now ≤ t) : sweep t m = sweep t m' := by
  rw [← sweep_sweep hle, h, sweep_sweep hle]

theorem sweep_update [DecidableEq K] (h : sweep now m = sweep now m') (k : K) (e : Option (V × Option T)) :
    sweep now (Function.update m k e) = sweep now (Function.update m' k e) := by
  funext j
  by_cases hj : j = k
  · subst hj
    rw [sweep_apply, sweep_apply, Function.update_self, Function.update_self]
  · have hm := congrFun h j
    rw [sweep_apply, sweep_apply] at hm ⊢
    rwa [Function.update_of_ne hj, Function.update_of_ne hj]

/-- Dropping what is gone makes no difference. -/
theorem sweep_drop [DecidableEq K] (h : sweep now m k = none) :
    sweep now (Function.update m k none) = sweep now m := by
  funext j
  by_cases hj : j = k
  · subst hj
    rw [h, sweep_apply, Function.update_self]
    rfl
  · rw [sweep_apply, Function.update_of_ne hj]
    rfl

end Expiring

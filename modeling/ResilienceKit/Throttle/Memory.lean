import Mathlib.Data.Rat.Floor
import Mathlib.Logic.Function.Basic
import ResilienceKit.Lib.Binary64
import ResilienceKit.Throttle.Base

/-!
# Throttle.Memory — the in-process sliding window

`InMemoryAsyncThrottle` keeps for each key a deque of admission times.  A check drops the entries that
are too old from its head, counts what remains and appends itself when there is room.  Times are floats, and
what is added or subtracted is rounded to one.
-/

namespace ResilienceKit

open Mealy (Timed)
open Throttle
open Binary64 (add sub)

structure InMemoryAsyncThrottle where
  windows : String → Option (List ℚ) := fun _ => none

namespace InMemoryAsyncThrottle

/-- The deque of `key`, oldest entry first. -/
def window (s : InMemoryAsyncThrottle) (key : String) : List ℚ := (s.windows key).getD []

/-- The body of `check` on the deque of its key. -/
def checkWindow (now : ℚ) (rate : Rate) (window : List ℚ) : List ℚ × ThrottleDecision :=
  let cutoff := sub now rate.perSeconds
  let window := window.dropWhile fun a => decide (a < cutoff)
  let current : ℤ := window.length
  if current < rate.count then
    let window := window ++ [now]
    let oldest := window.headD now
    (window,
      { allowed := true
        remaining := rate.count - current - 1
        limit := rate.count
        resetAfter := max 0 (sub (add oldest rate.perSeconds) now)
        resetAt := pyInt (add oldest rate.perSeconds) })
  else
    let oldest := window.headD now
    (window,
      { allowed := false
        remaining := 0
        limit := rate.count
        resetAfter := max 0 (sub (add oldest rate.perSeconds) now)
        resetAt := pyInt (add oldest rate.perSeconds) })

def check (now : ℚ) (key : String) (rate : Rate) (s : InMemoryAsyncThrottle) :
    InMemoryAsyncThrottle × ThrottleDecision :=
  let (w, d) := checkWindow now rate (s.window key)
  (⟨Function.update s.windows key (some w)⟩, d)

def reset (key : String) (s : InMemoryAsyncThrottle) : InMemoryAsyncThrottle :=
  ⟨Function.update s.windows key none⟩

/-- What an operation answers. -/
inductive Ans
  | decided (d : ThrottleDecision)
  | resetDone
  deriving DecidableEq

def Ans.allowed : Ans → Bool
  | .decided d => d.allowed
  | .resetDone => false

/-- The throttle under a run of operations. -/
def throttle : Mealy InMemoryAsyncThrottle (Timed ℚ Op) Ans where
  init := {}
  step s e :=
    match e.ev with
    | .check key rate =>
      let (s, d) := check e.time key rate s
      (s, .decided d)
    | .reset key => (reset key s, .resetDone)

/-- A recorded operation. -/
abbrev Rec := Mealy.Step InMemoryAsyncThrottle (Timed ℚ Op) Ans

/-! ### What one operation does to the deques -/

@[simp] theorem next_check_self (s : InMemoryAsyncThrottle) (t : ℚ) (k : String) (r : Rate) :
    (throttle.next s ⟨t, .check k r⟩).window k = (checkWindow t r (s.window k)).1 := by
  simp [Mealy.next, throttle, check, window]

@[simp] theorem next_reset_self (s : InMemoryAsyncThrottle) (t : ℚ) (k : String) :
    (throttle.next s ⟨t, .reset k⟩).window k = [] := by
  simp [Mealy.next, throttle, reset, window]

@[simp] theorem out_check (s : InMemoryAsyncThrottle) (t : ℚ) (k : String) (r : Rate) :
    throttle.out s ⟨t, .check k r⟩ = .decided (checkWindow t r (s.window k)).2 := rfl

@[simp] theorem out_reset (s : InMemoryAsyncThrottle) (t : ℚ) (k : String) :
    throttle.out s ⟨t, .reset k⟩ = .resetDone := rfl

/-- Frame: an operation leaves the deques of the other keys alone. -/
theorem next_other {s : InMemoryAsyncThrottle} {e : Timed ℚ Op} {k : String} (h : e.ev.key ≠ k) :
    (throttle.next s e).window k = s.window k := by
  obtain ⟨t, op⟩ := e
  cases op with
  | check k' r =>
    have hk : k ≠ k' := fun he => h he.symm
    simp [Mealy.next, throttle, check, window, Function.update_of_ne hk]
  | reset k' =>
    have hk : k ≠ k' := fun he => h he.symm
    simp [Mealy.next, throttle, reset, window, Function.update_of_ne hk]

/-- The window that ends at `t` and is closed on both sides; its other end is the float `t - per_seconds`. -/
def win (perSeconds : ℚ) (t a : ℚ) : Bool := decide (sub t perSeconds ≤ a)

/-- A later window begins no earlier. -/
theorem cutoff_mono {perSeconds t t' : ℚ} (h : t ≤ t') : sub t perSeconds ≤ sub t' perSeconds :=
  Binary64.round_mono (sub_le_sub_right h perSeconds)

theorem leaving_win (perSeconds : ℚ) : Window.Leaving (win perSeconds) := by
  intro t t' a ht h
  have h' : sub t' perSeconds ≤ a := by simpa [win] using h
  have : sub t perSeconds ≤ a := (cutoff_mono ht).trans h'
  simpa [win] using this

/-! ### One check -/

variable {now : ℚ} {rate : Rate} {w : List ℚ}

theorem checkWindow_allowed_iff_length : (checkWindow now rate w).2.allowed = true ↔
    ((w.dropWhile fun a => decide (a < sub now rate.perSeconds)).length : ℤ) < rate.count := by
  by_cases hc : ((w.dropWhile fun a => decide (a < sub now rate.perSeconds)).length : ℤ) < rate.count
  · simp [checkWindow, hc]
  · simp [checkWindow, hc]

/-- A check prunes the head of the deque, and an admitted one joins it. -/
theorem checkWindow_deque : (checkWindow now rate w).1 =
    w.dropWhile (fun a => decide (a < sub now rate.perSeconds)) ++
      if (checkWindow now rate w).2.allowed = true then [now] else [] := by
  by_cases hc : ((w.dropWhile fun a => decide (a < sub now rate.perSeconds)).length : ℤ) < rate.count
  · rw [if_pos (checkWindow_allowed_iff_length.mpr hc)]
    simp [checkWindow, hc]
  · rw [if_neg (mt checkWindow_allowed_iff_length.mp hc)]
    simp [checkWindow, hc]

/-- **Spec of a check** on a sorted deque: the entries of the closed window decide. -/
theorem checkWindow_allowed (h : w.Pairwise (· ≤ ·)) : (checkWindow now rate w).2.allowed = true ↔
    (w.countP (win rate.perSeconds now) : ℤ) < rate.count := by
  rw [checkWindow_allowed_iff_length, Window.dropWhile_lt_eq_filter h, List.countP_eq_length_filter]
  rfl

theorem checkWindow_remaining (h : w.Pairwise (· ≤ ·)) : (checkWindow now rate w).2.remaining =
    if (checkWindow now rate w).2.allowed = true then
      rate.count - w.countP (win rate.perSeconds now) - 1
    else 0 := by
  have hd := Window.dropWhile_lt_eq_filter h (sub now rate.perSeconds)
  have hn : ((w.dropWhile fun a => decide (a < sub now rate.perSeconds)).length : ℤ) =
      w.countP (win rate.perSeconds now) := by
    rw [hd, List.countP_eq_length_filter]
    rfl
  by_cases hc : ((w.dropWhile fun a => decide (a < sub now rate.perSeconds)).length : ℤ) < rate.count
  · rw [if_pos (checkWindow_allowed_iff_length.mpr hc), ← hn]
    simp [checkWindow, hc]
  · rw [if_neg (mt checkWindow_allowed_iff_length.mp hc)]
    simp [checkWindow, hc]

end InMemoryAsyncThrottle

end ResilienceKit

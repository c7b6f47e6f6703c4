import Mathlib.Algebra.Order.Group.Int
import Mathlib.Data.List.Basic

/-!
# Async queues — a bounded queue that counts unfinished tasks

The queue of an event loop, used without waiting: `putNowait` and `getNowait` fail where the waiting forms
would wait, and `taskDone` fails where more tasks would be finished than were put.  `joined` says that a
`join()` does not wait.  A size that is not positive means no bound; a queue never outgrows its bound.

`Put` and `Got` say what the operations do; nothing else needs their definitions.
-/

structure AsyncQueue (α : Type*) where
  maxsize : ℤ
  items : List α
  unfinished : ℕ
  bounded : 0 < maxsize → (items.length : ℤ) ≤ maxsize

namespace AsyncQueue

variable {α : Type*}

def empty (maxsize : ℤ) : AsyncQueue α := ⟨maxsize, [], 0, fun h => by simp; omega⟩

variable (q : AsyncQueue α)

def full : Bool := 0 < q.maxsize && q.maxsize ≤ q.items.length

theorem lt_of_not_full {q : AsyncQueue α} (h : q.full = false) (hpos : 0 < q.maxsize) :
    (q.items.length : ℤ) < q.maxsize := by
  simp [full, hpos] at h
  exact h

/-- `put_nowait`: `none` stands for `QueueFull`. -/
def putNowait (x : α) : Option (AsyncQueue α) :=
  if h : q.full = false then
    some ⟨q.maxsize, q.items ++ [x], q.unfinished + 1, fun hpos => by
      have := lt_of_not_full h hpos
      rw [List.length_append, List.length_singleton]
      omega⟩
  else none

/-- `get_nowait`: `none` stands for `QueueEmpty`. -/
def getNowait : Option (α × AsyncQueue α) :=
  match h : q.items with
  | [] => none
  | x :: rest => some (x, ⟨q.maxsize, rest, q.unfinished, fun hpos => by
      have := q.bounded hpos
      rw [h, List.length_cons] at this
      omega⟩)

/-- `task_done`: `none` stands for the `ValueError` of one call too many. -/
def taskDone : Option (AsyncQueue α) :=
  if q.unfinished = 0 then none else some { q with unfinished := q.unfinished - 1 }

/-- `for _ in range(n): task_done()`. -/
def tasksDone : ℕ → AsyncQueue α → Option (AsyncQueue α)
  | 0, q => some q
  | n + 1, q => q.taskDone.bind (tasksDone n)

def joined : Bool := q.unfinished = 0

/-! ### What the operations do -/

/-- `q'` is `q` with `x` put behind the rest. -/
structure Put (q : AsyncQueue α) (x : α) (q' : AsyncQueue α) : Prop where
  maxsize : q'.maxsize = q.maxsize
  items : q'.items = q.items ++ [x]
  unfinished : q'.unfinished = q.unfinished + 1

/-- `q'` is `q` without its oldest item `x`. -/
structure Got (q : AsyncQueue α) (x : α) (q' : AsyncQueue α) : Prop where
  maxsize : q'.maxsize = q.maxsize
  items : q.items = x :: q'.items
  unfinished : q'.unfinished = q.unfinished

variable {q}

theorem putNowait_of_full (h : q.full = true) (x : α) : q.putNowait x = none := by
  simp [putNowait, h]

theorem putNowait_of_not_full (h : q.full = false) (x : α) :
    ∃ q', q.putNowait x = some q' ∧ q.Put x q' := by
  refine ⟨_, by rw [putNowait, dif_pos h], ?_⟩
  exact ⟨rfl, rfl, rfl⟩

theorem getNowait_of_ne_nil (h : q.items ≠ []) : ∃ x q', q.getNowait = some (x, q') := by
  unfold getNowait
  split
  · exact absurd (by assumption) h
  · exact ⟨_, _, rfl⟩

theorem got_of_getNowait {x : α} {q' : AsyncQueue α} (h : q.getNowait = some (x, q')) : q.Got x q' := by
  unfold getNowait at h
  split at h
  · cases h
  · cases h
    exact ⟨rfl, by assumption, rfl⟩

theorem taskDone_of_pos (h : 0 < q.unfinished) :
    q.taskDone = some { q with unfinished := q.unfinished - 1 } := by
  simp [taskDone, Nat.ne_of_gt h]

/-- No call of `task_done` is one too many while that many tasks are unfinished. -/
theorem tasksDone_of_le {n : ℕ} (h : n ≤ q.unfinished) :
    tasksDone n q = some { q with unfinished := q.unfinished - n } := by
  induction n generalizing q with
  | zero => rfl
  | succ n ih =>
    rw [tasksDone, taskDone_of_pos (by omega), Option.bind_some, ih (by simp; omega)]
    simp only [Option.some.injEq, mk.injEq, true_and]
    omega

/-- A full queue is exactly as long as its bound. -/
theorem length_of_full (h : q.full = true) : 0 < q.maxsize ∧ (q.items.length : ℤ) = q.maxsize := by
  simp only [full, Bool.and_eq_true, decide_eq_true_eq] at h
  exact ⟨h.1, le_antisymm (q.bounded h.1) h.2⟩

theorem items_ne_nil_of_full (h : q.full = true) : q.items ≠ [] := by
  intro hnil
  have := length_of_full h
  rw [hnil] at this
  simp at this
  omega

/-- Whoever takes an item out of a full queue can put another in. -/
theorem Got.not_full {x : α} {q' : AsyncQueue α} (hg : q.Got x q') : q'.full = false := by
  have hb := q.bounded
  rw [hg.items, ← hg.maxsize, List.length_cons] at hb
  simp only [full, Bool.and_eq_false_iff, decide_eq_false_iff_not]
  omega

end AsyncQueue

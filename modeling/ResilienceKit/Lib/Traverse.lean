import Mathlib.Data.List.Forall2

/-!
# Traverse — lists under code that may raise

`l.mapM f` in `Except ε` stops at the first element on which `f` raises.  It returns exactly when `f`
returns on every element (`mapM_isOk_iff`), and then what is left of the list after dropping the elements
that raise is the result itself (`survivors_of_mapM`).
-/

namespace Traverse

variable {α β ε : Type} {f : α → Except ε β} {l : List α} {r : List β}

@[simp] theorem not_isOk_error (e : ε) : ¬ ∃ a : α, (.error e : Except ε α) = .ok a := by
  rintro ⟨a, h⟩
  cases h

@[simp] theorem isOk_ok (a : α) : ∃ b : α, (.ok a : Except ε α) = .ok b := ⟨a, rfl⟩

/-- What returns has returned step by step. -/
theorem bind_eq_ok {x : Except ε α} {k : α → Except ε β} {b : β} (h : x >>= k = .ok b) :
    ∃ a, x = .ok a ∧ k a = .ok b := by
  cases x with
  | error e => cases h
  | ok a => exact ⟨a, rfl, h⟩

theorem isOk_map_iff {x : Except ε α} {g : α → β} :
    (∃ b, (do return g (← x) : Except ε β) = .ok b) ↔ ∃ a, x = .ok a := by
  cases x with
  | error e => exact iff_of_false (not_isOk_error e) (not_isOk_error e)
  | ok a => exact iff_of_true (isOk_ok (g a)) (isOk_ok a)

theorem mapM_ok_iff : l.mapM f = .ok r ↔ List.Forall₂ (fun a b => f a = .ok b) l r := by
  induction l generalizing r with
  | nil =>
    rw [List.mapM_nil, List.forall₂_nil_left_iff]
    exact ⟨fun h => (Except.ok.inj h).symm, fun h => congrArg Except.ok h.symm⟩
  | cons a l ih =>
    rw [List.mapM_cons, List.forall₂_cons_left_iff]
    cases ha : f a with
    | error e =>
      constructor
      · intro h
        cases h
      · rintro ⟨b, r', hb, -, -⟩
        cases hb
    | ok b =>
      cases hl : l.mapM f with
      | error e =>
        constructor
        · intro h
          cases h
        · rintro ⟨b', r', -, hr', -⟩
          rw [ih.mpr hr'] at hl
          cases hl
      | ok bs =>
        constructor
        · intro h
          obtain rfl : b :: bs = r := Except.ok.inj h
          exact ⟨b, bs, rfl, ih.mp hl, rfl⟩
        · rintro ⟨b', r', hb, hr', rfl⟩
          obtain rfl := Except.ok.inj hb
          rw [ih.mpr hr'] at hl
          obtain rfl := Except.ok.inj hl
          rfl

/-- The traversal returns exactly when `f` returns on every element. -/
theorem mapM_isOk_iff : (∃ r, l.mapM f = .ok r) ↔ ∀ a ∈ l, ∃ b, f a = .ok b := by
  constructor
  · rintro ⟨r, hr⟩ a ha
    obtain ⟨n, hn, rfl⟩ := List.mem_iff_getElem.mp ha
    have hall := mapM_ok_iff.mp hr
    exact ⟨_, hall.get hn (hall.length_eq ▸ hn)⟩
  · intro h
    induction l with
    | nil => exact ⟨[], rfl⟩
    | cons a l ih =>
      obtain ⟨b, hb⟩ := h a List.mem_cons_self
      obtain ⟨r, hr⟩ := ih fun a' ha' => h a' (List.mem_cons_of_mem a ha')
      exact ⟨b :: r, mapM_ok_iff.mpr (.cons hb (mapM_ok_iff.mp hr))⟩

/-- The elements on which `f` returns, mapped. -/
def survivors (f : α → Except ε β) (l : List α) : List β := l.filterMap fun a => (f a).toOption

theorem survivors_of_mapM (h : l.mapM f = .ok r) : survivors f l = r := by
  have hall := mapM_ok_iff.mp h
  clear h
  induction hall with
  | nil => rfl
  | cons hab _ ih =>
    rw [survivors, List.filterMap_cons, hab]
    exact congrArg _ ih

theorem survivors_eq_nil_iff : survivors f l = [] ↔ ∀ a ∈ l, ∃ e, f a = .error e := by
  rw [survivors, List.filterMap_eq_nil_iff]
  refine forall₂_congr fun a _ => ?_
  cases f a with
  | error e => simp [Except.toOption]
  | ok b => simp [Except.toOption]

/-- A map that raises nowhere. -/
theorem mapM_eq_map {g : α → β} (h : ∀ a ∈ l, f a = .ok (g a)) : l.mapM f = .ok (l.map g) := by
  rw [mapM_ok_iff, List.forall₂_map_right_iff, List.forall₂_same]
  exact h

end Traverse

import Mathlib.Data.Rat.Defs
import Mathlib.Algebra.Order.Ring.Unbundled.Rat
import Mathlib.Tactic.SplitIfs
import ResilienceKit.Lib.Mealy
import ResilienceKit.Lib.Window

/-!
# Throttle.Base — rates, decisions and the operations of a throttle

A run of a throttle is a list of timed `check` and `reset` operations on any keys.  `grants` reads off
a history which checks of a key, under the selected rates, were allowed since its last reset;
`admissions` selects every rate.
-/

namespace ResilienceKit

open Mealy (Timed)

/-- `count` events in `perSeconds` seconds. -/
structure Rate where
  count : ℤ
  perSeconds : ℚ
  deriving DecidableEq

structure ThrottleDecision where
  allowed : Bool
  remaining : ℤ
  limit : ℤ
  resetAfter : ℚ
  resetAt : ℤ
  deriving DecidableEq

namespace Throttle

/-- Python's `int(x)`: towards zero. -/
def pyInt (q : ℚ) : ℤ := q.num.tdiv q.den

inductive Op
  | check (key : String) (rate : Rate)
  | reset (key : String)
  deriving DecidableEq

def Op.key : Op → String
  | .check k _ => k
  | .reset k => k

variable {σ τ ω : Type*}

/-- The grants of `key` to the rates in `sel` after one more step. -/
def grantStep (allowed : ω → Bool) (key : String) (sel : Rate → Bool) (acc : List τ)
    (r : Mealy.Step σ (Timed τ Op) ω) : List τ :=
  match r.ev.ev with
  | .reset k => if k = key then [] else acc
  | .check k rate =>
    if k = key ∧ sel rate = true ∧ allowed r.out = true then acc ++ [r.ev.time] else acc

/-- The times of the allowed checks of `key` under a rate in `sel` since its last reset, oldest
first. -/
def grants (allowed : ω → Bool) (key : String) (sel : Rate → Bool)
    (h : List (Mealy.Step σ (Timed τ Op) ω)) : List τ :=
  h.foldl (grantStep allowed key sel) []

/-- The times of all allowed checks of `key` since its last reset. -/
def admissions (allowed : ω → Bool) (key : String) (h : List (Mealy.Step σ (Timed τ Op) ω)) :
    List τ :=
  grants allowed key (fun _ => true) h

/-- Every check of `key` under a rate in `sel` that finds `N` admissions in its window is denied. -/
def Limits (allowed : ω → Bool) (key : String) (sel : Rate → Bool) (win : τ → τ → Bool) (N : ℤ)
    (h : List (Mealy.Step σ (Timed τ Op) ω)) : Prop :=
  ∀ p r q rate, h = p ++ r :: q → r.ev.ev = .check key rate → sel rate = true →
    N ≤ (admissions allowed key p).countP (win r.ev.time) → allowed r.out = false

variable {allowed : ω → Bool} {key : String} {sel : Rate → Bool}
  {h : List (Mealy.Step σ (Timed τ Op) ω)} {r : Mealy.Step σ (Timed τ Op) ω}

@[simp] theorem grants_nil : grants (σ := σ) (τ := τ) allowed key sel [] = [] := rfl

theorem grants_concat :
    grants allowed key sel (h ++ [r]) = grantStep allowed key sel (grants allowed key sel h) r := by
  simp [grants, List.foldl_append]

theorem grants_other (hk : r.ev.ev.key ≠ key) :
    grants allowed key sel (h ++ [r]) = grants allowed key sel h := by
  rw [grants_concat, grantStep]
  cases hop : r.ev.ev with
  | check k rate =>
    have hne : k ≠ key := by simpa [hop, Op.key] using hk
    simp [hne]
  | reset k =>
    have hne : k ≠ key := by simpa [hop, Op.key] using hk
    simp [hne]

theorem admissions_other (hk : r.ev.ev.key ≠ key) :
    admissions allowed key (h ++ [r]) = admissions allowed key h :=
  grants_other hk

theorem admissions_reset (hop : r.ev.ev = .reset key) :
    admissions allowed key (h ++ [r]) = [] := by
  rw [admissions, grants_concat, grantStep, hop]
  simp

theorem admissions_check {rate : Rate} (hop : r.ev.ev = .check key rate) :
    admissions allowed key (h ++ [r]) =
      admissions allowed key h ++ if allowed r.out = true then [r.ev.time] else [] := by
  rw [admissions, grants_concat, grantStep, hop]
  simp only [true_and]
  split_ifs
  · rfl
  · rw [List.append_nil]
    rfl

/-- A grant is the time of a recorded check. -/
theorem mem_grants {a : τ} (ha : a ∈ grants allowed key sel h) : ∃ r ∈ h, r.ev.time = a := by
  induction h using List.reverseRecOn with
  | nil => simp at ha
  | append_singleton h r ih =>
    have hold : a ∈ grants allowed key sel h → ∃ r' ∈ h ++ [r], r'.ev.time = a := by
      intro hm
      obtain ⟨r', hr', ht⟩ := ih hm
      exact ⟨r', List.mem_append_left _ hr', ht⟩
    rw [grants_concat, grantStep] at ha
    split at ha
    · split_ifs at ha
      · simp at ha
      · exact hold ha
    · split_ifs at ha
      · rcases List.mem_append.mp ha with hm | hm
        · exact hold hm
        · exact ⟨r, by simp, (List.mem_singleton.mp hm).symm⟩
      · exact hold ha

theorem grants_sublist : (grants allowed key sel h).Sublist (admissions allowed key h) := by
  induction h using List.reverseRecOn with
  | nil => exact List.Sublist.refl _
  | append_singleton h r ih =>
    rw [admissions, grants_concat, grants_concat]
    unfold grantStep
    split
    · split_ifs
      · exact List.Sublist.refl _
      · exact ih
    · rename_i k rate hop
      by_cases hk : k = key ∧ sel rate = true ∧ allowed r.out = true
      · rw [if_pos hk, if_pos ⟨hk.1, rfl, hk.2.2⟩]
        exact ih.append (List.Sublist.refl _)
      · rw [if_neg hk]
        split_ifs
        · exact ih.trans (List.sublist_append_left _ _)
        · exact ih

/-- Where every check of the key has a selected rate, the grants are all admissions. -/
theorem grants_eq_admissions
    (hsel : ∀ r ∈ h, ∀ rate, r.ev.ev = .check key rate → sel rate = true) :
    grants allowed key sel h = admissions allowed key h := by
  induction h using List.reverseRecOn with
  | nil => rfl
  | append_singleton h r ih =>
    have hold := ih fun r' hr' => hsel r' (List.mem_append_left _ hr')
    rw [admissions] at hold ⊢
    rw [grants_concat, grants_concat, hold]
    unfold grantStep
    split
    · rfl
    · rename_i k rate hop
      by_cases hk : k = key
      · subst hk
        rw [hsel r (by simp) rate hop]
      · simp [hk]

/-- Under a clock that never goes back the grants are in order. -/
theorem grants_sorted [LE τ] (hc : h.Pairwise fun r r' => r.ev.time ≤ r'.ev.time) :
    (grants allowed key sel h).Pairwise (· ≤ ·) := by
  induction h using List.reverseRecOn with
  | nil => exact List.Pairwise.nil
  | append_singleton h r ih =>
    obtain ⟨hh, -, hr⟩ := List.pairwise_append.mp hc
    rw [grants_concat, grantStep]
    split
    · split_ifs
      · exact List.Pairwise.nil
      · exact ih hh
    · split_ifs
      · refine List.pairwise_append.mpr ⟨ih hh, List.pairwise_singleton _ _, fun a ha b hb => ?_⟩
        obtain ⟨r', hr', rfl⟩ := mem_grants ha
        rw [List.mem_singleton.mp hb]
        exact hr r' hr' r (by simp)
      · exact ih hh

theorem Limits.of_append {win : τ → τ → Bool} {N : ℤ} {g : List (Mealy.Step σ (Timed τ Op) ω)}
    (hl : Limits allowed key sel win N (h ++ g)) : Limits allowed key sel win N h := by
  rintro p r q rate rfl
  exact hl p r (q ++ g) rate (by simp)

/-- **From checks to windows**: under a limit the grants are paced. -/
theorem Limits.paced [LE τ] {win : τ → τ → Bool} {N : ℤ} (hl : Limits allowed key sel win N h)
    (hc : h.Pairwise fun r r' => r.ev.time ≤ r'.ev.time) :
    Window.Paced win N (grants allowed key sel h) := by
  induction h using List.reverseRecOn with
  | nil => exact .nil
  | append_singleton h r ih =>
    obtain ⟨hh, -, hr⟩ := List.pairwise_append.mp hc
    have hold := ih hl.of_append hh
    rw [grants_concat, grantStep]
    split
    · split_ifs
      · exact .nil
      · exact hold
    · rename_i k rate hop
      by_cases hk : k = key ∧ sel rate = true ∧ allowed r.out = true
      · rw [if_pos hk]
        obtain ⟨rfl, hsel, hout⟩ := hk
        refine hold.concat (fun b hb => ?_) ?_
        · obtain ⟨r', hr', rfl⟩ := mem_grants hb
          exact hr r' hr' r (by simp)
        · -- the grants are among the admissions, of which the limit leaves fewer than `N`
          have hle : (grants allowed k sel h).countP (win r.ev.time) ≤
              (admissions allowed k h).countP (win r.ev.time) := grants_sublist.countP_le
          by_contra hge
          have hden := hl h r [] rate rfl hop hsel (by omega)
          rw [hden] at hout
          cases hout
      · rw [if_neg hk]
        exact hold

/-- The limit of `rate` on a key: its own grants in any window keep to `count`, and so does every check
of it, whatever rate admitted the others. -/
structure Enforced [LE τ] [DecidableLE τ] (allowed : ω → Bool) (key : String) (win : τ → τ → Bool)
    (rate : Rate) (h : List (Mealy.Step σ (Timed τ Op) ω)) : Prop where
  granted_le : ∀ t, ((grants allowed key (fun r => decide (r = rate)) h).countP
    (fun a => win t a && decide (a ≤ t)) : ℤ) ≤ rate.count
  denied : Limits allowed key (fun r => decide (r = rate)) win rate.count h

theorem Limits.enforced [Preorder τ] [DecidableLE τ] {win : τ → τ → Bool} {rate : Rate}
    (hl : Limits allowed key (fun r => decide (r = rate)) win rate.count h)
    (hw : Window.Leaving win) (hpos : 0 ≤ rate.count)
    (hc : h.Pairwise fun r r' => r.ev.time ≤ r'.ev.time) : Enforced allowed key win rate h :=
  ⟨fun t => (hl.paced hc).countP_le hw hpos t, hl⟩

end Throttle

end ResilienceKit

import Mathlib.Data.List.Induction
import Mathlib.Data.List.Nodup
import Mathlib.Data.List.Perm.Subperm
import Mathlib.Data.Nat.Basic
import Mathlib.Order.Basic
import Mathlib.Tactic.SplitIfs

/-!
# First occurrences and a budget for them

`firsts l` has the elements of `l` in the order of their first occurrence, `admitted n l` the first `n` of these:
what a set of at most `n` elements collects that is filled element by element (`admitted_concat`).  Later elements
of the list do not change which of the earlier ones are admitted (`mem_admitted_append`).
-/

namespace Firsts

variable {α : Type*} [DecidableEq α] {l r : List α} {a : α} {n : ℕ}

def firsts (l : List α) : List α := l.foldl (fun out a => if a ∈ out then out else out ++ [a]) []

def admitted (n : ℕ) (l : List α) : List α := (firsts l).take n

@[simp] theorem firsts_nil : firsts ([] : List α) = [] := rfl

theorem firsts_concat (l : List α) (a : α) :
    firsts (l ++ [a]) = if a ∈ firsts l then firsts l else firsts l ++ [a] := by
  rw [firsts, List.foldl_append]
  rfl

@[simp] theorem mem_firsts : a ∈ firsts l ↔ a ∈ l := by
  induction l using List.reverseRecOn with
  | nil => exact Iff.rfl
  | append_singleton l b ih =>
    rw [firsts_concat, List.mem_append, List.mem_singleton]
    split_ifs with hb
    · rw [ih]
      refine ⟨Or.inl, ?_⟩
      rintro (ha | rfl)
      · exact ha
      · exact ih.mp hb
    · rw [List.mem_append, List.mem_singleton, ih]

theorem nodup_firsts (l : List α) : (firsts l).Nodup := by
  induction l using List.reverseRecOn with
  | nil => exact List.nodup_nil
  | append_singleton l b ih =>
    rw [firsts_concat]
    split_ifs with hb
    · exact ih
    · rw [← List.concat_eq_append]
      exact ih.concat hb

theorem firsts_prefix (l r : List α) : firsts l <+: firsts (l ++ r) := by
  induction r using List.reverseRecOn with
  | nil => simp
  | append_singleton r b ih =>
    rw [← List.append_assoc, firsts_concat]
    split_ifs
    · exact ih
    · exact ih.trans (List.prefix_append _ _)

/-! ### The budget -/

@[simp] theorem admitted_nil (n : ℕ) : admitted n ([] : List α) = [] := List.take_nil

theorem length_admitted_le (n : ℕ) (l : List α) : (admitted n l).length ≤ n := List.length_take_le n _

theorem mem_of_mem_admitted (h : a ∈ admitted n l) : a ∈ l := mem_firsts.mp (List.mem_of_mem_take h)

/-- An element that is there is admitted or not, whatever comes later. -/
theorem mem_admitted_append (ha : a ∈ l) (r : List α) : a ∈ admitted n (l ++ r) ↔ a ∈ admitted n l := by
  obtain ⟨t, ht⟩ := firsts_prefix l r
  have hnodup := nodup_firsts (l ++ r)
  rw [← ht, List.nodup_append] at hnodup
  have hnew : a ∉ t := fun hat => hnodup.2.2 a (mem_firsts.mpr ha) a hat rfl
  rw [admitted, ← ht, List.take_append, List.mem_append]
  exact or_iff_left fun h => hnew (List.mem_of_mem_take h)

/-- The budget as it is filled. -/
theorem admitted_concat (n : ℕ) (l : List α) (a : α) : admitted n (l ++ [a]) =
    if a ∉ admitted n l ∧ (admitted n l).length < n then admitted n l ++ [a] else admitted n l := by
  by_cases hn : (firsts l).length < n
  · have hall : admitted n l = firsts l := List.take_of_length_le hn.le
    rw [admitted, firsts_concat, hall]
    by_cases ha : a ∈ firsts l
    · rw [if_pos ha, if_neg (fun h => h.1 ha), List.take_of_length_le hn.le]
    · rw [if_neg ha, if_pos ⟨ha, hn⟩]
      refine List.take_of_length_le ?_
      rw [List.length_append, List.length_singleton]
      exact hn
  · have hfull : (admitted n l).length = n := List.length_take_of_le (not_lt.mp hn)
    rw [if_neg (fun h => h.2.ne hfull), admitted, firsts_concat]
    split_ifs
    · rfl
    · exact List.take_append_of_le_length (not_lt.mp hn)

theorem mem_admitted_concat : a ∈ admitted n (l ++ [a]) ↔ a ∈ admitted n l ∨ (admitted n l).length < n := by
  rw [admitted_concat]
  split_ifs with h
  · exact iff_of_true (List.mem_append_right _ (List.mem_singleton_self a)) (.inr h.2)
  · refine ⟨.inl, ?_⟩
    rintro (ha | hlen)
    · exact ha
    · by_contra ha
      exact h ⟨ha, hlen⟩

/-- The budget is exceeded by the elements that it does not admit. -/
theorem exceeded_iff : n < (firsts l).length ↔ ∃ a ∈ l, a ∉ admitted n l := by
  constructor
  · intro h
    by_contra hall
    push Not at hall
    have hsub : firsts l ⊆ admitted n l := fun a ha => hall a (mem_firsts.mp ha)
    have hle := (nodup_firsts l).subperm hsub
    exact absurd (hle.length_le.trans (length_admitted_le n l)) (not_le.mpr h)
  · rintro ⟨a, ha, hnot⟩
    by_contra h
    refine hnot ?_
    rw [admitted, List.take_of_length_le (not_lt.mp h)]
    exact mem_firsts.mpr ha

theorem exceeded_concat : n < (firsts (l ++ [a])).length ↔
    n < (firsts l).length ∨ a ∉ admitted n (l ++ [a]) := by
  rw [exceeded_iff, exceeded_iff]
  constructor
  · rintro ⟨b, hb, hnot⟩
    obtain hb | hb := List.mem_append.mp hb
    · exact .inl ⟨b, hb, fun h => hnot ((mem_admitted_append hb [a]).mpr h)⟩
    · obtain rfl := List.mem_singleton.mp hb
      exact .inr hnot
  · rintro (⟨b, hb, hnot⟩ | hnot)
    · exact ⟨b, List.mem_append_left _ hb, fun h => hnot ((mem_admitted_append hb [a]).mp h)⟩
    · exact ⟨a, List.mem_append_right _ (List.mem_singleton_self a), hnot⟩

end Firsts

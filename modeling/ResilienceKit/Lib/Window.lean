import Mathlib.Algebra.Order.Ring.Int
import Mathlib.Data.List.Basic
import Mathlib.Data.List.Count
import Mathlib.Data.List.Induction
import Mathlib.Order.Basic

/-!
# Window — logs of which only a moving window counts

`win t a` says that the entry `a` counts at time `t`; an entry that has left the window stays out
(`Leaving`).  A store that is pruned now and then `Tracks` the full log when both have the same
entries in every window still to come.  A log is `Paced` when every entry was let in with fewer than
`N` others in its window; then no window holds more than `N` (`Paced.countP_le`).
-/

namespace Window

variable {τ α : Type*}

/-- Entries leave the window for good. -/
def Leaving [LE τ] (win : τ → α → Bool) : Prop :=
  ∀ ⦃t t' : τ⦄ ⦃a : α⦄, t ≤ t' → win t' a = true → win t a = true

/-- From `now` on the store shows the same windows as the full log. -/
def Tracks [LE τ] (win : τ → α → Bool) (now : τ) (store full : List α) : Prop :=
  ∀ t, now ≤ t → store.filter (win t) = full.filter (win t)

section Tracks

variable [Preorder τ] {win : τ → α → Bool} {now : τ} {store full : List α}

theorem Tracks.refl (win : τ → α → Bool) (now : τ) (l : List α) : Tracks win now l l :=
  fun _ _ => rfl

theorem Tracks.later (h : Tracks win now store full) {t : τ} (ht : now ≤ t) :
    Tracks win t store full :=
  fun u hu => h u (ht.trans hu)

theorem Tracks.countP_eq (h : Tracks win now store full) {t : τ} (ht : now ≤ t) :
    store.countP (win t) = full.countP (win t) := by
  rw [List.countP_eq_length_filter, List.countP_eq_length_filter, h t ht]

/-- Pruning what no later window shows keeps track. -/
theorem Tracks.prune (h : Tracks win now store full) {p : α → Bool}
    (hp : ∀ t, now ≤ t → ∀ a ∈ store, win t a = true → p a = true) :
    Tracks win now (store.filter p) full := by
  intro t ht
  rw [← h t ht, List.filter_filter]
  refine List.filter_congr fun a ha => ?_
  cases hw : win t a with
  | true => simp [hp t ht a ha hw]
  | false => rfl

theorem Tracks.concat (h : Tracks win now store full) (a : α) :
    Tracks win now (store ++ [a]) (full ++ [a]) := by
  intro t ht
  rw [List.filter_append, List.filter_append, h t ht]

end Tracks

/-- Predicates that a later entry meets when an earlier one does count alike only if they agree. -/
theorem countP_eq_iff [LinearOrder α] {p q : α → Bool} (hp : ∀ a b, a ≤ b → p a = true → p b = true)
    (hq : ∀ a b, a ≤ b → q a = true → q b = true) (l : List α) :
    l.countP p = l.countP q ↔ ∀ a ∈ l, p a = q a := by
  have himp : ∀ {r s : α → Bool}, (∀ a, r a = true → s a = true) → l.countP r = l.countP s →
      ∀ a ∈ l, r a = s a := by
    intro r s hrs hcount a ha
    rw [List.countP_eq_length_filter, List.countP_eq_length_filter] at hcount
    have heq := (List.monotone_filter_right l fun a => hrs a).eq_of_length hcount
    rw [Bool.eq_iff_iff]
    refine ⟨hrs a, fun hs => ?_⟩
    have hmem : a ∈ l.filter r := heq ▸ List.mem_filter.mpr ⟨ha, hs⟩
    exact (List.mem_filter.mp hmem).2
  refine ⟨fun h => ?_, fun h => List.countP_congr fun a ha => by rw [h a ha]⟩
  by_cases hpq : ∀ a, p a = true → q a = true
  · exact himp hpq h
  · -- some entry tells the two apart, so the other one is the stronger
    push Not at hpq
    obtain ⟨a, hpa, hqa⟩ := hpq
    have hqp : ∀ b, q b = true → p b = true := fun b hqb => by
      rcases le_total a b with hab | hba
      · exact hp a b hab hpa
      · exact absurd (hq b a hba hqb) hqa
    exact fun b hb => (himp hqp h.symm b hb).symm

/-- In a sorted list, dropping the head entries below `c` leaves the entries from `c` on. -/
theorem dropWhile_lt_eq_filter [LinearOrder τ] {l : List τ} (h : l.Pairwise (· ≤ ·)) (c : τ) :
    l.dropWhile (fun a => decide (a < c)) = l.filter (fun a => decide (c ≤ a)) := by
  induction l with
  | nil => rfl
  | cons a l ih =>
    obtain ⟨ha, hl⟩ := List.pairwise_cons.mp h
    by_cases hac : a < c
    · rw [List.dropWhile_cons_of_pos (by simpa using hac), ih hl,
        List.filter_cons_of_neg (by simpa using hac)]
    · have hca : c ≤ a := not_lt.mp hac
      rw [List.dropWhile_cons_of_neg (by simpa using hca), List.filter_eq_self.mpr]
      intro b hb
      rcases List.mem_cons.mp hb with rfl | hb
      · simpa using hca
      · simpa using hca.trans (ha b hb)

/-- Every entry came at the end, with fewer than `N` others in its window. -/
inductive Paced [LE τ] (win : τ → τ → Bool) (N : ℤ) : List τ → Prop
  | nil : Paced win N []
  | concat {l : List τ} {a : τ} (h : Paced win N l) (hle : ∀ b ∈ l, b ≤ a)
      (hn : (l.countP (win a) : ℤ) < N) : Paced win N (l ++ [a])

/-- No window of a paced log holds more than `N` entries. -/
theorem Paced.countP_le [Preorder τ] [DecidableLE τ] {win : τ → τ → Bool} {N : ℤ} {l : List τ}
    (hw : Leaving win) (hN : 0 ≤ N) (h : Paced win N l) (t : τ) :
    (l.countP (fun a => win t a && decide (a ≤ t)) : ℤ) ≤ N := by
  induction h with
  | nil => simpa using hN
  | @concat l a h hle hn ih =>
    rw [List.countP_append, List.countP_singleton]
    by_cases ha : (win t a && decide (a ≤ t)) = true
    · have hat : a ≤ t := by simpa using (Bool.and_eq_true_iff.mp ha).2
      have hmono : l.countP (fun b => win t b && decide (b ≤ t)) ≤ l.countP (win a) := by
        refine List.countP_mono_left fun b _ hb => hw hat ?_
        exact (Bool.and_eq_true_iff.mp hb).1
      rw [if_pos ha]
      push_cast
      omega
    · rw [if_neg ha]
      simpa using ih

end Window

import Mathlib.Data.List.Induction
import Mathlib.Data.List.Nodup
import Mathlib.Tactic.SplitIfs

/-!
# Dicts that remember the order of insertion

An `OrderedDict` is a list of items with distinct keys.  `set` keeps the place of a key that is there, and
`drop` deletes keys; what they do is said by `get_set` and `get_drop`.
-/

structure OrderedDict (K V : Type*) where
  items : List (K × V) := []
  nodup : (items.map Prod.fst).Nodup := by exact List.nodup_nil

namespace OrderedDict

variable {K V : Type*} [DecidableEq K] (d : OrderedDict K V)

def keys : List K := d.items.map Prod.fst

def get (k : K) : Option V := d.items.lookup k

/-- `d[k] = v` -/
def set (k : K) (v : V) : OrderedDict K V where
  items := if k ∈ d.keys then d.items.map fun x => if x.1 = k then (k, v) else x else d.items ++ [(k, v)]
  nodup := by
    split_ifs with hk
    · have hkeys : (d.items.map fun x => if x.1 = k then (k, v) else x).map Prod.fst = d.items.map Prod.fst := by
        rw [List.map_map]
        refine List.map_congr_left fun x _ => ?_
        simp only [Function.comp_apply]
        split_ifs with hx
        · exact hx.symm
        · rfl
      rw [hkeys]
      exact d.nodup
    · rw [List.map_append, List.nodup_append]
      refine ⟨d.nodup, List.nodup_singleton k, fun a ha b hb => ?_⟩
      obtain rfl := List.mem_singleton.mp hb
      rintro rfl
      exact hk ha

/-- `del d[k]` for the keys that satisfy `p`. -/
def drop (p : K → Bool) : OrderedDict K V where
  items := d.items.filter fun x => !p x.1
  nodup := d.nodup.sublist (List.filter_sublist.map Prod.fst)

variable {d} {k j : K} {v : V}

@[simp] theorem get_empty (k : K) : ({} : OrderedDict K V).get k = none := rfl

theorem lookup_eq_none {items : List (K × V)} (h : k ∉ items.map Prod.fst) : items.lookup k = none := by
  rw [List.lookup_eq_none_iff]
  intro x hx
  rw [bne_iff_ne]
  rintro rfl
  exact h (List.mem_map_of_mem hx)

theorem get_eq_none_iff : d.get k = none ↔ k ∉ d.keys := by
  constructor
  · intro h hk
    obtain ⟨x, hx, rfl⟩ := List.mem_map.mp hk
    exact absurd rfl (bne_iff_ne.mp (List.lookup_eq_none_iff.mp h x hx))
  · exact lookup_eq_none

theorem lookup_filter (items : List (K × V)) (p : K → Bool) (k : K) :
    (items.filter fun x => !p x.1).lookup k = if p k then none else items.lookup k := by
  induction items with
  | nil => simp
  | cons x items ih =>
    rw [List.lookup_cons]
    cases hp : p x.1 with
    | true =>
      rw [List.filter_cons_of_neg (by simp [hp]), ih]
      by_cases hk : k = x.1
      · subst hk
        simp [hp]
      · simp [beq_false_of_ne hk]
    | false =>
      rw [List.filter_cons_of_pos (by simp [hp]), List.lookup_cons, ih]
      by_cases hk : k = x.1
      · subst hk
        simp [hp]
      · simp [beq_false_of_ne hk]

@[simp] theorem get_drop (d : OrderedDict K V) (p : K → Bool) (k : K) :
    (d.drop p).get k = if p k then none else d.get k := lookup_filter d.items p k

theorem lookup_replace (items : List (K × V)) (k j : K) (v : V) :
    (items.map fun x => if x.1 = k then (k, v) else x).lookup j =
      if j = k then (items.lookup j).map fun _ => v else items.lookup j := by
  induction items with
  | nil => simp
  | cons x items ih =>
    rw [List.map_cons, List.lookup_cons, List.lookup_cons, ih]
    by_cases hx : x.1 = k
    · subst hx
      by_cases hj : j = x.1
      · subst hj
        simp
      · simp [hj, beq_false_of_ne hj]
    · by_cases hj : j = x.1
      · subst hj
        simp [hx]
      · simp [hx, beq_false_of_ne hj]

@[simp] theorem get_set (d : OrderedDict K V) (k : K) (v : V) (j : K) :
    (d.set k v).get j = if j = k then some v else d.get j := by
  show (if k ∈ d.keys then d.items.map fun x => if x.1 = k then (k, v) else x else d.items ++ [(k, v)]).lookup j =
    if j = k then some v else d.items.lookup j
  by_cases hk : k ∈ d.keys
  · rw [if_pos hk, lookup_replace]
    by_cases hj : j = k
    · subst hj
      rw [if_pos rfl, if_pos rfl]
      cases hd : d.items.lookup j with
      | none => exact absurd hk (get_eq_none_iff.mp hd)
      | some w => rfl
    · rw [if_neg hj, if_neg hj]
  · rw [if_neg hk, List.lookup_append]
    by_cases hj : j = k
    · subst hj
      rw [if_pos rfl, lookup_eq_none hk]
      simp
    · rw [if_neg hj, List.lookup_cons, beq_false_of_ne hj]
      simp

theorem mem_keys_set : j ∈ (d.set k v).keys ↔ j = k ∨ j ∈ d.keys := by
  rw [← not_iff_not, not_or, ← get_eq_none_iff, ← get_eq_none_iff, get_set]
  by_cases hj : j = k
  · rw [if_pos hj]
    exact iff_of_false nofun fun h => h.1 hj
  · rw [if_neg hj]
    exact (and_iff_right hj).symm

/-- A key has one item. -/
theorem filter_of_get (h : d.get k = some v) : d.items.filter (fun x => x.1 = k) = [(k, v)] := by
  obtain ⟨items, hnodup⟩ := d
  have hlookup : items.lookup k = some v := h
  clear h
  induction items with
  | nil => cases hlookup
  | cons x items ih =>
    obtain ⟨hx, hitems⟩ := List.nodup_cons.mp hnodup
    rw [List.lookup_cons] at hlookup
    by_cases hk : k = x.1
    · subst hk
      have hrest : items.filter (fun y => y.1 = x.1) = [] := by
        refine List.filter_eq_nil_iff.mpr fun y hy hyx => hx ?_
        rw [← of_decide_eq_true hyx]
        exact List.mem_map_of_mem hy
      rw [List.filter_cons_of_pos (by simp), hrest]
      simp only [beq_self_eq_true] at hlookup
      rw [← Option.some.inj hlookup]
    · rw [List.filter_cons_of_neg (by simpa using fun h => hk h.symm)]
      simp only [beq_false_of_ne hk] at hlookup
      exact ih hitems hlookup

/-- `d.update(items)` -/
def update (d : OrderedDict K V) (items : List (K × V)) : OrderedDict K V :=
  items.foldl (fun d x => d.set x.1 x.2) d

theorem update_concat (d : OrderedDict K V) (items : List (K × V)) (x : K × V) :
    d.update (items ++ [x]) = (d.update items).set x.1 x.2 := by
  rw [update, List.foldl_append]
  rfl

theorem mem_keys_update {items : List (K × V)} : j ∈ (d.update items).keys ↔ j ∈ items.map Prod.fst ∨ j ∈ d.keys := by
  induction items using List.reverseRecOn with
  | nil => simp [update]
  | append_singleton items x ih =>
    rw [update_concat, mem_keys_set, ih]
    simp [or_comm, or_left_comm]

/-- The last item of a key counts. -/
theorem get_update (d : OrderedDict K V) (items : List (K × V)) (k : K) : (d.update items).get k =
    (((items.filter fun x => x.1 = k).getLast?).map Prod.snd).or (d.get k) := by
  induction items using List.reverseRecOn with
  | nil => simp [update]
  | append_singleton items x ih =>
    rw [update_concat, get_set, List.filter_append]
    by_cases hk : k = x.1
    · rw [if_pos hk, List.filter_cons_of_pos (by simp [hk])]
      simp
    · rw [if_neg hk, List.filter_cons_of_neg (by simpa using fun h => hk h.symm), ih]
      simp

end OrderedDict

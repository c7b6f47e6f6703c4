import Mathlib.Data.Finset.Sort
import Mathlib.Data.Prod.Lex
import Mathlib.Data.String.Basic
import ResilienceKit.Lib.Firsts
import ResilienceKit.Lib.Mealy
import ResilienceKit.Lib.OrderedDict

/-!
# Metrics.Cardinality — `BoundedMetricsSink`

The code compares sorted tuples of items; here a tag set is the set of the items (`combo_eq`).  The sink holds
the first tag sets of every name, as many as the budget allows (`Explains`), and so what a call emits can be read
off the calls (`step_eq`, `events_eq`).
-/

namespace ResilienceKit.Metrics

open Firsts

abbrev Tags := OrderedDict String String

/-- An item of a mapping; items are compared as tuples are. -/
abbrev Item := String ×ₗ String

/-- `tuple(sorted(tags.items()))` -/
def combo (tags : Tags) : List Item := (tags.items.map toLex).insertionSort (· ≤ ·)

inductive Kind
  | incr
  | timing
  | gauge
  deriving DecidableEq, Repr

/-- A call of a sink. -/
structure MetricEvent (V : Type) where
  kind : Kind
  name : String
  value : V
  tags : Option Tags

def CARDINALITY_EXCEEDED_METRIC : String := "metrics.cardinality_exceeded"

/-- `_seen` and `_warned`; the sets are in the order in which they were filled. -/
structure BoundedMetricsSink where
  seen : String → List (List Item) := fun _ => []
  warned : List String := []

/-- `_admit`: whether it warns, and the tags that it returns. -/
def admits (cardinalityBudget : ℕ) (s : BoundedMetricsSink) (name : String) :
    Option Tags → BoundedMetricsSink × Bool × Option Tags
  | none => (s, false, none)
  | some tags =>
    if tags.items = [] then (s, false, some tags)
    else if combo tags ∈ s.seen name then (s, false, some tags)
    else if (s.seen name).length < cardinalityBudget then
      ({ s with seen := Function.update s.seen name (s.seen name ++ [combo tags]) }, false, some tags)
    else if name ∈ s.warned then (s, false, none)
    else ({ s with warned := s.warned ++ [name] }, true, none)

section Sink

variable {V : Type} [One V]

/-- The event that tells of a name over its budget. -/
def overflow (name : String) : MetricEvent V :=
  ⟨.incr, CARDINALITY_EXCEEDED_METRIC, 1, some { items := [("metric", name)], nodup := by simp }⟩

/-- What the inner sink receives of one call: perhaps an event of the wrapper's own, and the event. -/
structure Emitted (V : Type) where
  own : Option (MetricEvent V)
  event : MetricEvent V

/-- `incr`, `timing` and `gauge`. -/
def step (cardinalityBudget : ℕ) (s : BoundedMetricsSink) (e : MetricEvent V) : BoundedMetricsSink × Emitted V :=
  let r := admits cardinalityBudget s e.name e.tags
  (r.1, ⟨if r.2.1 then some (overflow e.name) else none, { e with tags := r.2.2 }⟩)

def machine (cardinalityBudget : ℕ) : Mealy BoundedMetricsSink (MetricEvent V) (Emitted V) :=
  ⟨{}, step cardinalityBudget⟩

/-- What the inner sink receives, call by call. -/
def emitted (cardinalityBudget : ℕ) (calls : List (MetricEvent V)) : List (Emitted V) :=
  (machine cardinalityBudget).outs {} calls

/-- All that the inner sink receives. -/
def delivered (cardinalityBudget : ℕ) (calls : List (MetricEvent V)) : List (MetricEvent V) :=
  (emitted cardinalityBudget calls).flatMap fun o => o.own.toList ++ [o.event]

end Sink

/-! ### Tag sets -/

abbrev TagSet := Finset Item

def tagSet (tags : Tags) : TagSet := (tags.items.map toLex).toFinset

/-- The tuple of a tag set. -/
def canon (S : TagSet) : List Item := S.sort (· ≤ ·)

theorem canon_injective : Function.Injective canon := by
  intro S T h
  rw [← Finset.sort_toFinset S (· ≤ ·), ← Finset.sort_toFinset T (· ≤ ·)]
  exact congrArg List.toFinset h

/-- Two mappings have one tuple exactly if they have the same items. -/
theorem combo_eq (tags : Tags) : combo tags = canon (tagSet tags) := by
  have hperm : (combo tags).Perm (tags.items.map toLex) := List.perm_insertionSort _ _
  have hnodup : (combo tags).Nodup :=
    hperm.nodup_iff.mpr (tags.nodup.of_map.map toLex.injective)
  rw [canon, tagSet, ← List.toFinset_eq_of_perm _ _ hperm]
  exact ((List.toFinset_sort _ hnodup).mpr (List.pairwise_insertionSort _ _)).symm

variable {V : Type}

/-- The tag set of a call, if it has tags. -/
def MetricEvent.tagSet? (e : MetricEvent V) : Option TagSet :=
  (e.tags.filter fun tags => tags.items ≠ []).map tagSet

/-- The tag sets that a name is given. -/
def tagSetsOf (name : String) (calls : List (MetricEvent V)) : List TagSet :=
  (calls.filter fun e => e.name = name).filterMap MetricEvent.tagSet?

/-- The tag set of the call, if it has tags, is among the first that the name is given. -/
def Kept (budget : ℕ) (calls : List (MetricEvent V)) (e : MetricEvent V) : Prop :=
  ∀ S ∈ e.tagSet?, S ∈ admitted budget (tagSetsOf e.name calls)

instance (budget : ℕ) (calls : List (MetricEvent V)) (e : MetricEvent V) : Decidable (Kept budget calls e) :=
  inferInstanceAs (Decidable (∀ S ∈ e.tagSet?, S ∈ admitted budget (tagSetsOf e.name calls)))

/-- The name is given more tag sets than the budget allows. -/
def Exceeds (budget : ℕ) (calls : List (MetricEvent V)) (name : String) : Prop :=
  budget < (firsts (tagSetsOf name calls)).length

instance (budget : ℕ) (calls : List (MetricEvent V)) (name : String) : Decidable (Exceeds budget calls name) :=
  Nat.decLt _ _

section TagSetsOf

variable {name : String} {pre post : List (MetricEvent V)} {e : MetricEvent V} {budget : ℕ}

@[simp] theorem tagSetsOf_nil (name : String) : tagSetsOf name ([] : List (MetricEvent V)) = [] := rfl

theorem tagSetsOf_append (name : String) (pre post : List (MetricEvent V)) :
    tagSetsOf name (pre ++ post) = tagSetsOf name pre ++ tagSetsOf name post := by
  rw [tagSetsOf, List.filter_append, List.filterMap_append]
  rfl

theorem tagSetsOf_singleton (name : String) (e : MetricEvent V) :
    tagSetsOf name [e] = if e.name = name then e.tagSet?.toList else [] := by
  by_cases hname : e.name = name
  · rw [tagSetsOf, List.filter_singleton, if_pos hname]
    cases h : e.tagSet? <;> simp [hname, h]
  · simp [tagSetsOf, hname]

theorem mem_tagSetsOf {S : TagSet} : S ∈ tagSetsOf name pre ↔ ∃ e ∈ pre, e.name = name ∧ e.tagSet? = some S := by
  simp [tagSetsOf, and_assoc]

/-- Whether a call keeps its tags is settled when it is made. -/
theorem kept_append_iff (he : e ∈ pre) (post : List (MetricEvent V)) :
    Kept budget (pre ++ post) e ↔ Kept budget pre e := by
  refine forall₂_congr fun S hS => ?_
  rw [tagSetsOf_append]
  exact mem_admitted_append (mem_tagSetsOf.mpr ⟨e, he, rfl, hS⟩) _

/-- A name is over its budget when one of its calls has lost its tags. -/
theorem exceeds_iff : Exceeds budget pre name ↔ ∃ e ∈ pre, e.name = name ∧ ¬ Kept budget pre e := by
  rw [Exceeds, exceeded_iff]
  constructor
  · rintro ⟨S, hS, hnot⟩
    obtain ⟨e, he, rfl, heS⟩ := mem_tagSetsOf.mp hS
    exact ⟨e, he, rfl, fun hkept => hnot (hkept S heS)⟩
  · rintro ⟨e, he, rfl, hdrop⟩
    obtain ⟨S, hdrop⟩ := not_forall.mp hdrop
    obtain ⟨hS, hnot⟩ := Classical.not_imp.mp hdrop
    exact ⟨S, mem_tagSetsOf.mpr ⟨e, he, rfl, hS⟩, hnot⟩

/-- An overflow names a metric of the calls. -/
theorem Exceeds.mem (h : Exceeds budget pre name) : name ∈ pre.map MetricEvent.name := by
  obtain ⟨e, he, rfl, -⟩ := exceeds_iff.mp h
  exact List.mem_map_of_mem he

theorem exceeds_concat : Exceeds budget (pre ++ [e]) name ↔
    Exceeds budget pre name ∨ name = e.name ∧ ¬ Kept budget (pre ++ [e]) e := by
  rw [exceeds_iff, exceeds_iff]
  constructor
  · rintro ⟨f, hf, rfl, hdrop⟩
    obtain hf | hf := List.mem_append.mp hf
    · exact .inl ⟨f, hf, rfl, fun hk => hdrop ((kept_append_iff hf [e]).mpr hk)⟩
    · obtain rfl := List.mem_singleton.mp hf
      exact .inr ⟨rfl, hdrop⟩
  · rintro (⟨f, hf, rfl, hdrop⟩ | ⟨rfl, hdrop⟩)
    · exact ⟨f, List.mem_append_left _ hf, rfl, fun hk => hdrop ((kept_append_iff hf [e]).mp hk)⟩
    · exact ⟨e, List.mem_append_right _ (List.mem_singleton_self e), rfl, hdrop⟩

end TagSetsOf

/-! ### The sink explained by its calls -/

/-- The state after the calls. -/
structure Explains (budget : ℕ) (calls : List (MetricEvent V)) (s : BoundedMetricsSink) : Prop where
  seen : ∀ name, s.seen name = (admitted budget (tagSetsOf name calls)).map canon
  warned : ∀ name, name ∈ s.warned ↔ Exceeds budget calls name
  once : s.warned.Nodup

theorem explains_init (budget : ℕ) : Explains budget ([] : List (MetricEvent V)) {} where
  seen _ := by simp
  warned _ := by simp [Exceeds]
  once := List.nodup_nil

section Step

variable {budget : ℕ} {pre : List (MetricEvent V)} {s : BoundedMetricsSink} {e : MetricEvent V}

theorem tagSetsOf_untagged (he : e.tagSet? = none) (name : String) :
    tagSetsOf name (pre ++ [e]) = tagSetsOf name pre := by
  rw [tagSetsOf_append, tagSetsOf_singleton, he]
  simp

theorem tagSetsOf_same {S : TagSet} (he : e.tagSet? = some S) :
    tagSetsOf e.name (pre ++ [e]) = tagSetsOf e.name pre ++ [S] := by
  rw [tagSetsOf_append, tagSetsOf_singleton, if_pos rfl, he]
  rfl

theorem tagSetsOf_other {name : String} (hname : name ≠ e.name) :
    tagSetsOf name (pre ++ [e]) = tagSetsOf name pre := by
  rw [tagSetsOf_append, tagSetsOf_singleton, if_neg hname.symm, List.append_nil]

theorem admits_untagged (he : e.tagSet? = none) : admits budget s e.name e.tags = (s, false, e.tags) := by
  cases htags : e.tags with
  | none => rfl
  | some tags =>
    have hitems : tags.items = [] := by
      simpa [MetricEvent.tagSet?, htags] using he
    exact if_pos hitems

/-- What `_admit` does of a call with tags, in terms of the calls before it. -/
theorem Explains.admits (h : Explains budget pre s) {S : TagSet} (he : e.tagSet? = some S) :
    admits budget s e.name e.tags =
      if S ∈ admitted budget (tagSetsOf e.name pre) then (s, false, e.tags)
      else if (admitted budget (tagSetsOf e.name pre)).length < budget then
        ({ s with seen := Function.update s.seen e.name (s.seen e.name ++ [canon S]) }, false, e.tags)
      else if e.name ∈ s.warned then (s, false, none)
      else ({ s with warned := s.warned ++ [e.name] }, true, none) := by
  cases htags : e.tags with
  | none => simp [MetricEvent.tagSet?, htags] at he
  | some tags =>
    have hitems : tags.items ≠ [] := by
      rintro hnil
      simp [MetricEvent.tagSet?, htags, hnil] at he
    obtain rfl : tagSet tags = S := by
      simpa [MetricEvent.tagSet?, htags, hitems] using he
    rw [Metrics.admits, if_neg hitems, combo_eq, h.seen, List.length_map]
    simp only [List.mem_map_of_injective canon_injective]

/-- A call keeps its tags if they are held or the budget has room. -/
theorem kept_iff {S : TagSet} (he : e.tagSet? = some S) : Kept budget (pre ++ [e]) e ↔
    S ∈ admitted budget (tagSetsOf e.name pre) ∨ (admitted budget (tagSetsOf e.name pre)).length < budget := by
  rw [← mem_admitted_concat, ← tagSetsOf_same he]
  constructor
  · exact fun h => h S he
  · rintro h T hT
    obtain rfl := Option.some.inj (he.symm.trans hT)
    exact h

/-- A state after a call with tags is explained by what it holds of the call's name. -/
theorem Explains.tagged (h : Explains budget pre s) {S : TagSet} (he : e.tagSet? = some S) {s' : BoundedMetricsSink}
    (hseen : s'.seen = Function.update s.seen e.name ((admitted budget (tagSetsOf e.name pre ++ [S])).map canon))
    (hwarned : ∀ name, name ∈ s'.warned ↔ name ∈ s.warned ∨ name = e.name ∧ ¬ Kept budget (pre ++ [e]) e)
    (honce : s'.warned.Nodup) : Explains budget (pre ++ [e]) s' := by
  have hkept : Kept budget (pre ++ [e]) e ↔ S ∈ admitted budget (tagSetsOf e.name pre ++ [S]) := by
    rw [kept_iff he, mem_admitted_concat]
  refine ⟨fun name => ?_, fun name => ?_, honce⟩ <;> by_cases hname : name = e.name
  · subst hname
    rw [hseen, Function.update_self, tagSetsOf_same he]
  · rw [hseen, Function.update_of_ne hname, tagSetsOf_other hname, h.seen]
  · subst hname
    rw [hwarned, h.warned, Exceeds, Exceeds, tagSetsOf_same he, exceeded_concat, hkept]
    simp
  · rw [hwarned, h.warned, Exceeds, Exceeds, tagSetsOf_other hname]
    simp [hname]

/-- The event with its tags, if it keeps them. -/
def keep (budget : ℕ) (calls : List (MetricEvent V)) (e : MetricEvent V) : MetricEvent V :=
  { e with tags := if Kept budget calls e then e.tags else none }

theorem keep_of_kept {calls : List (MetricEvent V)} (h : Kept budget calls e) : keep budget calls e = e := by
  rw [keep, if_pos h]

theorem tagSet?_keep (budget : ℕ) (pre : List (MetricEvent V)) (e : MetricEvent V) :
    (keep budget pre e).tagSet? = if Kept budget pre e then e.tagSet? else none := by
  unfold keep
  split_ifs <;> rfl

theorem mem_admitted_iff_kept {name : String} {S : TagSet} : S ∈ admitted budget (tagSetsOf name pre) ↔
    ∃ e ∈ pre, e.name = name ∧ (keep budget pre e).tagSet? = some S := by
  simp only [tagSet?_keep]
  constructor
  · intro hS
    obtain ⟨e, he, rfl, heS⟩ := mem_tagSetsOf.mp (mem_of_mem_admitted hS)
    refine ⟨e, he, rfl, ?_⟩
    rw [if_pos, heS]
    intro T hT
    obtain rfl := Option.some.inj (heS.symm.trans hT)
    exact hS
  · rintro ⟨e, he, rfl, heS⟩
    split_ifs at heS with hkept
    exact hkept S heS

variable [One V]

/-- **Step lemma**: what a call emits, and that the state stays explained. -/
theorem Explains.step (h : Explains budget pre s) (e : MetricEvent V) :
    Explains budget (pre ++ [e]) (step budget s e).1 ∧ (step budget s e).2 =
      ⟨if Kept budget (pre ++ [e]) e ∨ e.name ∈ s.warned then none else some (overflow e.name),
        keep budget (pre ++ [e]) e⟩ := by
  have hsilent : Kept budget (pre ++ [e]) e ∨ e.name ∈ s.warned →
      (if Kept budget (pre ++ [e]) e ∨ e.name ∈ s.warned then none else some (overflow e.name)) =
        (none : Option (MetricEvent V)) := fun hc => if_pos hc
  cases he : e.tagSet? with
  | none =>
    have hkept : Kept budget (pre ++ [e]) e := by simp [Kept, he]
    have hstep : Metrics.step budget s e = (s, ⟨none, e⟩) := by
      rw [Metrics.step, admits_untagged he]
      rfl
    rw [hstep, hsilent (.inl hkept), keep_of_kept hkept]
    refine ⟨⟨fun name => ?_, fun name => ?_, h.once⟩, rfl⟩
    · rw [tagSetsOf_untagged he, h.seen]
    · rw [h.warned, Exceeds, Exceeds, tagSetsOf_untagged he]
  | some S =>
    have hkept : Kept budget (pre ++ [e]) e ↔ S ∈ admitted budget (tagSetsOf e.name pre) ∨
        (admitted budget (tagSetsOf e.name pre)).length < budget := kept_iff he
    have hadmitted := admitted_concat budget (tagSetsOf e.name pre) S
    rw [Metrics.step, h.admits he]
    by_cases hS : S ∈ admitted budget (tagSetsOf e.name pre)
    · -- the tag set is held
      have hk := hkept.mpr (.inl hS)
      rw [if_neg (fun hc => hc.1 hS)] at hadmitted
      rw [if_pos hS, hsilent (.inl hk), keep_of_kept hk]
      refine ⟨h.tagged he ?_ (fun name => by simp [hk]) h.once, rfl⟩
      rw [hadmitted, ← h.seen, Function.update_eq_self]
    · by_cases hroom : (admitted budget (tagSetsOf e.name pre)).length < budget
      · -- there is room for it
        have hk := hkept.mpr (.inr hroom)
        rw [if_pos ⟨hS, hroom⟩] at hadmitted
        rw [if_neg hS, if_pos hroom, hsilent (.inl hk), keep_of_kept hk]
        refine ⟨h.tagged he ?_ (fun name => by simp [hk]) h.once, rfl⟩
        rw [hadmitted, List.map_append, ← h.seen]
        rfl
      · -- the tags are lost
        have hk : ¬ Kept budget (pre ++ [e]) e := fun hk => (hkept.mp hk).elim hS hroom
        have hkeep : keep budget (pre ++ [e]) e = { e with tags := none } := by rw [keep, if_neg hk]
        rw [if_neg (fun hc => hroom hc.2)] at hadmitted
        have hseen : s.seen = Function.update s.seen e.name
            ((admitted budget (tagSetsOf e.name pre ++ [S])).map canon) := by
          rw [hadmitted, ← h.seen, Function.update_eq_self]
        rw [if_neg hS, if_neg hroom, hkeep]
        by_cases hwarned : e.name ∈ s.warned
        · rw [if_pos hwarned, hsilent (.inr hwarned)]
          refine ⟨h.tagged he hseen (fun name => ?_) h.once, rfl⟩
          refine (or_iff_left_of_imp ?_).symm
          rintro ⟨rfl, -⟩
          exact hwarned
        · rw [if_neg hwarned, if_neg (fun hc : _ ∨ _ => hc.elim hk hwarned)]
          refine ⟨h.tagged he hseen (fun name => by simp [hk]) ?_, rfl⟩
          rw [← List.concat_eq_append]
          exact h.once.concat hwarned

end Step

/-! ### Runs -/

section Runs

variable [One V] (budget : ℕ) (calls : List (MetricEvent V))

theorem explains_exec : Explains budget calls ((machine budget).exec {} calls) := by
  induction calls using List.reverseRecOn with
  | nil => exact explains_init budget
  | append_singleton calls e ih =>
    rw [Mealy.exec_concat]
    exact (ih.step e).1

/-- What the last call emits. -/
theorem emitted_concat (e : MetricEvent V) : emitted budget (calls ++ [e]) = emitted budget calls ++
    [⟨if Kept budget (calls ++ [e]) e ∨ Exceeds budget calls e.name then none else some (overflow e.name),
      keep budget (calls ++ [e]) e⟩] := by
  have hstep := ((explains_exec budget calls).step e).2
  simp only [(explains_exec budget calls).warned] at hstep
  rw [emitted, Mealy.outs_append]
  exact congrArg (fun o => emitted budget calls ++ [o]) hstep

variable {budget calls}

/-- **Run lemma**: the events of the calls. -/
theorem events_eq : (emitted budget calls).map Emitted.event = calls.map (keep budget calls) := by
  induction calls using List.reverseRecOn with
  | nil => rfl
  | append_singleton calls e ih =>
    rw [emitted_concat, List.map_append, List.map_append, ih]
    refine congrArg (· ++ [keep budget (calls ++ [e]) e]) (List.map_congr_left fun f hf => ?_)
    simp only [keep, kept_append_iff hf]

theorem overflow_injective : Function.Injective (overflow (V := V)) := by
  intro a b h
  have htags := congrArg MetricEvent.tags h
  have hitems := congrArg OrderedDict.items (Option.some.inj htags)
  exact (Prod.mk.inj (List.cons.inj hitems).1).2

/-- **Run lemma**: one event of the wrapper's own for each name over its budget. -/
theorem mem_own {o : MetricEvent V} : o ∈ (emitted budget calls).filterMap Emitted.own ↔
    ∃ name, Exceeds budget calls name ∧ o = overflow name := by
  induction calls using List.reverseRecOn with
  | nil => simp [emitted, Exceeds]
  | append_singleton calls e ih =>
    rw [emitted_concat, List.filterMap_append, List.mem_append, ih]
    simp only [exceeds_concat, or_and_right, exists_or, and_assoc, exists_eq_left]
    by_cases hsilent : Kept budget (calls ++ [e]) e ∨ Exceeds budget calls e.name
    · rw [if_pos hsilent]
      simp only [List.filterMap_cons, List.filterMap_nil, List.not_mem_nil, or_false]
      refine (or_iff_left_of_imp ?_).symm
      rintro ⟨hdrop, rfl⟩
      exact ⟨e.name, hsilent.resolve_left hdrop, rfl⟩
    · rw [if_neg hsilent]
      simp [(not_or.mp hsilent).1]

theorem nodup_own (budget : ℕ) (calls : List (MetricEvent V)) :
    ((emitted budget calls).filterMap Emitted.own).Nodup := by
  induction calls using List.reverseRecOn with
  | nil => exact List.nodup_nil
  | append_singleton calls e ih =>
    rw [emitted_concat, List.filterMap_append]
    by_cases hsilent : Kept budget (calls ++ [e]) e ∨ Exceeds budget calls e.name
    · rw [if_pos hsilent]
      simpa using ih
    · rw [if_neg hsilent]
      show ((emitted budget calls).filterMap Emitted.own ++ [overflow e.name]).Nodup
      rw [← List.concat_eq_append]
      refine ih.concat fun hmem => ?_
      obtain ⟨name, hname, heq⟩ := mem_own.mp hmem
      exact hsilent (.inr (overflow_injective heq ▸ hname))

theorem length_emitted (budget : ℕ) (calls : List (MetricEvent V)) :
    (emitted budget calls).length = calls.length := by
  rw [← @List.length_map _ _ calls (keep budget calls), ← events_eq, List.length_map]

theorem own_of_split (budget : ℕ) (pre : List (MetricEvent V)) (e : MetricEvent V) (post : List (MetricEvent V)) :
    ((emitted budget (pre ++ e :: post)).map Emitted.own)[pre.length]? =
      some (if ¬ Kept budget (pre ++ e :: post) e ∧
          ∀ f ∈ pre, f.name = e.name → Kept budget (pre ++ e :: post) f then
        some (overflow e.name) else none) := by
  have hsplit : pre ++ e :: post = (pre ++ [e]) ++ post := List.append_cons pre e post
  have hkept : Kept budget (pre ++ e :: post) e ↔ Kept budget (pre ++ [e]) e := by
    rw [hsplit]
    exact kept_append_iff (List.mem_append_right _ (List.mem_singleton_self e)) post
  have hfirst : (∀ f ∈ pre, f.name = e.name → Kept budget (pre ++ e :: post) f) ↔ ¬ Exceeds budget pre e.name := by
    rw [exceeds_iff]
    push Not
    refine forall₂_congr fun f hf => ?_
    rw [kept_append_iff hf]
  have hemitted : emitted budget (pre ++ e :: post) = emitted budget (pre ++ [e]) ++
      (machine budget).outs ((machine budget).exec {} (pre ++ [e])) post := by
    rw [hsplit]
    exact Mealy.outs_append _ _ _ _
  have hlen : (emitted budget pre).length = pre.length := length_emitted budget pre
  rw [hemitted, emitted_concat, List.append_assoc, List.map_append, List.getElem?_append_right (by simp [hlen])]
  simp only [List.length_map, hlen, Nat.sub_self, List.singleton_append, List.map_cons, List.getElem?_cons_zero,
    Option.some.injEq, hkept, hfirst]
  by_cases hsilent : Kept budget (pre ++ [e]) e ∨ Exceeds budget pre e.name
  · rw [if_pos hsilent, if_neg (by tauto)]
  · rw [if_neg hsilent, if_pos (not_or.mp hsilent)]

/-- **Bounding labels never distorts totals.**  Without the wrapper's own events the inner sink receives the
calls, and a call keeps its tags exactly if they are among the first that its name is given; so calls with one
tag set fare alike.  The first call of a name that loses its tags, and no other, adds an event. -/
theorem totals_exact (budget : ℕ) (calls : List (MetricEvent V)) :
    (emitted budget calls).map Emitted.event = calls.map (keep budget calls) ∧
      (∀ e f : MetricEvent V, e.name = f.name → e.tagSet? = f.tagSet? → Kept budget calls e →
        (keep budget calls f).tags = f.tags) ∧
      (∀ pre e post, calls = pre ++ e :: post → ((emitted budget calls).map Emitted.own)[pre.length]? =
        some (if ¬ Kept budget calls e ∧ ∀ f ∈ pre, f.name = e.name → Kept budget calls f then
          some (overflow e.name) else none)) ∧
      ((emitted budget calls).filterMap Emitted.own).Nodup := by
  refine ⟨events_eq, ?_, ?_, nodup_own budget calls⟩
  · intro e f hname htags hkept
    refine if_pos fun S hS => ?_
    rw [← hname]
    exact hkept S (htags ▸ hS)
  · rintro pre e post rfl
    exact own_of_split budget pre e post

/-! ### The bound -/

/-- The tag sets that a sink receives under a name. -/
def tagSets (name : String) (events : List (MetricEvent V)) : Finset TagSet := (tagSetsOf name events).toFinset

/-- The tag sets of the overflow metric: the callers' own, as far as they are admitted, and one for each name over
its budget. -/
def overflowSets (budget : ℕ) (calls : List (MetricEvent V)) : Finset TagSet :=
  (admitted budget (tagSetsOf CARDINALITY_EXCEEDED_METRIC calls)).toFinset ∪
    ((calls.map MetricEvent.name).toFinset.filter fun name => Exceeds budget calls name).image
      fun name => {toLex ("metric", name)}

theorem mem_delivered {x : MetricEvent V} : x ∈ delivered budget calls ↔
    (∃ name, Exceeds budget calls name ∧ x = overflow name) ∨ ∃ e ∈ calls, x = keep budget calls e := by
  have hevents : (∃ o ∈ emitted budget calls, x = o.event) ↔ ∃ e ∈ calls, x = keep budget calls e := by
    have hmem : x ∈ (emitted budget calls).map Emitted.event ↔ x ∈ calls.map (keep budget calls) := by rw [events_eq]
    simpa [eq_comm] using hmem
  rw [← mem_own, ← hevents, delivered, List.mem_flatMap]
  simp only [List.mem_append, List.mem_singleton, and_or_left, exists_or, Option.mem_toList, List.mem_filterMap]

theorem tagSet?_overflow (name : String) :
    (overflow name : MetricEvent V).tagSet? = some {toLex ("metric", name)} := rfl

theorem tagSets_delivered (budget : ℕ) (calls : List (MetricEvent V)) (name : String) :
    tagSets name (delivered budget calls) =
      if name = CARDINALITY_EXCEEDED_METRIC then overflowSets budget calls
      else (admitted budget (tagSetsOf name calls)).toFinset := by
  ext S
  have hmem : S ∈ tagSets name (delivered budget calls) ↔
      (∃ n, Exceeds budget calls n ∧ CARDINALITY_EXCEEDED_METRIC = name ∧ {toLex ("metric", n)} = S) ∨
        S ∈ admitted budget (tagSetsOf name calls) := by
    rw [tagSets, List.mem_toFinset, mem_tagSetsOf, mem_admitted_iff_kept]
    constructor
    · rintro ⟨x, hx, rfl, hS⟩
      obtain ⟨n, hn, rfl⟩ | ⟨e, he, rfl⟩ := mem_delivered.mp hx
      · exact .inl ⟨n, hn, rfl, Option.some.inj hS⟩
      · exact .inr ⟨e, he, rfl, hS⟩
    · rintro (⟨n, hn, rfl, rfl⟩ | ⟨e, he, rfl, hS⟩)
      · exact ⟨overflow n, mem_delivered.mpr (.inl ⟨n, hn, rfl⟩), rfl, tagSet?_overflow n⟩
      · exact ⟨keep budget calls e, mem_delivered.mpr (.inr ⟨e, he, rfl⟩), rfl, hS⟩
  rw [hmem]
  split_ifs with hname
  · subst hname
    rw [overflowSets, Finset.mem_union, List.mem_toFinset, Finset.mem_image, or_comm]
    refine or_congr_right (exists_congr fun n => ?_)
    rw [Finset.mem_filter, List.mem_toFinset]
    exact ⟨fun h => ⟨⟨h.1.mem, h.1⟩, h.2.2⟩, fun h => ⟨h.1.2, rfl, h.2⟩⟩
  · rw [List.mem_toFinset]
    refine or_iff_right ?_
    rintro ⟨n, -, hn, -⟩
    exact hname hn.symm

/-- **The cardinality is bounded** for every metric but the wrapper's own, and for that one exactly if few enough
names go over their budget. -/
theorem bounded_iff (budget : ℕ) (calls : List (MetricEvent V)) :
    (∀ name, name ≠ CARDINALITY_EXCEEDED_METRIC → (tagSets name (delivered budget calls)).card ≤ budget) ∧
      ((∀ name, (tagSets name (delivered budget calls)).card ≤ budget) ↔
        (overflowSets budget calls).card ≤ budget) := by
  have hadmitted : ∀ name, (admitted budget (tagSetsOf name calls)).toFinset.card ≤ budget := fun name =>
    (List.toFinset_card_le _).trans (length_admitted_le _ _)
  refine ⟨fun name hname => ?_, fun h => ?_, fun h name => ?_⟩
  · rw [tagSets_delivered, if_neg hname]
    exact hadmitted name
  · have hover := h CARDINALITY_EXCEEDED_METRIC
    rwa [tagSets_delivered, if_pos rfl] at hover
  · rw [tagSets_delivered]
    split_ifs
    · exact h
    · exact hadmitted name

end Runs

/-- A counter with one tag. -/
def counter (name value : String) : MetricEvent ℕ :=
  ⟨.incr, name, 1, some { items := [("k", value)], nodup := by simp }⟩

/-- Two names go over a budget of one. -/
theorem overflow_over_budget :
    (tagSets CARDINALITY_EXCEEDED_METRIC
      (delivered 1 [counter "a" "1", counter "a" "2", counter "b" "1", counter "b" "2"])).card = 2 := by
  decide +kernel

end ResilienceKit.Metrics

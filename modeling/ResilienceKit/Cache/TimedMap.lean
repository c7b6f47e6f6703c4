import ResilienceKit.Cache.Memory
import ResilienceKit.Lib.Expiring

/-!
# Cache.TimedMap — the in-process cache as a map with deadlines

`timedMap` is what the cache is for: before each operation it takes out all that is gone, and then works on
what is left, with no test of a deadline anywhere.  The cache gives the same answers (`cache_refines`), although
it keeps what is gone until its key is used.
-/

namespace ResilienceKit

open Mealy (Timed Clocked NotBefore)

namespace InMemoryAsyncCache

open Cache PyInt Expiring

variable {V : Type} [PyInt V]

/-- The map without what is gone, under a run of operations. -/
def timedMap : Mealy (Expiring String V ℚ) (Timed ℚ (Op V)) (Ans V) where
  init := fun _ => none
  step m e :=
    let m := sweep e.time m
    let deadline (ttl : Option ℤ) : Option ℚ := ttl.map fun seconds => e.time + seconds
    match e.ev with
    | .get key => (m, .got ((m key).map Prod.fst))
    | .set key value ttl => (Function.update m key (some (value, deadline ttl)), .stored)
    | .add key value ttl =>
      match m key with
      | none => (Function.update m key (some (value, deadline ttl)), .added true)
      | some _ => (m, .added false)
    | .incr key amount ttl =>
      match m key with
      | none => (Function.update m key (some (ofInt (0 + amount), deadline ttl)), .counted (0 + amount))
      | some (value, expiry) =>
        match asInt value with
        | some n => (Function.update m key (some (ofInt (n + amount), expiry)), .counted (n + amount))
        | none => (m, .raised ⟨.typeError, 0⟩)
    | .delete key => (Function.update m key none, .deleted)

theorem fresh_eq_live (now : ℚ) (x : Option ℚ) : fresh now x = live now x := by
  cases x <;> rfl

/-! ### What an operation finds -/

variable {now : ℚ} {key : String} {s : InMemoryAsyncCache V} {m : Expiring String V ℚ}

omit [PyInt V] in
/-- The key is there for both, or what the cache has under it is gone. -/
theorem found_or_gone (key : String) (h : sweep now s.store = sweep now m) :
    (∃ v x, sweep now m key = some (v, x) ∧ s.store key = some (v, x) ∧ fresh now x = true) ∨
      (sweep now m key = none ∧ s.Gone now key) := by
  cases hm : sweep now m key with
  | some e =>
    obtain ⟨v, x⟩ := e
    have hs := hm
    rw [← h, sweep_eq_some] at hs
    exact .inl ⟨v, x, rfl, hs.1, by rw [fresh_eq_live, hs.2]⟩
  | none =>
    refine .inr ⟨rfl, fun v x hs => ?_⟩
    rw [← h, sweep_apply, Option.filter_eq_none_iff] at hm
    rw [fresh_eq_live]
    exact Bool.eq_false_iff.mpr (hm _ hs)

section Found

variable {v : V} {x : Option ℚ} (hs : s.store key = some (v, x)) (hx : fresh now x = true)
include hs hx

omit [PyInt V] in
theorem found_get : get now key s = (s, some v) := by
  simp [get, hs, hx]

omit [PyInt V] in
theorem found_add (value : V) (ttl : Option ℤ) : add now key value ttl s = (s, false) := by
  simp [add, hs, hx]

theorem found_incr {n : ℤ} (hv : asInt v = some n) (amount : ℤ) (ttl : Option ℤ) :
    incr now key amount ttl s =
      (⟨Function.update s.store key (some (ofInt (n + amount), x))⟩, .ok (n + amount)) := by
  simp [incr, base, hs, hx, hv]

/-- `incr` on a value that is no `int` leaves all as it is. -/
theorem found_incr_error (hv : asInt v = none) (amount : ℤ) (ttl : Option ℤ) :
    incr now key amount ttl s = (s, .error ⟨.typeError, 0⟩) := by
  simp [incr, base, hs, hx, hv]

theorem found_step_error (hv : asInt v = none) (amount : ℤ) (ttl : Option ℤ) :
    cache.step s ⟨now, .incr key amount ttl⟩ = (s, .raised ⟨.typeError, 0⟩) := by
  simp only [cache, found_incr_error hs hx hv]

end Found

theorem Gone.incr_eq (h : s.Gone now key) (amount : ℤ) (ttl : Option ℤ) : incr now key amount ttl s =
    (⟨Function.update s.store key (some (ofInt (0 + amount), expires now ttl))⟩, .ok (0 + amount)) := by
  rw [incr, h.base_eq]

omit [PyInt V] in
/-- What `get` drops was gone. -/
theorem Gone.get_store (h : s.Gone now key) :
    sweep now (get now key s).1.store = sweep now s.store := by
  unfold get
  cases hs : s.store key with
  | none => rfl
  | some e =>
    obtain ⟨v, x⟩ := e
    have hx := h v x hs
    simp only [hx, Bool.false_eq_true, if_false]
    refine sweep_drop (sweep_eq_none fun e he => ?_)
    obtain rfl := Option.some.inj (hs.symm.trans he)
    rwa [← fresh_eq_live]

/-- One operation: the same answer, and states that stay the same from then on. -/
theorem step_matches (e : Timed ℚ (Op V)) (h : sweep e.time s.store = sweep e.time m) :
    cache.out s e = timedMap.out m e ∧
      sweep e.time (cache.next s e).store = sweep e.time (timedMap.next m e) := by
  obtain ⟨now, op⟩ := e
  have hswept : sweep now s.store = sweep now (sweep now m) := by rw [sweep_sweep le_rfl, h]
  cases op with
  | get key =>
    obtain ⟨v, x, hm, hs, hx⟩ | ⟨hm, hgone⟩ := found_or_gone key h
    · simp only [Mealy.out, Mealy.next, cache, timedMap, found_get hs hx, hm]
      exact ⟨rfl, hswept⟩
    · simp only [Mealy.out, Mealy.next, cache, timedMap, hgone.get_eq, hgone.get_store, hm]
      exact ⟨rfl, hswept⟩
  | set key value ttl => exact ⟨rfl, sweep_update hswept key _⟩
  | add key value ttl =>
    obtain ⟨v, x, hm, hs, hx⟩ | ⟨hm, hgone⟩ := found_or_gone key h
    · simp only [Mealy.out, Mealy.next, cache, timedMap, found_add hs hx, hm]
      exact ⟨trivial, hswept⟩
    · simp only [Mealy.out, Mealy.next, cache, timedMap, hgone.add_eq, hm]
      exact ⟨trivial, sweep_update hswept key _⟩
  | incr key amount ttl =>
    obtain ⟨v, x, hm, hs, hx⟩ | ⟨hm, hgone⟩ := found_or_gone key h
    · cases hv : asInt v with
      | some n =>
        simp only [Mealy.out, Mealy.next, cache, timedMap, found_incr hs hx hv, hm, hv]
        exact ⟨trivial, sweep_update hswept key _⟩
      | none =>
        simp only [Mealy.out, Mealy.next, cache, timedMap, found_incr_error hs hx hv, hm, hv]
        exact ⟨trivial, hswept⟩
    · simp only [Mealy.out, Mealy.next, cache, timedMap, hgone.incr_eq, hm]
      exact ⟨trivial, sweep_update hswept key _⟩
  | delete key => exact ⟨rfl, sweep_update hswept key none⟩

/-! ### Runs -/

/-- The two hold the same from the last operation on. -/
def SameFrom (l : List (Mealy.Step (InMemoryAsyncCache V) (Timed ℚ (Op V)) (Ans V)))
    (s : InMemoryAsyncCache V) (m : Expiring String V ℚ) : Prop :=
  ∀ t, (∀ r ∈ l, r.ev.time ≤ t) → sweep t s.store = sweep t m

theorem SameFrom.step {l : List (Mealy.Step (InMemoryAsyncCache V) (Timed ℚ (Op V)) (Ans V))}
    {e : Timed ℚ (Op V)} (h : SameFrom l s m) (he : NotBefore l s e) :
    cache.out s e = timedMap.out m e ∧
      SameFrom (l ++ [cache.record s e]) (cache.next s e) (timedMap.next m e) := by
  obtain ⟨hout, hnext⟩ := step_matches e (h e.time he)
  refine ⟨hout, fun t ht => sweep_eq_later hnext ?_⟩
  exact ht (cache.record s e) (List.mem_append_right l List.mem_cons_self)

theorem runs_match {es : List (Timed ℚ (Op V))} (h : Clocked es) :
    cache.outs cache.init es = timedMap.outs timedMap.init es ∧
      SameFrom (cache.log cache.init es) (cache.exec cache.init es) (timedMap.exec timedMap.init es) := by
  induction es using List.reverseRecOn with
  | nil => exact ⟨rfl, fun t _ => rfl⟩
  | append_singleton es e ih =>
    obtain ⟨houts, hsame⟩ := ih h.of_append
    obtain ⟨hout, hnext⟩ := hsame.step (h.along.last)
    rw [Mealy.outs_append, Mealy.outs_append, Mealy.exec_concat, Mealy.exec_concat, Mealy.log_concat, houts]
    refine ⟨?_, hnext⟩
    rw [Mealy.outs_cons, Mealy.outs_cons, hout]
    rfl

end InMemoryAsyncCache

end ResilienceKit

import Mathlib.Algebra.Order.Ring.Unbundled.Rat
import Mathlib.Data.Rat.Defs
import Mathlib.Logic.Function.Basic
import Mathlib.Tactic.SplitIfs
import ResilienceKit.Exceptions
import ResilienceKit.Lib.Mealy

/-!
# Cache.Memory — the in-process cache

`InMemoryAsyncCache` keeps a value and an optional deadline for each key.  An entry is gone from its deadline
on; it is dropped when its key is read next.  The values are any objects; `incr` asks of them whether they are
an `int` (`PyInt`).
-/

namespace ResilienceKit

open Mealy (Timed)

/-- What callers store: an `int`, or bytes. -/
inductive CacheValue
  | int (n : ℤ)
  | bytes (s : String)
  deriving DecidableEq, Repr

/-- Objects, some of which are an `int`. -/
class PyInt (V : Type) where
  /-- The number, if `isinstance(value, int)`. -/
  asInt : V → Option ℤ
  ofInt : ℤ → V

instance : PyInt CacheValue where
  asInt
    | .int n => some n
    | .bytes _ => none
  ofInt := .int

@[simp] theorem CacheValue.asInt_int (n : ℤ) : PyInt.asInt (CacheValue.int n) = some n := rfl
@[simp] theorem CacheValue.asInt_bytes (s : String) : PyInt.asInt (CacheValue.bytes s) = none := rfl
@[simp] theorem CacheValue.ofInt_eq (n : ℤ) : PyInt.ofInt n = CacheValue.int n := rfl

namespace Cache

inductive Op (V : Type := CacheValue)
  | get (key : String)
  | set (key : String) (value : V) (ttl : Option ℤ)
  | add (key : String) (value : V) (ttl : Option ℤ)
  | incr (key : String) (amount : ℤ) (ttl : Option ℤ)
  | delete (key : String)
  deriving DecidableEq

def Op.key {V : Type} : Op V → String
  | .get k => k
  | .set k _ _ => k
  | .add k _ _ => k
  | .incr k _ _ => k
  | .delete k => k

/-- What an operation returns or raises. -/
inductive Ans (V : Type := CacheValue)
  | got (value : Option V)
  | stored
  | added (created : Bool)
  | counted (n : ℤ)
  | deleted
  | raised (exc : PyExc)
  deriving DecidableEq

end Cache

structure InMemoryAsyncCache (V : Type := CacheValue) where
  store : String → Option (V × Option ℚ) := fun _ => none

namespace InMemoryAsyncCache

open Cache PyInt

variable {V : Type}

/-- `_expires`. -/
def expires (now : ℚ) (ttl : Option ℤ) : Option ℚ := ttl.map fun seconds => now + seconds

/-- The deadline has not come. -/
def fresh (now : ℚ) (expires : Option ℚ) : Bool :=
  match expires with
  | none => true
  | some x => now < x

def get (now : ℚ) (key : String) (s : InMemoryAsyncCache V) : InMemoryAsyncCache V × Option V :=
  match s.store key with
  | none => (s, none)
  | some (value, expires) =>
    if fresh now expires then (s, some value) else (⟨Function.update s.store key none⟩, none)

def set (now : ℚ) (key : String) (value : V) (ttl : Option ℤ) (s : InMemoryAsyncCache V) :
    InMemoryAsyncCache V :=
  ⟨Function.update s.store key (some (value, expires now ttl))⟩

def add (now : ℚ) (key : String) (value : V) (ttl : Option ℤ) (s : InMemoryAsyncCache V) :
    InMemoryAsyncCache V × Bool :=
  match s.store key with
  | none => (set now key value ttl s, true)
  | some (_, expires) => if fresh now expires then (s, false) else (set now key value ttl s, true)

/-- The value and the deadline that `incr` starts from. -/
def base [PyInt V] (now : ℚ) (key : String) (ttl : Option ℤ) (s : InMemoryAsyncCache V) :
    Except PyExc (ℤ × Option ℚ) :=
  match s.store key with
  | none => .ok (0, expires now ttl)
  | some (current, existing) =>
    if fresh now existing then
      match asInt current with
      | some n => .ok (n, existing)
      | none => .error ⟨.typeError, 0⟩
    else .ok (0, expires now ttl)

def incr [PyInt V] (now : ℚ) (key : String) (amount : ℤ) (ttl : Option ℤ) (s : InMemoryAsyncCache V) :
    InMemoryAsyncCache V × Except PyExc ℤ :=
  match base now key ttl s with
  | .error exc => (s, .error exc)
  | .ok (n, deadline) =>
    (⟨Function.update s.store key (some (ofInt (n + amount), deadline))⟩, .ok (n + amount))

def delete (key : String) (s : InMemoryAsyncCache V) : InMemoryAsyncCache V :=
  ⟨Function.update s.store key none⟩

/-- The cache under a run of operations. -/
def cache [PyInt V] : Mealy (InMemoryAsyncCache V) (Timed ℚ (Op V)) (Ans V) where
  init := {}
  step s e :=
    match e.ev with
    | .get key =>
      let (s, v) := get e.time key s
      (s, .got v)
    | .set key value ttl => (set e.time key value ttl s, .stored)
    | .add key value ttl =>
      let (s, created) := add e.time key value ttl s
      (s, .added created)
    | .incr key amount ttl =>
      match incr e.time key amount ttl s with
      | (s, .ok n) => (s, .counted n)
      | (s, .error exc) => (s, .raised exc)
    | .delete key => (delete key s, .deleted)

/-! ### Entries that are gone -/

/-- Nothing is stored under the key at `now` or later. -/
def Gone (now : ℚ) (key : String) (s : InMemoryAsyncCache V) : Prop :=
  ∀ v x, s.store key = some (v, x) → fresh now x = false

variable {now t : ℚ} {key k : String} {s : InMemoryAsyncCache V}

theorem fresh_false_of_le {x : Option ℚ} (h : fresh now x = false) (hle : now ≤ t) : fresh t x = false := by
  cases x with
  | none => cases h
  | some x =>
    have hx : x ≤ now := not_lt.mp (of_decide_eq_false h)
    exact decide_eq_false (not_lt.mpr (hx.trans hle))

theorem Gone.later (h : Gone now key s) (hle : now ≤ t) : Gone t key s :=
  fun v x hs => fresh_false_of_le (h v x hs) hle

theorem Gone.congr {s' : InMemoryAsyncCache V} (h : Gone now key s) (hs : s'.store key = s.store key) :
    Gone now key s' :=
  fun v x h' => h v x (hs ▸ h')

theorem gone_of_none (h : s.store key = none) : Gone now key s := by
  intro v x hs
  rw [h] at hs
  cases hs

theorem Gone.get_eq (h : Gone now key s) : (get now key s).2 = none := by
  unfold get
  cases hs : s.store key with
  | none => rfl
  | some e =>
    obtain ⟨v, x⟩ := e
    simp [h v x hs]

theorem Gone.add_eq (h : Gone now key s) (value : V) (ttl : Option ℤ) :
    add now key value ttl s = (set now key value ttl s, true) := by
  unfold add
  cases hs : s.store key with
  | none => rfl
  | some e =>
    obtain ⟨v, x⟩ := e
    simp [h v x hs]

theorem Gone.base_eq [PyInt V] (h : Gone now key s) (ttl : Option ℤ) :
    base now key ttl s = .ok (0, expires now ttl) := by
  unfold base
  cases hs : s.store key with
  | none => rfl
  | some e =>
    obtain ⟨v, x⟩ := e
    simp [h v x hs]

/-! ### Frames: an operation leaves the entries of the other keys alone -/

section Frame

variable (h : k ≠ key)
include h

theorem get_other : (get now key s).1.store k = s.store k := by
  unfold get
  cases s.store key with
  | none => rfl
  | some e =>
    simp only
    split_ifs
    · rfl
    · exact Function.update_of_ne h _ _

theorem set_other (value : V) (ttl : Option ℤ) : (set now key value ttl s).store k = s.store k :=
  Function.update_of_ne h _ _

theorem add_other (value : V) (ttl : Option ℤ) : (add now key value ttl s).1.store k = s.store k := by
  unfold add
  cases s.store key with
  | none => exact set_other h value ttl
  | some e =>
    simp only
    split_ifs
    · rfl
    · exact set_other h value ttl

theorem delete_other : (delete key s).store k = s.store k := Function.update_of_ne h _ _

end Frame

theorem Gone.get_gone (h : Gone now key s) : Gone now key (get now key s).1 := by
  unfold get
  cases hs : s.store key with
  | none => exact h
  | some e =>
    simp only
    split_ifs
    · exact h
    · exact gone_of_none (Function.update_self ..)

theorem delete_gone (now : ℚ) (key : String) (s : InMemoryAsyncCache V) : Gone now key (delete key s) :=
  gone_of_none (Function.update_self ..)

end InMemoryAsyncCache

end ResilienceKit

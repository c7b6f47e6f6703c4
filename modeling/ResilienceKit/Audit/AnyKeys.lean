import ResilienceKit.Audit.Sanitizers
import ResilienceKit.Exceptions
import ResilienceKit.Lib.Traverse

/-!
# Audit.AnyKeys — the walk of the default redactor, for keys of any type

The keys of a payload may be any hashable objects, and `key.lower()` raises for most that are no strings.
`KeyOps` says what `key.lower()` and `fragment in lowered` make of a key; `walk?` is the walk with what it
raises.  `walk?_isOk_iff` says which payloads it gets through, and for string keys it is the walk of
`Audit.Sanitizers` (`walk?_ofValue`).
-/

namespace ResilienceKit.Audit

/-- A payload whose keys are of type `K`. -/
inductive Tree (K S : Type)
  | text (s : String)
  | scalar (v : S)
  | list (vs : List (Tree K S))
  | tuple (vs : List (Tree K S))
  | dict (items : List (K × Tree K S))
  | mapping (items : List (K × Tree K S))

/-- `key.lower()`, and `fragment in lowered`, for keys of type `K`. -/
structure KeyOps (K L : Type) where
  lower : K → Except PyExc L
  contains : L → String → Except PyExc Bool

/-- Hashable objects as keys: strings, bytes and those that have no `lower`. -/
inductive Key (O : Type)
  | str (s : String)
  | bytes (b : List UInt8)
  | other (o : O)
  deriving DecidableEq

/-- A lowered `bytes` object does not take a string on the left of `in`. -/
def Key.ops (lower : String → String) (lowerBytes : List UInt8 → List UInt8) (O : Type) :
    KeyOps (Key O) (String ⊕ List UInt8) where
  lower
    | .str s => .ok (.inl (lower s))
    | .bytes b => .ok (.inr (lowerBytes b))
    | .other _ => .error ⟨.attributeError, 0⟩
  contains
    | .inl s, fragment => .ok (decide (fragment.toList <:+: s.toList))
    | .inr _, _ => .error ⟨.typeError, 0⟩

namespace DefaultRedactor

variable {K L S : Type} (ops : KeyOps K L) (r : DefaultRedactor)

/-- `_is_redacted_key` -/
def isRedactedKey? (key : K) : Except PyExc Bool := do
  let lowered ← ops.lower key
  r.fields.anyM (ops.contains lowered)

/-- `_walk_dict`: the keys of a mapping are distinct, so every item gets a place of its own. -/
def walkDict? (walk : Tree K S → Except PyExc (Tree K S)) (source : List (K × Tree K S)) :
    Except PyExc (List (K × Tree K S)) :=
  source.mapM fun x => do
    if ← r.isRedactedKey? ops x.1 then return (x.1, .text REDACTED)
    else return (x.1, ← walk x.2)

/-- `_walk`, where the interpreter's stack has room for so many nested calls of it. -/
def walk? : ℕ → Tree K S → Except PyExc (Tree K S)
  | 0, _ => .error ⟨.recursionError, 0⟩
  | room + 1, .dict items => do return .dict (← r.walkDict? ops (walk? room) items)
  | room + 1, .list vs => do return .list (← vs.mapM (walk? room))
  | room + 1, .tuple vs => do return .tuple (← vs.mapM (walk? room))
  | _ + 1, .text s => return .text s
  | _ + 1, .scalar v => return .scalar v
  | _ + 1, .mapping items => return .mapping items

/-- `sanitize` -/
def sanitize? (room : ℕ) (payload : List (K × Tree K S)) : Except PyExc (List (K × Tree K S)) :=
  r.walkDict? ops (r.walk? ops room) payload

end DefaultRedactor

/-! ### Which payloads the walk gets through -/

namespace DefaultRedactor

variable {K L S : Type} {ops : KeyOps K L} {r : DefaultRedactor}

/-- The walk comes to no key that it cannot lower and search, and not too deep. -/
def Walkable (ops : KeyOps K L) (r : DefaultRedactor) : ℕ → Tree K S → Prop
  | 0, _ => False
  | room + 1, .dict items =>
    ∀ x ∈ items, ∃ b, r.isRedactedKey? ops x.1 = .ok b ∧ (b = false → Walkable ops r room x.2)
  | room + 1, .list vs => ∀ v ∈ vs, Walkable ops r room v
  | room + 1, .tuple vs => ∀ v ∈ vs, Walkable ops r room v
  | _ + 1, _ => True

theorem walkDict?_isOk_iff {walk : Tree K S → Except PyExc (Tree K S)}
    {source : List (K × Tree K S)} : (∃ out, r.walkDict? ops walk source = .ok out) ↔
      ∀ x ∈ source, ∃ b, r.isRedactedKey? ops x.1 = .ok b ∧
        (b = false → ∃ out, walk x.2 = .ok out) := by
  unfold walkDict?
  rw [Traverse.mapM_isOk_iff]
  refine forall₂_congr fun x _ => ?_
  cases hb : r.isRedactedKey? ops x.1 with
  | error e =>
    refine iff_of_false (Traverse.not_isOk_error e) ?_
    rintro ⟨b, h, -⟩
    cases h
  | ok b =>
    cases b with
    | true => exact iff_of_true (Traverse.isOk_ok _) ⟨true, rfl, fun h => by cases h⟩
    | false =>
      refine (Traverse.isOk_map_iff (g := fun v => (x.1, v))).trans ⟨fun h => ⟨false, rfl, fun _ => h⟩, ?_⟩
      rintro ⟨b, h, hout⟩
      obtain rfl := Except.ok.inj h
      exact hout rfl

theorem walk?_isOk_iff (room : ℕ) (t : Tree K S) :
    (∃ out, r.walk? ops room t = .ok out) ↔ Walkable ops r room t := by
  induction room generalizing t with
  | zero => exact iff_of_false (Traverse.not_isOk_error _) id
  | succ room ih =>
    cases t with
    | text s => exact iff_of_true (Traverse.isOk_ok _) trivial
    | scalar v => exact iff_of_true (Traverse.isOk_ok _) trivial
    | mapping items => exact iff_of_true (Traverse.isOk_ok _) trivial
    | list vs =>
      rw [walk?, Traverse.isOk_map_iff, Traverse.mapM_isOk_iff]
      exact forall₂_congr fun v _ => ih v
    | tuple vs =>
      rw [walk?, Traverse.isOk_map_iff, Traverse.mapM_isOk_iff]
      exact forall₂_congr fun v _ => ih v
    | dict items =>
      rw [walk?, Traverse.isOk_map_iff, walkDict?_isOk_iff]
      refine forall₂_congr fun x _ => exists_congr fun b => and_congr_right fun _ => ?_
      exact imp_congr_right fun _ => ih x.2

/-- A payload is sanitised exactly when the walk gets through it, the payload itself being a mapping. -/
theorem sanitize?_isOk_iff {room : ℕ} {payload : List (K × Tree K S)} :
    (∃ out, r.sanitize? ops room payload = .ok out) ↔ Walkable ops r (room + 1) (.dict payload) := by
  rw [sanitize?, walkDict?_isOk_iff, Walkable]
  refine forall₂_congr fun x _ => exists_congr fun b => and_congr_right fun _ => ?_
  exact imp_congr_right fun _ => walk?_isOk_iff room x.2

/-! ### String keys: the walk of `Audit.Sanitizers` -/

section Strings

variable (lower : String → String)

/-- Keys that are strings. -/
def strOps : KeyOps String String where
  lower key := .ok (lower key)
  contains lowered fragment := .ok (decide (fragment.toList <:+: lowered.toList))

mutual

def ofValue : Value S → Tree String S
  | .text s => .text s
  | .scalar v => .scalar v
  | .list vs => .list (ofValues vs)
  | .tuple vs => .tuple (ofValues vs)
  | .dict items => .dict (ofItems items)
  | .mapping items => .mapping (ofItems items)

def ofValues : List (Value S) → List (Tree String S)
  | [] => []
  | v :: vs => ofValue v :: ofValues vs

def ofItems : List (String × Value S) → List (String × Tree String S)
  | [] => []
  | (key, value) :: items => (key, ofValue value) :: ofItems items

end

theorem ofValues_eq_map (vs : List (Value S)) : ofValues vs = vs.map ofValue := by
  induction vs with
  | nil => rfl
  | cons v vs ih => rw [ofValues, ih, List.map_cons]

theorem ofItems_eq_map (items : List (String × Value S)) :
    ofItems items = items.map fun x => (x.1, ofValue x.2) := by
  induction items with
  | nil => rfl
  | cons x items ih => rw [ofItems, ih, List.map_cons]

theorem isRedactedKey?_strOps (key : String) :
    r.isRedactedKey? (strOps lower) key = .ok (r.isRedactedKey lower key) :=
  List.anyM_pure

/-- What holds of each member of a list with enough room holds of all with enough room. -/
theorem exists_room {α : Type} {P : α → ℕ → Prop} {l : List α}
    (h : ∀ a ∈ l, ∃ n, ∀ room, n ≤ room → P a room) :
    ∃ n, ∀ room, n ≤ room → ∀ a ∈ l, P a room := by
  induction l with
  | nil => exact ⟨0, fun _ _ a ha => absurd ha List.not_mem_nil⟩
  | cons a l ih =>
    obtain ⟨m, hm⟩ := h a List.mem_cons_self
    obtain ⟨n, hn⟩ := ih fun b hb => h b (List.mem_cons_of_mem a hb)
    refine ⟨max m n, fun room hr b hb => ?_⟩
    rcases List.mem_cons.mp hb with rfl | hb
    · exact hm room (le_trans (le_max_left m n) hr)
    · exact hn room (le_trans (le_max_right m n) hr) b hb

theorem walkDict?_ofItems {items : List (String × Value S)} (hd : (items.map Prod.fst).Nodup)
    {walk : Tree String S → Except PyExc (Tree String S)}
    (hw : ∀ x ∈ items, walk (ofValue x.2) = .ok (ofValue (Audit.walk (r.isRedactedKey lower) id x.2))) :
    r.walkDict? (strOps lower) walk (ofItems items) =
      .ok (ofItems (walkDict (r.isRedactedKey lower) id items)) := by
  rw [walkDict_eq_map _ _ hd, ofItems_eq_map, ofItems_eq_map, walkDict?, List.mapM_map, List.map_map]
  refine Traverse.mapM_eq_map fun x hx => ?_
  simp only [isRedactedKey?_strOps, Function.comp_apply, walkItem]
  cases hb : r.isRedactedKey lower x.1 with
  | true => rfl
  | false =>
    simp only [hw x hx]
    rfl

/-- With string keys and enough room the walk raises nothing and is the walk of the sanitizers. -/
theorem walk?_ofValue {v : Value S} (hd : v.Distinct) : ∃ n, ∀ room, n ≤ room →
    r.walk? (strOps lower) room (ofValue v) =
      .ok (ofValue (Audit.walk (r.isRedactedKey lower) id v)) := by
  have hmembers : ∀ vs : List (Value S), (∀ v ∈ vs, v.Distinct → ∃ n, ∀ room, n ≤ room →
      r.walk? (strOps lower) room (ofValue v) =
        .ok (ofValue (Audit.walk (r.isRedactedKey lower) id v))) → (∀ v ∈ vs, v.Distinct) →
      ∃ n, ∀ room, n ≤ room → (ofValues vs).mapM (r.walk? (strOps lower) room) =
        .ok (ofValues (walkList (r.isRedactedKey lower) id vs)) := by
    intro vs ih hd
    obtain ⟨n, hn⟩ := exists_room fun v hv => ih v hv (hd v hv)
    refine ⟨n, fun room hr => ?_⟩
    rw [ofValues_eq_map, List.mapM_map, walkList_eq_map, ofValues_eq_map, List.map_map]
    exact Traverse.mapM_eq_map fun v hv => hn room hr v hv
  induction v with
  | text s => exact ⟨1, fun room hr => by obtain ⟨k, rfl⟩ := Nat.exists_eq_add_of_le' hr; rfl⟩
  | scalar v => exact ⟨1, fun room hr => by obtain ⟨k, rfl⟩ := Nat.exists_eq_add_of_le' hr; rfl⟩
  | mapping items ih =>
    exact ⟨1, fun room hr => by obtain ⟨k, rfl⟩ := Nat.exists_eq_add_of_le' hr; rfl⟩
  | list vs ih =>
    rw [Value.Distinct, Value.distinctList_iff] at hd
    obtain ⟨n, hn⟩ := hmembers vs ih hd
    refine ⟨n + 1, fun room hr => ?_⟩
    obtain ⟨k, rfl⟩ := Nat.exists_eq_add_of_le' (Nat.le_of_add_left_le hr)
    rw [ofValue, walk?, hn k (Nat.le_of_succ_le_succ hr)]
    rfl
  | tuple vs ih =>
    rw [Value.Distinct, Value.distinctList_iff] at hd
    obtain ⟨n, hn⟩ := hmembers vs ih hd
    refine ⟨n + 1, fun room hr => ?_⟩
    obtain ⟨k, rfl⟩ := Nat.exists_eq_add_of_le' (Nat.le_of_add_left_le hr)
    rw [ofValue, walk?, hn k (Nat.le_of_succ_le_succ hr)]
    rfl
  | dict items ih =>
    rw [Value.Distinct, Value.distinctItems_iff] at hd
    obtain ⟨n, hn⟩ := exists_room fun x hx => ih x hx (hd.2 x hx)
    refine ⟨n + 1, fun room hr => ?_⟩
    obtain ⟨k, rfl⟩ := Nat.exists_eq_add_of_le' (Nat.le_of_add_left_le hr)
    rw [ofValue, walk?, walkDict?_ofItems lower hd.1 (hn k (Nat.le_of_succ_le_succ hr))]
    rfl

/-- So does `sanitize`. -/
theorem sanitize?_ofItems (payload : Payload S) : ∃ n, ∀ room, n ≤ room →
    r.sanitize? (strOps lower) room (ofItems payload.items) =
      .ok (ofItems (r.sanitize lower payload).items) := by
  have hd := payload.distinct
  rw [Value.Distinct, Value.distinctItems_iff] at hd
  obtain ⟨n, hn⟩ := exists_room fun x hx => walk?_ofValue (r := r) lower (hd.2 x hx)
  exact ⟨n, fun room hr => walkDict?_ofItems lower hd.1 (hn room hr)⟩

end Strings

end DefaultRedactor

end ResilienceKit.Audit

import Mathlib.Data.List.Infix
import Mathlib.Data.List.Nodup

/-!
# Audit.Sanitizers — redaction by field name and by pattern

A payload is a tree of mappings, lists, tuples and scalars.  A nested mapping is a `dict` or some other
`Mapping`; the walk looks into the former only.  Strings are scalars of their own, since
`RegexRedactor` scans them.  `str.lower` and the compiled patterns are parameters.
-/

namespace ResilienceKit.Audit

/-! ### Payloads -/

/-- A value; `S` has the scalars that are no strings. -/
inductive Value (S : Type)
  | text (s : String)
  | scalar (v : S)
  | list (vs : List (Value S))
  | tuple (vs : List (Value S))
  | dict (items : List (String × Value S))
  | mapping (items : List (String × Value S))

namespace Value

variable {S : Type}

/-- Induction over the members of a value. -/
@[elab_as_elim, induction_eliminator]
theorem induct {P : Value S → Prop} (text : ∀ s, P (.text s)) (scalar : ∀ v, P (.scalar v))
    (list : ∀ vs, (∀ v ∈ vs, P v) → P (.list vs)) (tuple : ∀ vs, (∀ v ∈ vs, P v) → P (.tuple vs))
    (dict : ∀ items, (∀ x ∈ items, P x.2) → P (.dict items))
    (mapping : ∀ items, (∀ x ∈ items, P x.2) → P (.mapping items)) (v : Value S) : P v :=
  @Value.rec S P (fun vs => ∀ v ∈ vs, P v) (fun items => ∀ x ∈ items, P x.2) (fun x => P x.2)
    text scalar list tuple dict mapping
    (fun _ h => absurd h List.not_mem_nil)
    (fun _ _ hv hvs => List.forall_mem_cons.mpr ⟨hv, hvs⟩)
    (fun _ h => absurd h List.not_mem_nil)
    (fun _ _ hx hxs => List.forall_mem_cons.mpr ⟨hx, hxs⟩)
    (fun _ _ hv => hv) v

mutual

/-- The keys of every mapping are distinct. -/
def Distinct : Value S → Prop
  | .text _ => True
  | .scalar _ => True
  | .list vs => DistinctList vs
  | .tuple vs => DistinctList vs
  | .dict items => (items.map Prod.fst).Nodup ∧ DistinctItems items
  | .mapping items => (items.map Prod.fst).Nodup ∧ DistinctItems items

def DistinctList : List (Value S) → Prop
  | [] => True
  | v :: vs => v.Distinct ∧ DistinctList vs

def DistinctItems : List (String × Value S) → Prop
  | [] => True
  | (_, v) :: items => v.Distinct ∧ DistinctItems items

end

theorem distinctList_iff {vs : List (Value S)} : DistinctList vs ↔ ∀ v ∈ vs, v.Distinct := by
  induction vs with
  | nil => simp [DistinctList]
  | cons v vs ih => simp [DistinctList, ih]

theorem distinctItems_iff {items : List (String × Value S)} :
    DistinctItems items ↔ ∀ x ∈ items, x.2.Distinct := by
  induction items with
  | nil => simp [DistinctItems]
  | cons x items ih => simp [DistinctItems, ih]

end Value

/-- The mapping that is to be sanitized. -/
structure Payload (S : Type) where
  items : List (String × Value S)
  distinct : (Value.mapping items).Distinct

/-! ### Dicts -/

section Dict

variable {α β : Type}

/-- `out[key] = value`; a key that is there keeps its place. -/
def setItem (out : List (String × α)) (key : String) (value : α) : List (String × α) :=
  if key ∈ out.map Prod.fst then out.map fun x => if x.1 = key then (key, value) else x
  else out ++ [(key, value)]

/-- A dict that is filled item by item. -/
def dictOf (items : List (String × α)) : List (String × α) :=
  items.foldl (fun out x => setItem out x.1 x.2) []

theorem dictOf_of_nodup {items : List (String × α)} (h : (items.map Prod.fst).Nodup) :
    dictOf items = items := by
  induction items using List.reverseRecOn with
  | nil => rfl
  | append_singleton items x ih =>
    rw [List.map_append, List.nodup_append] at h
    obtain ⟨hitems, -, hnew⟩ := h
    have hstep : dictOf (items ++ [x]) = setItem (dictOf items) x.1 x.2 := by
      rw [dictOf, List.foldl_append]
      rfl
    have hfresh : x.1 ∉ items.map Prod.fst := fun hx => hnew x.1 hx x.1 (by simp) rfl
    rw [hstep, ih hitems, setItem, if_neg hfresh]

end Dict

/-! ### The walk -/

def REDACTED : String := "[REDACTED]"

section Walk

variable {S : Type} (sensitive : String → Bool) (override : Value S → Value S)

mutual

/-- `_walk`; `override` is what the subclass makes of the value that the base class has walked. -/
def walk : Value S → Value S
  | .dict items => override (.dict (dictOf (walkItems items)))
  | .list vs => override (.list (walkList vs))
  | .tuple vs => override (.tuple (walkList vs))
  | .text s => override (.text s)
  | .scalar v => override (.scalar v)
  | .mapping items => override (.mapping items)

def walkList : List (Value S) → List (Value S)
  | [] => []
  | v :: vs => walk v :: walkList vs

/-- The items that `_walk_dict` puts into its dict. -/
def walkItems : List (String × Value S) → List (String × Value S)
  | [] => []
  | (key, value) :: items =>
    (key, if sensitive key then .text REDACTED else walk value) :: walkItems items

end

/-- `_walk_dict` -/
def walkDict (source : List (String × Value S)) : List (String × Value S) :=
  dictOf (walkItems sensitive override source)

def walkItem (x : String × Value S) : String × Value S :=
  (x.1, if sensitive x.1 then .text REDACTED else walk sensitive override x.2)

theorem walkList_eq_map (vs : List (Value S)) :
    walkList sensitive override vs = vs.map (walk sensitive override) := by
  induction vs with
  | nil => rfl
  | cons v vs ih => rw [walkList, ih, List.map_cons]

theorem walkItems_eq_map (items : List (String × Value S)) :
    walkItems sensitive override items = items.map (walkItem sensitive override) := by
  induction items with
  | nil => rfl
  | cons x items ih =>
    rw [walkItems, ih, List.map_cons]
    rfl

theorem walkItems_keys (items : List (String × Value S)) :
    (walkItems sensitive override items).map Prod.fst = items.map Prod.fst := by
  rw [walkItems_eq_map, List.map_map]
  rfl

/-- With distinct keys the loop of `_walk_dict` is a map. -/
theorem walkDict_eq_map {items : List (String × Value S)} (h : (items.map Prod.fst).Nodup) :
    walkDict sensitive override items = items.map (walkItem sensitive override) := by
  rw [walkDict, dictOf_of_nodup, walkItems_eq_map]
  rwa [walkItems_keys]

variable {sensitive override}

theorem walkDict_distinct {items : List (String × Value S)} (h : (items.map Prod.fst).Nodup)
    (hv : ∀ x ∈ items, (walk sensitive override x.2).Distinct) :
    (Value.mapping (walkDict sensitive override items)).Distinct := by
  rw [walkDict_eq_map _ _ h, Value.Distinct, Value.distinctItems_iff]
  refine ⟨?_, fun y hy => ?_⟩
  · rw [List.map_map]
    exact h
  · obtain ⟨x, hx, rfl⟩ := List.mem_map.mp hy
    unfold walkItem
    split_ifs
    · simp [Value.Distinct]
    · exact hv x hx

/-- The walk keeps keys distinct. -/
theorem walk_distinct (hover : ∀ v : Value S, v.Distinct → (override v).Distinct) {v : Value S}
    (h : v.Distinct) : (walk sensitive override v).Distinct := by
  induction v with
  | text s => exact hover _ h
  | scalar v => exact hover _ h
  | list vs ih =>
    rw [Value.Distinct, Value.distinctList_iff] at h
    rw [walk, walkList_eq_map]
    refine hover _ (Value.distinctList_iff.mpr fun w hw => ?_)
    obtain ⟨v, hv, rfl⟩ := List.mem_map.mp hw
    exact ih v hv (h v hv)
  | tuple vs ih =>
    rw [Value.Distinct, Value.distinctList_iff] at h
    rw [walk, walkList_eq_map]
    refine hover _ (Value.distinctList_iff.mpr fun w hw => ?_)
    obtain ⟨v, hv, rfl⟩ := List.mem_map.mp hw
    exact ih v hv (h v hv)
  | dict items ih =>
    rw [Value.Distinct, Value.distinctItems_iff] at h
    exact hover _ (walkDict_distinct h.1 fun x hx => ih x hx (h.2 x hx))
  | mapping items ih => exact hover _ h

theorem sanitize_distinct (hover : ∀ v : Value S, v.Distinct → (override v).Distinct)
    (payload : Payload S) : (Value.mapping (walkDict sensitive override payload.items)).Distinct := by
  have h := payload.distinct
  rw [Value.Distinct, Value.distinctItems_iff] at h
  exact walkDict_distinct h.1 fun x hx => walk_distinct hover (h.2 x hx)

end Walk

/-! ### The redactors -/

variable (lower : String → String) {S : Type}

structure DefaultRedactor where
  fields : List String

namespace DefaultRedactor

def DEFAULT_FIELDS : List String :=
  ["password", "token", "secret", "authorization", "api_key", "x-api-key", "cookie", "set-cookie"]

/-- The constructor. -/
def init (fields : Option (List String)) : DefaultRedactor :=
  ⟨(fields.getD DEFAULT_FIELDS).map lower⟩

variable (r : DefaultRedactor)

/-- `_is_redacted_key`: some fragment lies in the lower-cased name. -/
def isRedactedKey (key : String) : Bool :=
  r.fields.any fun fragment => decide (fragment.toList <:+: (lower key).toList)

def sanitize (payload : Payload S) : Payload S where
  items := walkDict (r.isRedactedKey lower) id payload.items
  distinct := sanitize_distinct (fun _ h => h) payload

end DefaultRedactor

/-- A rule of `RegexRedactor`. -/
structure PiiPattern where
  name : String
  /-- `pattern.sub(repl, text)`; `repl` is given the text of the match. -/
  sub : (String → String) → String → String
  validator : Option (String → Bool) := none

structure RegexRedactor extends DefaultRedactor where
  patterns : List PiiPattern

namespace RegexRedactor

/-- The constructor; `PATTERNS` are those of the class. -/
def init (PATTERNS : List PiiPattern) (fields : Option (List String))
    (patterns : Option (List PiiPattern)) : RegexRedactor :=
  { DefaultRedactor.init lower fields with patterns := patterns.getD PATTERNS }

variable (r : RegexRedactor)

/-- `_scrub` -/
def scrub (text : String) : String :=
  r.patterns.foldl (fun text rule =>
    match rule.validator with
    | none => rule.sub (fun _ => REDACTED) text
    | some check => rule.sub (fun group => if check group then REDACTED else group) text) text

/-- What `_walk` makes of the value that the base class has walked. -/
def scan : Value S → Value S
  | .text s => .text (r.scrub s)
  | walked => walked

theorem scan_distinct {v : Value S} (h : v.Distinct) : (r.scan v).Distinct := by
  cases v with
  | text s => simp [scan, Value.Distinct]
  | _ => exact h

def sanitize (payload : Payload S) : Payload S where
  items := walkDict (r.isRedactedKey lower) r.scan payload.items
  distinct := sanitize_distinct (fun _ => r.scan_distinct) payload

end RegexRedactor

end ResilienceKit.Audit

import ResilienceKit.Audit.Redaction

/-!
# Audit.Positions — the output of the default redactor, position by position

A position is the way to it from the root: keys of dicts, indices of lists and tuples.  `Exact` says of every
position what the output has there.  A mapping that is no dict is a leaf for the walk and for positions alike.
-/

namespace ResilienceKit.Audit

variable {S : Type}

/-! ### Positions -/

/-- From a value to one of its members. -/
inductive Hop
  | key (k : String)
  | index (i : ℕ)
  deriving DecidableEq

/-- What a position holds, its members apart. -/
inductive Node (S : Type)
  | text (s : String)
  | scalar (v : S)
  | list (length : ℕ)
  | tuple (length : ℕ)
  | dict (keys : List String)
  | mapping (items : List (String × Value S))

namespace Value

def node : Value S → Node S
  | .text s => .text s
  | .scalar v => .scalar v
  | .list vs => .list vs.length
  | .tuple vs => .tuple vs.length
  | .dict items => .dict (items.map Prod.fst)
  | .mapping items => .mapping items

def member : Value S → Hop → Option (Value S)
  | .dict items, .key k => items.lookup k
  | .list vs, .index i => vs[i]?
  | .tuple vs, .index i => vs[i]?
  | _, _ => none

/-- The value at a position. -/
def reach (v : Value S) : List Hop → Option (Value S)
  | [] => some v
  | hop :: path => (v.member hop).bind fun w => w.reach path

/-- The node at a position. -/
def nodeAt (v : Value S) (path : List Hop) : Option (Node S) := (v.reach path).map node

@[simp] theorem reach_nil (v : Value S) : v.reach [] = some v := rfl

theorem reach_cons (v : Value S) (hop : Hop) (path : List Hop) :
    v.reach (hop :: path) = (v.member hop).bind fun w => w.reach path := rfl

theorem reach_append (v : Value S) (path rest : List Hop) :
    v.reach (path ++ rest) = (v.reach path).bind fun w => w.reach rest := by
  induction path generalizing v with
  | nil => rfl
  | cons hop path ih =>
    rw [List.cons_append, reach_cons, reach_cons, Option.bind_assoc]
    congr 1
    funext w
    exact ih w

theorem reach_concat (v : Value S) (path : List Hop) (hop : Hop) :
    v.reach (path ++ [hop]) = (v.reach path).bind fun w => w.member hop := by
  rw [reach_append]
  congr 1
  funext w
  exact Option.bind_fun_some (w.member hop)

theorem mem_of_lookup {items : List (String × Value S)} {k : String} {v : Value S}
    (h : items.lookup k = some v) : (k, v) ∈ items := by
  obtain ⟨l, l', rfl, -⟩ := List.lookup_eq_some_iff.mp h
  exact List.mem_append_right l List.mem_cons_self

theorem Distinct.member {v w : Value S} {hop : Hop} (h : v.Distinct) (hw : v.member hop = some w) :
    w.Distinct := by
  cases v with
  | text s => cases hop <;> cases hw
  | scalar v => cases hop <;> cases hw
  | mapping items => cases hop <;> cases hw
  | list vs =>
    cases hop with
    | key k => cases hw
    | index i => exact distinctList_iff.mp h w (List.mem_of_getElem? hw)
  | tuple vs =>
    cases hop with
    | key k => cases hw
    | index i => exact distinctList_iff.mp h w (List.mem_of_getElem? hw)
  | dict items =>
    cases hop with
    | key k => exact distinctItems_iff.mp h.2 _ (mem_of_lookup hw)
    | index i => cases hw

theorem Distinct.reach {v w : Value S} {path : List Hop} (h : v.Distinct) (hw : v.reach path = some w) :
    w.Distinct := by
  induction path generalizing v with
  | nil =>
    obtain rfl : v = w := Option.some.inj hw
    exact h
  | cons hop path ih =>
    obtain ⟨u, hu, hw⟩ := Option.bind_eq_some_iff.mp hw
    exact ih (h.member hu) hw

/-! A value is known from its nodes. -/

theorem nodeAt_cons {v w : Value S} {hop : Hop} (h : v.member hop = some w) (path : List Hop) :
    v.nodeAt (hop :: path) = w.nodeAt path := by
  rw [nodeAt, reach_cons, h]
  rfl

theorem nodeAt_member {v w x y : Value S} (h : ∀ path, v.nodeAt path = w.nodeAt path) (hop : Hop)
    (hx : v.member hop = some x) (hy : w.member hop = some y) (path : List Hop) :
    x.nodeAt path = y.nodeAt path := by
  rw [← nodeAt_cons hx, ← nodeAt_cons hy, h]

theorem list_ext {vs ws : List (Value S)} (hlen : vs.length = ws.length)
    (ih : ∀ v ∈ vs, ∀ w ∈ ws, (∀ path, nodeAt v path = nodeAt w path) → v = w)
    (h : ∀ (i : ℕ) (v w : Value S), vs[i]? = some v → ws[i]? = some w →
      ∀ path, v.nodeAt path = w.nodeAt path) : vs = ws := by
  refine List.ext_getElem hlen fun i hi hi' => ?_
  refine ih _ (List.getElem_mem hi) _ (List.getElem_mem hi') ?_
  exact h i _ _ (List.getElem?_eq_getElem hi) (List.getElem?_eq_getElem hi')

theorem lookup_of_getElem {items : List (String × Value S)} (hd : (items.map Prod.fst).Nodup) {i : ℕ}
    (hi : i < items.length) : items.lookup items[i].1 = some items[i].2 := by
  refine List.lookup_eq_some_iff.mpr ⟨items.take i, items.drop (i + 1), ?_, ?_⟩
  · rw [List.getElem_cons_drop, List.take_append_drop]
  · intro x hx
    obtain ⟨j, hj, rfl⟩ := List.mem_take_iff_getElem.mp hx
    have hne := List.pairwise_iff_getElem.mp hd j i (by rw [List.length_map]; omega)
      (by rwa [List.length_map]) (by omega)
    rw [List.getElem_map, List.getElem_map] at hne
    exact bne_iff_ne.mpr (Ne.symm hne)

theorem items_ext {items items' : List (String × Value S)} (hd : (items.map Prod.fst).Nodup)
    (hkeys : items.map Prod.fst = items'.map Prod.fst)
    (ih : ∀ x ∈ items, ∀ y ∈ items', (∀ path, x.2.nodeAt path = y.2.nodeAt path) → x.2 = y.2)
    (h : ∀ k v w, items.lookup k = some v → items'.lookup k = some w →
      ∀ path, v.nodeAt path = w.nodeAt path) : items = items' := by
  have hlen : items.length = items'.length := by
    have := congrArg List.length hkeys
    rwa [List.length_map, List.length_map] at this
  refine List.ext_getElem hlen fun i hi hi' => ?_
  have hkey : items[i].1 = items'[i].1 := by
    have := List.getElem_of_eq hkeys (by rwa [List.length_map])
    rwa [List.getElem_map, List.getElem_map] at this
  refine Prod.ext hkey (ih _ (List.getElem_mem hi) _ (List.getElem_mem hi') ?_)
  refine h _ _ _ (lookup_of_getElem hd hi) ?_
  rw [hkey]
  exact lookup_of_getElem (hkeys ▸ hd) hi'

theorem eq_of_nodeAt {v w : Value S} (hv : v.Distinct) (hw : w.Distinct)
    (h : ∀ path, v.nodeAt path = w.nodeAt path) : v = w := by
  induction v generalizing w with
  | text s =>
    have hroot := Option.some.inj (h [])
    cases w <;> cases hroot
    rfl
  | scalar v =>
    have hroot := Option.some.inj (h [])
    cases w <;> cases hroot
    rfl
  | mapping items =>
    have hroot := Option.some.inj (h [])
    cases w <;> cases hroot
    rfl
  | list vs ih =>
    have hroot := Option.some.inj (h [])
    cases w with
    | list ws =>
      have hvs := distinctList_iff.mp hv
      have hws := distinctList_iff.mp hw
      refine congrArg Value.list (list_ext (Node.list.inj hroot) ?_ fun i _ _ => nodeAt_member h (.index i))
      exact fun v hv w hw hpath => ih v hv (hvs v hv) (hws w hw) hpath
    | _ => cases hroot
  | tuple vs ih =>
    have hroot := Option.some.inj (h [])
    cases w with
    | tuple ws =>
      have hvs := distinctList_iff.mp hv
      have hws := distinctList_iff.mp hw
      refine congrArg Value.tuple (list_ext (Node.tuple.inj hroot) ?_ fun i _ _ => nodeAt_member h (.index i))
      exact fun v hv w hw hpath => ih v hv (hvs v hv) (hws w hw) hpath
    | _ => cases hroot
  | dict items ih =>
    have hroot := Option.some.inj (h [])
    cases w with
    | dict items' =>
      have hvs := distinctItems_iff.mp hv.2
      have hws := distinctItems_iff.mp hw.2
      refine congrArg Value.dict (items_ext hv.1 (Node.dict.inj hroot) ?_ fun k _ _ => nodeAt_member h (.key k))
      exact fun x hx y hy hpath => ih x hx (hvs x hx) (hws y hy) hpath
    | _ => cases hroot

end Value

/-- The payload as a value. -/
def Payload.value (p : Payload S) : Value S := .dict p.items

theorem Payload.value_distinct (p : Payload S) : p.value.Distinct := p.distinct

/-! ### The walk of the base class -/

section Walk

variable {sensitive sensitive' : String → Bool}

/-- The walk of `DefaultRedactor`, which overrides nothing. -/
abbrev redact (sensitive : String → Bool) : Value S → Value S := walk sensitive id

def Hop.masked (sensitive : String → Bool) : Hop → Bool
  | .key k => sensitive k
  | .index _ => false

theorem redact_dict {items : List (String × Value S)} (h : (items.map Prod.fst).Nodup) :
    redact sensitive (.dict items) = .dict (items.map (walkItem sensitive id)) :=
  congrArg Value.dict (walkDict_eq_map sensitive id h)

theorem redact_list (vs : List (Value S)) :
    redact sensitive (.list vs) = .list (vs.map (redact sensitive)) :=
  congrArg Value.list (walkList_eq_map sensitive id vs)

theorem redact_tuple (vs : List (Value S)) :
    redact sensitive (.tuple vs) = .tuple (vs.map (redact sensitive)) :=
  congrArg Value.tuple (walkList_eq_map sensitive id vs)

theorem node_redact {v : Value S} (h : v.Distinct) : (redact sensitive v).node = v.node := by
  cases v with
  | text s => rfl
  | scalar v => rfl
  | mapping items => rfl
  | list vs =>
    rw [redact_list]
    exact congrArg Node.list (List.length_map _)
  | tuple vs =>
    rw [redact_tuple]
    exact congrArg Node.tuple (List.length_map _)
  | dict items =>
    rw [redact_dict h.1]
    show Node.dict _ = Node.dict _
    rw [List.map_map]
    rfl

theorem lookup_walkItem (items : List (String × Value S)) (k : String) :
    (items.map (walkItem sensitive id)).lookup k =
      (items.lookup k).map fun w => if sensitive k then .text REDACTED else redact sensitive w := by
  induction items with
  | nil => rfl
  | cons x items ih =>
    rw [List.map_cons, List.lookup_cons, List.lookup_cons, ih]
    by_cases hk : k = x.1
    · subst hk
      simp [walkItem]
    · simp [walkItem, beq_false_of_ne hk]

/-- The member of the output. -/
theorem member_redact {v : Value S} (h : v.Distinct) (hop : Hop) :
    (redact sensitive v).member hop =
      (v.member hop).map fun w => if hop.masked sensitive then .text REDACTED else redact sensitive w := by
  cases v with
  | text s => cases hop <;> rfl
  | scalar v => cases hop <;> rfl
  | mapping items => cases hop <;> rfl
  | list vs =>
    rw [redact_list]
    cases hop with
    | key k => rfl
    | index i => exact List.getElem?_map
  | tuple vs =>
    rw [redact_tuple]
    cases hop with
    | key k => rfl
    | index i => exact List.getElem?_map
  | dict items =>
    rw [redact_dict h.1]
    cases hop with
    | key k => exact lookup_walkItem items k
    | index i => rfl

/-- Where no key on the way is sensitive the walk arrives. -/
theorem reach_redact {v : Value S} (h : v.Distinct) {path : List Hop}
    (hclear : ∀ hop ∈ path, hop.masked sensitive = false) :
    (redact sensitive v).reach path = (v.reach path).map (redact sensitive) := by
  induction path generalizing v with
  | nil => rfl
  | cons hop path ih =>
    rw [List.forall_mem_cons] at hclear
    rw [Value.reach_cons, Value.reach_cons, member_redact h, hclear.1]
    cases hw : v.member hop with
    | none => rfl
    | some w => exact ih (h.member hw) hclear.2

theorem walkItem_walkItem (hle : ∀ k, sensitive k = true → sensitive' k = true) {x : String × Value S}
    (ih : redact sensitive' (redact sensitive x.2) = redact sensitive' x.2) :
    walkItem sensitive' id (walkItem sensitive id x) = walkItem sensitive' id x := by
  refine Prod.ext rfl ?_
  show (if sensitive' x.1 then Value.text REDACTED else
    redact sensitive' (if sensitive x.1 then .text REDACTED else redact sensitive x.2)) = _
  by_cases hk : sensitive' x.1 = true
  · simp only [walkItem, if_pos hk]
  · have hk' : ¬ sensitive x.1 = true := fun h => hk (hle _ h)
    rw [if_neg hk, if_neg hk', ih, walkItem, if_neg hk]

/-- A walk with more sensitive keys does not see an earlier walk with fewer. -/
theorem redact_redact (hle : ∀ k, sensitive k = true → sensitive' k = true) {v : Value S} (h : v.Distinct) :
    redact sensitive' (redact sensitive v) = redact sensitive' v := by
  induction v with
  | text s => rfl
  | scalar v => rfl
  | mapping items => rfl
  | list vs ih =>
    rw [redact_list, redact_list, redact_list, List.map_map]
    exact congrArg Value.list (List.map_congr_left fun v hv => ih v hv (Value.distinctList_iff.mp h v hv))
  | tuple vs ih =>
    rw [redact_tuple, redact_tuple, redact_tuple, List.map_map]
    exact congrArg Value.tuple (List.map_congr_left fun v hv => ih v hv (Value.distinctList_iff.mp h v hv))
  | dict items ih =>
    have hkeys : ((items.map (walkItem sensitive id)).map Prod.fst).Nodup := by
      rw [List.map_map]
      exact h.1
    rw [redact_dict h.1, redact_dict hkeys, redact_dict h.1, List.map_map]
    exact congrArg Value.dict (List.map_congr_left fun x hx =>
      walkItem_walkItem hle (ih x hx (Value.distinctItems_iff.mp h.2 x hx)))

end Walk

/-! ### What the output must be -/

/-- `w` is `v` with exactly the values under the sensitive keys replaced. -/
structure Exact (sensitive : String → Prop) (v w : Value S) : Prop where
  kept : ∀ path, (∀ k, .key k ∈ path → ¬ sensitive k) → w.nodeAt path = v.nodeAt path
  redacted : ∀ path k, (∀ j, .key j ∈ path → ¬ sensitive j) → sensitive k →
    w.reach (path ++ [.key k]) = (v.reach (path ++ [.key k])).map fun _ => .text REDACTED

theorem redact_exact (sensitive : String → Bool) {v : Value S} (h : v.Distinct) :
    Exact (fun k => sensitive k = true) v (redact sensitive v) := by
  have hclear : ∀ path : List Hop, (∀ k, .key k ∈ path → ¬ sensitive k = true) →
      ∀ hop ∈ path, hop.masked sensitive = false := by
    intro path hpath hop hhop
    cases hop with
    | key k => exact Bool.eq_false_iff.mpr (hpath k hhop)
    | index i => rfl
  constructor
  · intro path hpath
    rw [Value.nodeAt, Value.nodeAt, reach_redact h (hclear path hpath)]
    cases hw : v.reach path with
    | none => rfl
    | some w => exact congrArg some (node_redact (h.reach hw))
  · intro path k hpath hk
    rw [Value.reach_concat, Value.reach_concat, reach_redact h (hclear path hpath)]
    cases hw : v.reach path with
    | none => rfl
    | some w =>
      show (redact sensitive w).member (.key k) = (w.member (.key k)).map _
      rw [member_redact (h.reach hw)]
      simp only [Hop.masked, hk, if_true]

section Exact

variable {sensitive : String → Prop} {v w w' : Value S}

/-- The first sensitive key of a position. -/
theorem clear_or_split (sensitive : String → Prop) (path : List Hop) :
    (∀ k, .key k ∈ path → ¬ sensitive k) ∨
      ∃ q k rest, path = q ++ [.key k] ++ rest ∧ (∀ j, .key j ∈ q → ¬ sensitive j) ∧ sensitive k := by
  induction path with
  | nil => exact .inl fun k hk => absurd hk List.not_mem_nil
  | cons hop path ih =>
    by_cases hhop : ∃ k, hop = .key k ∧ sensitive k
    · obtain ⟨k, rfl, hk⟩ := hhop
      exact .inr ⟨[], k, path, rfl, fun j hj => absurd hj List.not_mem_nil, hk⟩
    · have hnot : ∀ k, .key k = hop → ¬ sensitive k := fun k hk hs => hhop ⟨k, hk.symm, hs⟩
      obtain hclear | ⟨q, k, rest, rfl, hq, hk⟩ := ih
      · refine .inl fun k hk => ?_
        obtain hk | hk := List.mem_cons.mp hk
        · exact hnot k hk
        · exact hclear k hk
      · refine .inr ⟨hop :: q, k, rest, rfl, fun j hj => ?_, hk⟩
        obtain hj | hj := List.mem_cons.mp hj
        · exact hnot j hj
        · exact hq j hj

/-- A position keeps its node or is redacted, itself or above. -/
theorem Exact.kept_or_redacted (h : Exact sensitive v w) (path : List Hop) :
    w.nodeAt path = v.nodeAt path ∨ ∃ q, q <+: path ∧ w.reach q = some (.text REDACTED) := by
  obtain hclear | ⟨q, k, rest, rfl, hq, hk⟩ := clear_or_split sensitive path
  · exact .inl (h.kept path hclear)
  · have hout := h.redacted q k hq hk
    cases hv : v.reach (q ++ [.key k]) with
    | none =>
      rw [hv] at hout
      left
      rw [Value.nodeAt, Value.nodeAt, w.reach_append (q ++ [Hop.key k]), v.reach_append (q ++ [Hop.key k]), hout, hv]
      rfl
    | some x =>
      rw [hv] at hout
      exact .inr ⟨q ++ [.key k], List.prefix_append _ rest, hout⟩

/-- There is one such output. -/
theorem Exact.unique (h : Exact sensitive v w) (h' : Exact sensitive v w') (hw : w.Distinct)
    (hw' : w'.Distinct) : w = w' := by
  refine Value.eq_of_nodeAt hw hw' fun path => ?_
  obtain hclear | ⟨q, k, rest, rfl, hq, hk⟩ := clear_or_split sensitive path
  · rw [h.kept path hclear, h'.kept path hclear]
  · rw [Value.nodeAt, Value.nodeAt, w.reach_append (q ++ [Hop.key k]), w'.reach_append (q ++ [Hop.key k]),
      h.redacted q k hq hk, h'.redacted q k hq hk]

end Exact

/-! ### The redactor -/

section Redactor

variable (lower : String → String)

theorem DefaultRedactor.isRedactedKey_iff (fields : Option (List String)) (key : String) :
    (DefaultRedactor.init lower fields).isRedactedKey lower key = true ↔
      ∃ f ∈ fields.getD DEFAULT_FIELDS, (lower f).toList <:+: (lower key).toList := by
  simp [isRedactedKey, init]

theorem DefaultRedactor.sanitize_value (r : DefaultRedactor) (p : Payload S) :
    (r.sanitize lower p).value = redact (r.isRedactedKey lower) p.value := rfl

theorem Payload.value_inj {p q : Payload S} (h : p.value = q.value) : p = q :=
  Payload.eq_iff.mpr (Value.dict.inj h)

/-- **Exactness**: the output is the one value that has the nodes of the payload, but `[REDACTED]` under each
sensitive key; sanitizing it again does nothing, and more fields only redact more of it. -/
theorem redactor_exact (fields : Option (List String)) (p : Payload S) :
    let sensitive := fun key =>
      ∃ f ∈ fields.getD DefaultRedactor.DEFAULT_FIELDS, (lower f).toList <:+: (lower key).toList
    let r := DefaultRedactor.init lower fields
    let out := r.sanitize lower p
    (Exact sensitive p.value out.value ∧
      ∀ w : Value S, w.Distinct → Exact sensitive p.value w → w = out.value) ∧
    r.sanitize lower out = out ∧
    ∀ more, fields.getD DefaultRedactor.DEFAULT_FIELDS ⊆ more →
      let out' := (DefaultRedactor.init lower (some more)).sanitize lower p
      ∀ path, out'.value.nodeAt path = out.value.nodeAt path ∨
        ∃ q, q <+: path ∧ out'.value.reach q = some (.text REDACTED) := by
  intro sensitive r out
  have hexact : Exact sensitive p.value out.value := by
    have h := redact_exact (r.isRedactedKey lower) p.value_distinct
    have hkeys : (fun k => r.isRedactedKey lower k = true) = sensitive :=
      funext fun k => propext (DefaultRedactor.isRedactedKey_iff lower fields k)
    rwa [hkeys] at h
  refine ⟨⟨hexact, fun w hw h => h.unique hexact hw out.value_distinct⟩, ?_, ?_⟩
  · exact Payload.value_inj (redact_redact (fun _ h => h) p.value_distinct)
  · intro more hmore out' path
    have hle : ∀ k, r.isRedactedKey lower k = true →
        (DefaultRedactor.init lower (some more)).isRedactedKey lower k = true := by
      intro k hk
      obtain ⟨f, hf, hin⟩ := (DefaultRedactor.isRedactedKey_iff lower fields k).mp hk
      exact (DefaultRedactor.isRedactedKey_iff lower (some more) k).mpr ⟨f, hmore hf, hin⟩
    have hout : out'.value = redact _ out.value := (redact_redact hle p.value_distinct).symm
    rw [hout]
    exact (redact_exact _ out.value_distinct).kept_or_redacted path

end Redactor

end ResilienceKit.Audit

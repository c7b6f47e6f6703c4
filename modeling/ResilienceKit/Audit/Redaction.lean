import ResilienceKit.Audit.Sanitizers

/-!
# Audit.Redaction — what the values under redacted keys have to do with the output

`Payload.Alike` payloads differ in such values alone.  `exposed` lists the mappings other than dicts that the
walk comes to and leaves as they are: the outputs for alike payloads are equal exactly if these are.
-/

namespace ResilienceKit.Audit

variable {S : Type}

/-! ### Alike payloads -/

section Erase

variable (sensitive : String → Bool)

mutual

/-- The value with nothing under the sensitive keys, at any depth and in any mapping. -/
def erase : Value S → Value S
  | .text s => .text s
  | .scalar v => .scalar v
  | .list vs => .list (eraseList vs)
  | .tuple vs => .tuple (eraseList vs)
  | .dict items => .dict (eraseItems items)
  | .mapping items => .mapping (eraseItems items)

def eraseList : List (Value S) → List (Value S)
  | [] => []
  | v :: vs => erase v :: eraseList vs

def eraseItems : List (String × Value S) → List (String × Value S)
  | [] => []
  | (key, value) :: items =>
    (key, if sensitive key then .text "" else erase value) :: eraseItems items

end

/-- The payloads are equal but for the values under sensitive keys. -/
def Payload.Alike (p q : Payload S) : Prop :=
  eraseItems sensitive p.items = eraseItems sensitive q.items

mutual

/-- The mappings that are no dicts, outside of sensitive keys and of each other. -/
def exposed : Value S → List (Value S)
  | .text _ => []
  | .scalar _ => []
  | .list vs => exposedList vs
  | .tuple vs => exposedList vs
  | .dict items => exposedItems items
  | .mapping items => [.mapping items]

def exposedList : List (Value S) → List (Value S)
  | [] => []
  | v :: vs => exposed v ++ exposedList vs

def exposedItems : List (String × Value S) → List (Value S)
  | [] => []
  | (key, value) :: items => (if sensitive key then [] else exposed value) ++ exposedItems items

end

def Payload.exposed (p : Payload S) : List (Value S) := exposedItems sensitive p.items

def eraseItem (x : String × Value S) : String × Value S :=
  (x.1, if sensitive x.1 then .text "" else erase sensitive x.2)

def exposedItem (x : String × Value S) : List (Value S) :=
  if sensitive x.1 then [] else exposed sensitive x.2

theorem eraseList_eq_map (vs : List (Value S)) : eraseList sensitive vs = vs.map (erase sensitive) := by
  induction vs with
  | nil => rfl
  | cons v vs ih => rw [eraseList, ih, List.map_cons]

theorem eraseItems_eq_map (items : List (String × Value S)) :
    eraseItems sensitive items = items.map (eraseItem sensitive) := by
  induction items with
  | nil => rfl
  | cons x items ih =>
    rw [eraseItems, ih, List.map_cons]
    rfl

theorem exposedList_eq_flatMap (vs : List (Value S)) :
    exposedList sensitive vs = vs.flatMap (exposed sensitive) := by
  induction vs with
  | nil => rfl
  | cons v vs ih => rw [exposedList, ih, List.flatMap_cons]

theorem exposedItems_eq_flatMap (items : List (String × Value S)) :
    exposedItems sensitive items = items.flatMap (exposedItem sensitive) := by
  induction items with
  | nil => rfl
  | cons x items ih =>
    rw [exposedItems, ih, List.flatMap_cons]
    rfl

variable {sensitive}

theorem exposedItem_eraseItem {x : String × Value S}
    (h : exposed sensitive (erase sensitive x.2) = (exposed sensitive x.2).map (erase sensitive)) :
    exposedItem sensitive (eraseItem sensitive x) = (exposedItem sensitive x).map (erase sensitive) := by
  cases hk : sensitive x.1 with
  | true => simp [exposedItem, eraseItem, hk]
  | false =>
    simp only [exposedItem, eraseItem, hk, Bool.false_eq_true, if_false]
    exact h

/-- Erasing does not move the exposed mappings. -/
theorem exposed_erase (v : Value S) :
    exposed sensitive (erase sensitive v) = (exposed sensitive v).map (erase sensitive) := by
  induction v with
  | text s => rfl
  | scalar v => rfl
  | list vs ih =>
    rw [erase, exposed, exposed, eraseList_eq_map, exposedList_eq_flatMap, exposedList_eq_flatMap,
      List.flatMap_map, List.map_flatMap]
    exact List.flatMap_congr ih
  | tuple vs ih =>
    rw [erase, exposed, exposed, eraseList_eq_map, exposedList_eq_flatMap, exposedList_eq_flatMap,
      List.flatMap_map, List.map_flatMap]
    exact List.flatMap_congr ih
  | dict items ih =>
    rw [erase, exposed, exposed, eraseItems_eq_map, exposedItems_eq_flatMap, exposedItems_eq_flatMap,
      List.flatMap_map, List.map_flatMap]
    exact List.flatMap_congr fun x hx => exposedItem_eraseItem (ih x hx)
  | mapping items ih => rfl

theorem length_exposed_of_erase {v w : Value S} (h : erase sensitive v = erase sensitive w) :
    (exposed sensitive v).length = (exposed sensitive w).length := by
  have := congrArg (fun u => (exposed sensitive u).length) h
  simpa [exposed_erase] using this

theorem length_exposedItem_of_erase {x y : String × Value S}
    (h : eraseItem sensitive x = eraseItem sensitive y) :
    (exposedItem sensitive x).length = (exposedItem sensitive y).length := by
  have := congrArg (fun u => (exposedItem sensitive u).length) h
  simpa [exposedItem_eraseItem (exposed_erase _)] using this

end Erase

/-! ### Lists of members -/

/-- Members with the same erasure whose exposed parts agree as a whole agree one by one. -/
theorem map_eq_of_flatMap {α β γ δ : Type} {f : α → β} {g : α → List γ} {k : α → δ}
    (hlen : ∀ x y, f x = f y → (g x).length = (g y).length) {xs : List α}
    (ih : ∀ x ∈ xs, ∀ y, f x = f y → g x = g y → k x = k y) {ys : List α}
    (hf : xs.map f = ys.map f) (hg : xs.flatMap g = ys.flatMap g) : xs.map k = ys.map k := by
  induction xs generalizing ys with
  | nil =>
    cases ys with
    | nil => rfl
    | cons y ys => cases hf
  | cons x xs ihs =>
    cases ys with
    | nil => cases hf
    | cons y ys =>
      rw [List.map_cons, List.map_cons, List.cons.injEq] at hf
      rw [List.flatMap_cons, List.flatMap_cons] at hg
      obtain ⟨hhead, htail⟩ := List.append_inj hg (hlen x y hf.1)
      rw [List.map_cons, List.map_cons, ih x List.mem_cons_self y hf.1 hhead,
        ihs (fun z hz => ih z (List.mem_cons_of_mem x hz)) hf.2 htail]

/-! ### The walk -/

section Walk

variable {sensitive : String → Bool} {override : Value S → Value S}

theorem walkItem_eq {x y : String × Value S}
    (ih : ∀ w, erase sensitive x.2 = erase sensitive w → exposed sensitive x.2 = exposed sensitive w →
      walk sensitive override x.2 = walk sensitive override w)
    (hf : eraseItem sensitive x = eraseItem sensitive y)
    (hg : exposedItem sensitive x = exposedItem sensitive y) :
    walkItem sensitive override x = walkItem sensitive override y := by
  obtain ⟨hkey, hvalue⟩ := Prod.ext_iff.mp hf
  replace hkey : x.1 = y.1 := hkey
  simp only [eraseItem, exposedItem, walkItem, hkey] at hvalue hg ⊢
  cases hk : sensitive y.1 with
  | true => simp only [if_true]
  | false =>
    simp only [hk, Bool.false_eq_true, if_false] at hvalue hg ⊢
    rw [ih y.2 hvalue hg]

theorem walkItems_eq {items items' : List (String × Value S)}
    (ih : ∀ x ∈ items, ∀ w, erase sensitive x.2 = erase sensitive w →
      exposed sensitive x.2 = exposed sensitive w →
      walk sensitive override x.2 = walk sensitive override w)
    (hf : eraseItems sensitive items = eraseItems sensitive items')
    (hg : exposedItems sensitive items = exposedItems sensitive items') :
    walkItems sensitive override items = walkItems sensitive override items' := by
  rw [eraseItems_eq_map, eraseItems_eq_map] at hf
  rw [exposedItems_eq_flatMap, exposedItems_eq_flatMap] at hg
  rw [walkItems_eq_map, walkItems_eq_map]
  exact map_eq_of_flatMap (fun _ _ => length_exposedItem_of_erase)
    (fun x hx y => walkItem_eq (ih x hx)) hf hg

theorem walkList_eq {vs ws : List (Value S)}
    (ih : ∀ v ∈ vs, ∀ w, erase sensitive v = erase sensitive w → exposed sensitive v = exposed sensitive w →
      walk sensitive override v = walk sensitive override w)
    (hf : eraseList sensitive vs = eraseList sensitive ws)
    (hg : exposedList sensitive vs = exposedList sensitive ws) :
    walkList sensitive override vs = walkList sensitive override ws := by
  rw [eraseList_eq_map, eraseList_eq_map] at hf
  rw [exposedList_eq_flatMap, exposedList_eq_flatMap] at hg
  rw [walkList_eq_map, walkList_eq_map]
  exact map_eq_of_flatMap (fun _ _ => length_exposed_of_erase) ih hf hg

/-- The walk sees of a value its erasure and what it exposes. -/
theorem walk_eq (v : Value S) : ∀ w, erase sensitive v = erase sensitive w →
    exposed sensitive v = exposed sensitive w → walk sensitive override v = walk sensitive override w := by
  induction v with
  | text s =>
    intro w hf hg
    cases w <;> cases hf
    rfl
  | scalar v =>
    intro w hf hg
    cases w <;> cases hf
    rfl
  | list vs ih =>
    intro w hf hg
    cases w with
    | list ws =>
      rw [erase, erase, Value.list.injEq] at hf
      rw [walk, walk, walkList_eq ih hf hg]
    | _ => cases hf
  | tuple vs ih =>
    intro w hf hg
    cases w with
    | tuple ws =>
      rw [erase, erase, Value.tuple.injEq] at hf
      rw [walk, walk, walkList_eq ih hf hg]
    | _ => cases hf
  | dict items ih =>
    intro w hf hg
    cases w with
    | dict items' =>
      rw [erase, erase, Value.dict.injEq] at hf
      rw [walk, walk, walkItems_eq ih hf hg]
    | _ => cases hf
  | mapping items ih =>
    intro w hf hg
    cases w with
    | mapping items' =>
      rw [exposed, exposed, List.cons.injEq] at hg
      rw [hg.1]
    | _ => cases hf

theorem exposedItem_walkItem {x : String × Value S}
    (h : exposed sensitive (walk sensitive override x.2) = exposed sensitive x.2) :
    exposedItem sensitive (walkItem sensitive override x) = exposedItem sensitive x := by
  cases hk : sensitive x.1 with
  | true => simp [exposedItem, walkItem, hk]
  | false =>
    simp only [exposedItem, walkItem, hk, Bool.false_eq_true, if_false]
    exact h

theorem exposed_walkDict {items : List (String × Value S)} (hd : (items.map Prod.fst).Nodup)
    (h : ∀ x ∈ items, exposed sensitive (walk sensitive override x.2) = exposed sensitive x.2) :
    exposedItems sensitive (walkDict sensitive override items) = exposedItems sensitive items := by
  rw [walkDict_eq_map _ _ hd, exposedItems_eq_flatMap, exposedItems_eq_flatMap, List.flatMap_map]
  exact List.flatMap_congr fun x hx => exposedItem_walkItem (h x hx)

/-- What is exposed comes out as it is. -/
theorem exposed_walk (hover : ∀ v, exposed sensitive (override v) = exposed sensitive v) (v : Value S)
    (hd : v.Distinct) : exposed sensitive (walk sensitive override v) = exposed sensitive v := by
  induction v with
  | text s => exact hover _
  | scalar v => exact hover _
  | list vs ih =>
    rw [Value.Distinct, Value.distinctList_iff] at hd
    rw [walk, hover, exposed, exposed, walkList_eq_map, exposedList_eq_flatMap, exposedList_eq_flatMap,
      List.flatMap_map]
    exact List.flatMap_congr fun v hv => ih v hv (hd v hv)
  | tuple vs ih =>
    rw [Value.Distinct, Value.distinctList_iff] at hd
    rw [walk, hover, exposed, exposed, walkList_eq_map, exposedList_eq_flatMap, exposedList_eq_flatMap,
      List.flatMap_map]
    exact List.flatMap_congr fun v hv => ih v hv (hd v hv)
  | dict items ih =>
    rw [Value.Distinct, Value.distinctItems_iff] at hd
    rw [walk, hover, exposed, exposed]
    exact exposed_walkDict hd.1 fun x hx => ih x hx (hd.2 x hx)
  | mapping items ih => exact hover _

/-- The outputs for alike payloads. -/
theorem walkDict_eq_iff (hover : ∀ v, exposed sensitive (override v) = exposed sensitive v)
    {p q : Payload S} (h : p.Alike sensitive q) :
    walkDict sensitive override p.items = walkDict sensitive override q.items ↔
      p.exposed sensitive = q.exposed sensitive := by
  have hout : ∀ r : Payload S,
      exposedItems sensitive (walkDict sensitive override r.items) = r.exposed sensitive := by
    intro r
    have hd := r.distinct
    rw [Value.Distinct, Value.distinctItems_iff] at hd
    exact exposed_walkDict hd.1 fun x hx => exposed_walk hover x.2 (hd.2 x hx)
  constructor
  · intro heq
    rw [← hout p, heq, hout q]
  · intro heq
    rw [walkDict, walkDict, walkItems_eq (fun x _ => walk_eq x.2) h heq]

end Walk

theorem RegexRedactor.exposed_scan (r : RegexRedactor) (sensitive : String → Bool) (v : Value S) :
    exposed sensitive (r.scan v) = exposed sensitive v := by
  cases v <;> rfl

theorem Payload.eq_iff {p q : Payload S} : p = q ↔ p.items = q.items := by
  cases p
  cases q
  simp

/-- **Redaction**: payloads that differ only in values under redacted keys come out equal, of either
redactor, exactly if they do not differ inside a mapping that is no dict. -/
theorem redaction_iff (lower : String → String) (r : RegexRedactor) {p q : Payload S}
    (h : p.Alike (r.isRedactedKey lower) q) :
    (r.toDefaultRedactor.sanitize lower p = r.toDefaultRedactor.sanitize lower q ↔
      p.exposed (r.isRedactedKey lower) = q.exposed (r.isRedactedKey lower)) ∧
    (r.sanitize lower p = r.sanitize lower q ↔
      p.exposed (r.isRedactedKey lower) = q.exposed (r.isRedactedKey lower)) := by
  constructor
  · rw [Payload.eq_iff]
    exact walkDict_eq_iff (fun _ => rfl) h
  · rw [Payload.eq_iff]
    exact walkDict_eq_iff (r.exposed_scan _) h

/-! ### Two requests -/

/-- `str.lower` for ASCII. -/
def lowerAscii (s : String) : String := String.ofList (s.toList.map Char.toLower)

/-- The redactor with the default fields and no patterns. -/
def standard : RegexRedactor := .init lowerAscii [] none none

theorem standard_authorization : standard.isRedactedKey lowerAscii "Authorization" = true := by
  decide +kernel

theorem standard_headers : standard.isRedactedKey lowerAscii "headers" = false := by
  decide +kernel

/-- A request whose headers are a dict. -/
def dictHeaders (bearer : String) : Payload Unit where
  items := [("headers", .dict [("Authorization", .text bearer)])]
  distinct := by simp [Value.Distinct, Value.DistinctItems]

/-- A request whose headers are some other mapping. -/
def proxyHeaders (bearer : String) : Payload Unit where
  items := [("headers", .mapping [("Authorization", .text bearer)])]
  distinct := by simp [Value.Distinct, Value.DistinctItems]

theorem redaction_dictHeaders : standard.toDefaultRedactor.sanitize lowerAscii (dictHeaders "a") =
    standard.toDefaultRedactor.sanitize lowerAscii (dictHeaders "b") :=
  (redaction_iff lowerAscii standard
    (by simp [Payload.Alike, dictHeaders, eraseItems, erase, standard_authorization])).1.mpr
    (by simp [Payload.exposed, dictHeaders, exposedItems, exposed, standard_authorization])

/-- The bearer token is in the output. -/
theorem bearer_exposed :
    (proxyHeaders "a").Alike (standard.isRedactedKey lowerAscii) (proxyHeaders "b") ∧
      standard.toDefaultRedactor.sanitize lowerAscii (proxyHeaders "a") ≠
        standard.toDefaultRedactor.sanitize lowerAscii (proxyHeaders "b") := by
  constructor
  · simp [Payload.Alike, proxyHeaders, eraseItems, erase, standard_authorization]
  · rw [Ne, Payload.eq_iff]
    simp [DefaultRedactor.sanitize, proxyHeaders, walkDict, walkItems, walk, dictOf, setItem,
      standard_headers]

end ResilienceKit.Audit

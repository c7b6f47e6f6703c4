import Mathlib.Computability.Language

/-!
# Regex — backtracking search

An expression lists the ends of its matches in the order in which a backtracking engine tries them
(`ends`), and `finds_ends` says which they are.  A `Pattern` puts an assertion about the neighbouring
symbols at either end; `first` is the match that the engine finds at a place.
-/

namespace Regex

variable {α : Type}

/-! ### Expressions -/

inductive Expr (α : Type)
  | eps
  | one (p : α → Bool)
  | seq (r t : Expr α)
  /-- `r` is tried first. -/
  | alt (r t : Expr α)
  /-- `r{least,most}`, greedy. -/
  | rep (least most : ℕ) (r : Expr α)
  /-- `[p]{least,}`, greedy. -/
  | many (least : ℕ) (p : α → Bool)

/-- `f` at least `m` and at most `n` times, as often as possible first. -/
def greedy (f : List α → List (List α)) : ℕ → ℕ → List α → List (List α)
  | m, 0, s => if m = 0 then [s] else []
  | m, n + 1, s => (f s).flatMap (greedy f (m - 1) n) ++ if m = 0 then [s] else []

def single (p : α → Bool) : List α → List (List α)
  | [] => []
  | c :: s => if p c then [s] else []

/-- The words of one symbol. -/
def symbols (p : α → Bool) : Language α := {w | ∃ c, p c = true ∧ w = [c]}

namespace Expr

/-- What remains behind each match at the start of the text, in the order of the engine. -/
def ends : Expr α → List α → List (List α)
  | eps, s => [s]
  | one p, s => single p s
  | seq r t, s => (r.ends s).flatMap t.ends
  | alt r t, s => r.ends s ++ t.ends s
  | rep least most r, s => greedy r.ends least most s
  | many least p, s => greedy (single p) least s.length s

def opt (r : Expr α) : Expr α := alt r eps

/-- `r{n}` -/
def times (n : ℕ) (r : Expr α) : Expr α := rep n n r

/-- The words that the expression matches. -/
def lang : Expr α → Language α
  | eps => 1
  | one p => symbols p
  | seq r t => r.lang * t.lang
  | alt r t => r.lang + t.lang
  | rep least most r => {w | ∃ k, least ≤ k ∧ k ≤ most ∧ w ∈ r.lang ^ k}
  | many least p => {w | least ≤ w.length ∧ ∀ c ∈ w, p c = true}

end Expr

section Ends

variable {f : List α → List (List α)} {L : Language α}

/-- `f` finds the words of `L`. -/
def Finds (f : List α → List (List α)) (L : Language α) : Prop :=
  ∀ s rest, rest ∈ f s ↔ ∃ w ∈ L, s = w ++ rest

theorem finds_single (p : α → Bool) : Finds (single p) (symbols p) := by
  intro s rest
  cases s with
  | nil =>
    refine iff_of_false List.not_mem_nil ?_
    rintro ⟨_, ⟨d, -, rfl⟩, hs⟩
    cases hs
  | cons c s =>
    rw [single]
    split_ifs with hc
    · constructor
      · intro h
        obtain rfl := List.mem_singleton.mp h
        exact ⟨[c], ⟨c, hc, rfl⟩, rfl⟩
      · rintro ⟨_, ⟨d, -, rfl⟩, hs⟩
        obtain ⟨-, rfl⟩ := List.cons.inj hs
        exact List.mem_singleton.mpr rfl
    · refine iff_of_false List.not_mem_nil ?_
      rintro ⟨_, ⟨d, hd, rfl⟩, hs⟩
      obtain ⟨rfl, -⟩ := List.cons.inj hs
      exact hc hd

theorem mem_greedy (h : Finds f L) (n m : ℕ) (s rest : List α) :
    rest ∈ greedy f m n s ↔ ∃ k, m ≤ k ∧ k ≤ n ∧ ∃ w ∈ L ^ k, s = w ++ rest := by
  induction n generalizing m s with
  | zero =>
    unfold greedy
    constructor
    · intro hrest
      split_ifs at hrest with hm
      · obtain rfl := List.mem_singleton.mp hrest
        exact ⟨0, hm.le, le_rfl, [], by rw [pow_zero]; exact Language.nil_mem_one, rfl⟩
      · cases hrest
    · rintro ⟨k, hm, hk, w, hw, rfl⟩
      obtain rfl : k = 0 := Nat.le_zero.mp hk
      rw [pow_zero, Language.mem_one] at hw
      rw [if_pos (Nat.le_zero.mp hm), hw]
      exact List.mem_singleton.mpr rfl
  | succ n ih =>
    unfold greedy
    rw [List.mem_append, List.mem_flatMap]
    constructor
    · rintro (⟨mid, hmid, hrest⟩ | hrest)
      · obtain ⟨v, hv, rfl⟩ := (h s mid).mp hmid
        obtain ⟨k, hm, hk, w, hw, rfl⟩ := (ih (m - 1) mid).mp hrest
        refine ⟨k + 1, by omega, by omega, v ++ w, ?_, by rw [List.append_assoc]⟩
        rw [pow_succ']
        exact Language.mem_mul.mpr ⟨v, hv, w, hw, rfl⟩
      · split_ifs at hrest with hm
        · obtain rfl := List.mem_singleton.mp hrest
          exact ⟨0, hm.le, Nat.zero_le _, [], by rw [pow_zero]; exact Language.nil_mem_one, rfl⟩
        · cases hrest
    · rintro ⟨k, hm, hk, w, hw, rfl⟩
      cases k with
      | zero =>
        rw [pow_zero, Language.mem_one] at hw
        rw [if_pos (Nat.le_zero.mp hm), hw]
        exact .inr (List.mem_singleton.mpr rfl)
      | succ k =>
        rw [pow_succ', Language.mem_mul] at hw
        obtain ⟨v, hv, w, hw, rfl⟩ := hw
        refine .inl ⟨w ++ rest, (h _ _).mpr ⟨v, hv, by rw [List.append_assoc]⟩, ?_⟩
        exact (ih (m - 1) _).mpr ⟨k, by omega, by omega, w, hw, rfl⟩

/-- A word of so many symbols. -/
theorem mem_pow_single {p : α → Bool} {k : ℕ} {w : List α} :
    w ∈ symbols p ^ k ↔ w.length = k ∧ ∀ c ∈ w, p c = true := by
  induction k generalizing w with
  | zero =>
    rw [pow_zero, Language.mem_one, List.length_eq_zero_iff]
    exact ⟨fun h => ⟨h, by simp [h]⟩, fun h => h.1⟩
  | succ k ih =>
    rw [pow_succ', Language.mem_mul]
    constructor
    · rintro ⟨_, ⟨c, hc, rfl⟩, w, hw, rfl⟩
      obtain ⟨hlen, hall⟩ := ih.mp hw
      exact ⟨by simp [hlen], List.forall_mem_cons.mpr ⟨hc, hall⟩⟩
    · rintro ⟨hlen, hall⟩
      cases w with
      | nil => cases hlen
      | cons c w =>
        obtain ⟨hc, hw⟩ := List.forall_mem_cons.mp hall
        exact ⟨[c], ⟨c, hc, rfl⟩, w, ih.mpr ⟨Nat.succ.inj hlen, hw⟩, rfl⟩

/-- **Spec of the engine**: it comes to the end of every word that the expression matches, and to no other. -/
theorem finds_ends (r : Expr α) : Finds r.ends r.lang := by
  induction r with
  | eps =>
    intro s rest
    simp only [Expr.ends, Expr.lang, List.mem_singleton, Language.mem_one]
    exact ⟨fun h => ⟨[], rfl, h.symm⟩, fun ⟨w, hw, hs⟩ => by rw [hs, hw]; rfl⟩
  | one p => exact finds_single p
  | seq r t ihr iht =>
    intro s rest
    simp only [Expr.ends, Expr.lang, List.mem_flatMap, Language.mem_mul]
    constructor
    · rintro ⟨mid, hmid, hrest⟩
      obtain ⟨v, hv, rfl⟩ := (ihr s mid).mp hmid
      obtain ⟨w, hw, rfl⟩ := (iht mid rest).mp hrest
      exact ⟨v ++ w, ⟨v, hv, w, hw, rfl⟩, by rw [List.append_assoc]⟩
    · rintro ⟨_, ⟨v, hv, w, hw, rfl⟩, rfl⟩
      exact ⟨w ++ rest, (ihr _ _).mpr ⟨v, hv, by rw [List.append_assoc]⟩, (iht _ _).mpr ⟨w, hw, rfl⟩⟩
  | alt r t ihr iht =>
    intro s rest
    simp only [Expr.ends, Expr.lang, List.mem_append, Language.mem_add]
    rw [ihr s rest, iht s rest]
    constructor
    · rintro (⟨w, hw, hs⟩ | ⟨w, hw, hs⟩)
      · exact ⟨w, .inl hw, hs⟩
      · exact ⟨w, .inr hw, hs⟩
    · rintro ⟨w, hw | hw, hs⟩
      · exact .inl ⟨w, hw, hs⟩
      · exact .inr ⟨w, hw, hs⟩
  | rep least most r ih =>
    intro s rest
    simp only [Expr.ends, Expr.lang]
    rw [mem_greedy ih]
    constructor
    · rintro ⟨k, hm, hk, w, hw, hs⟩
      exact ⟨w, ⟨k, hm, hk, hw⟩, hs⟩
    · rintro ⟨w, ⟨k, hm, hk, hw⟩, hs⟩
      exact ⟨k, hm, hk, w, hw, hs⟩
  | many least p =>
    intro s rest
    simp only [Expr.ends, Expr.lang]
    rw [mem_greedy (finds_single p)]
    constructor
    · rintro ⟨k, hm, hk, w, hw, hs⟩
      obtain ⟨hlen, hall⟩ := mem_pow_single.mp hw
      exact ⟨w, ⟨hlen ▸ hm, hall⟩, hs⟩
    · rintro ⟨w, ⟨hm, hall⟩, rfl⟩
      exact ⟨w.length, hm, by simp, w, mem_pow_single.mpr ⟨rfl, hall⟩, rfl⟩

end Ends

/-! ### Words -/

namespace Expr

theorem mem_one {p : α → Bool} {w : List α} : w ∈ (one p).lang ↔ ∃ c, p c = true ∧ w = [c] := Iff.rfl

theorem mem_seq {r t : Expr α} {w : List α} :
    w ∈ (seq r t).lang ↔ ∃ a ∈ r.lang, ∃ b ∈ t.lang, a ++ b = w := Language.mem_mul

theorem mem_alt {r t : Expr α} {w : List α} : w ∈ (alt r t).lang ↔ w ∈ r.lang ∨ w ∈ t.lang := Iff.rfl

theorem mem_times {n : ℕ} {p : α → Bool} {w : List α} :
    w ∈ (times n (one p)).lang ↔ w.length = n ∧ ∀ c ∈ w, p c = true := by
  constructor
  · rintro ⟨k, hk, hk', hw⟩
    obtain rfl := le_antisymm hk hk'
    exact mem_pow_single.mp hw
  · intro h
    exact ⟨n, le_rfl, le_rfl, mem_pow_single.mpr h⟩

theorem mem_opt {r : Expr α} {w : List α} : w ∈ r.opt.lang ↔ w ∈ r.lang ∨ w = [] := Iff.rfl

/-- No word is shorter. -/
def least : Expr α → ℕ
  | eps => 0
  | one _ => 1
  | seq r t => r.least + t.least
  | alt r t => min r.least t.least
  | rep least _ r => least * r.least
  | many least _ => least

/-- The symbols that words consist of. -/
def uses : Expr α → α → Bool
  | eps, _ => false
  | one p, c => p c
  | seq r t, c => r.uses c || t.uses c
  | alt r t, c => r.uses c || t.uses c
  | rep _ _ r, c => r.uses c
  | many _ p, c => p c

/-- The symbols that words begin with. -/
def firsts : Expr α → α → Bool
  | eps, _ => false
  | one p, c => p c
  | seq r t, c => r.firsts c || (decide (r.least = 0) && t.firsts c)
  | alt r t, c => r.firsts c || t.firsts c
  | rep _ _ r, c => r.firsts c
  | many _ p, c => p c

/-- The symbols that words end with. -/
def lasts : Expr α → α → Bool
  | eps, _ => false
  | one p, c => p c
  | seq r t, c => t.lasts c || (decide (t.least = 0) && r.lasts c)
  | alt r t, c => r.lasts c || t.lasts c
  | rep _ _ r, c => r.lasts c
  | many _ p, c => p c

attribute [simp] least uses firsts lasts

variable {r : Expr α} {w : List α}

theorem least_le_of_pow {k : ℕ} {n : ℕ} (h : ∀ w ∈ r.lang, n ≤ w.length) (hw : w ∈ r.lang ^ k) :
    k * n ≤ w.length := by
  induction k generalizing w with
  | zero => simp
  | succ k ih =>
    rw [pow_succ', Language.mem_mul] at hw
    obtain ⟨v, hv, w, hw, rfl⟩ := hw
    have h1 := h v hv
    have h2 := ih hw
    rw [List.length_append, Nat.succ_mul]
    omega

theorem least_le (h : w ∈ r.lang) : r.least ≤ w.length := by
  induction r generalizing w with
  | eps => exact Nat.zero_le _
  | one p =>
    obtain ⟨c, -, rfl⟩ := h
    exact le_rfl
  | seq r t ihr iht =>
    obtain ⟨v, hv, w, hw, rfl⟩ := Language.mem_mul.mp h
    rw [List.length_append]
    exact Nat.add_le_add (ihr hv) (iht hw)
  | alt r t ihr iht =>
    rcases (Language.mem_add _ _ _).mp h with h | h
    · exact (min_le_left _ _).trans (ihr h)
    · exact (min_le_right _ _).trans (iht h)
  | rep least most r ih =>
    obtain ⟨k, hk, -, hw⟩ := h
    exact (Nat.mul_le_mul_right _ hk).trans (least_le_of_pow (fun w hw => ih hw) hw)
  | many least p => exact h.1

/-- A word of an expression that matches nothing empty. -/
theorem nil_notMem (h : 0 < r.least) : [] ∉ r.lang := fun hw => by
  have := least_le hw
  rw [List.length_nil] at this
  omega

theorem uses_of_mem (h : w ∈ r.lang) {c : α} (hc : c ∈ w) : r.uses c = true := by
  induction r generalizing w with
  | eps =>
    obtain rfl := (Language.mem_one _).mp h
    cases hc
  | one p =>
    obtain ⟨d, hd, rfl⟩ := h
    exact List.mem_singleton.mp hc ▸ hd
  | seq r t ihr iht =>
    obtain ⟨v, hv, w, hw, rfl⟩ := Language.mem_mul.mp h
    rcases List.mem_append.mp hc with hc | hc
    · simp [ihr hv hc]
    · simp [iht hw hc]
  | alt r t ihr iht =>
    rcases (Language.mem_add _ _ _).mp h with h | h
    · simp [ihr h hc]
    · simp [iht h hc]
  | rep least most r ih =>
    obtain ⟨k, -, -, hw⟩ := h
    obtain ⟨ws, rfl, -, hws⟩ := Language.mem_pow.mp hw
    obtain ⟨v, hv, hcv⟩ := List.mem_flatten.mp hc
    exact ih (hws v hv) hcv
  | many least p => exact h.2 c hc

theorem nil_of_least {w : List α} (h : w ∈ r.lang) (hw : w = []) : r.least = 0 := by
  have := least_le h
  rw [hw, List.length_nil] at this
  omega

theorem firsts_of_mem (h : w ∈ r.lang) {c : α} (hc : w.head? = some c) : r.firsts c = true := by
  induction r generalizing w with
  | eps =>
    obtain rfl := (Language.mem_one _).mp h
    cases hc
  | one p =>
    obtain ⟨d, hd, rfl⟩ := h
    exact Option.some.inj hc ▸ hd
  | seq r t ihr iht =>
    obtain ⟨v, hv, w, hw, rfl⟩ := Language.mem_mul.mp h
    cases v with
    | nil => simp [nil_of_least hv rfl, iht hw hc]
    | cons d v => simp [ihr hv hc]
  | alt r t ihr iht =>
    rcases (Language.mem_add _ _ _).mp h with h | h
    · simp [ihr h hc]
    · simp [iht h hc]
  | rep least most r ih =>
    obtain ⟨k, -, -, hw⟩ := h
    induction k generalizing w with
    | zero =>
      rw [pow_zero, Language.mem_one] at hw
      rw [hw] at hc
      cases hc
    | succ k ihk =>
      rw [pow_succ', Language.mem_mul] at hw
      obtain ⟨v, hv, w, hw, rfl⟩ := hw
      cases v with
      | nil => exact ihk hc hw
      | cons d v => exact ih hv hc
  | many least p =>
    cases w with
    | nil => cases hc
    | cons d w => exact Option.some.inj hc ▸ h.2 d List.mem_cons_self

theorem lasts_of_mem (h : w ∈ r.lang) {c : α} (hc : w.getLast? = some c) : r.lasts c = true := by
  induction r generalizing w with
  | eps =>
    obtain rfl := (Language.mem_one _).mp h
    cases hc
  | one p =>
    obtain ⟨d, hd, rfl⟩ := h
    exact Option.some.inj hc ▸ hd
  | seq r t ihr iht =>
    obtain ⟨v, hv, w, hw, rfl⟩ := Language.mem_mul.mp h
    rw [List.getLast?_append] at hc
    cases hl : w.getLast? with
    | none =>
      rw [hl, Option.none_or] at hc
      simp [nil_of_least hw (List.getLast?_eq_none_iff.mp hl), ihr hv hc]
    | some d =>
      rw [hl, Option.some_or] at hc
      simp [iht hw (hl.trans hc)]
  | alt r t ihr iht =>
    rcases (Language.mem_add _ _ _).mp h with h | h
    · simp [ihr h hc]
    · simp [iht h hc]
  | rep least most r ih =>
    obtain ⟨k, -, -, hw⟩ := h
    induction k generalizing w with
    | zero =>
      rw [pow_zero, Language.mem_one] at hw
      rw [hw] at hc
      cases hc
    | succ k ihk =>
      rw [pow_succ, Language.mem_mul] at hw
      obtain ⟨v, hv, w, hw, rfl⟩ := hw
      rw [List.getLast?_append] at hc
      cases hl : w.getLast? with
      | none =>
        rw [hl, Option.none_or] at hc
        exact ihk hc hv
      | some d =>
        rw [hl, Option.some_or] at hc
        exact ih hw (hl.trans hc)
  | many least p => exact h.2 c (List.mem_of_getLast? hc)

/-- Every word has a symbol with `P`. -/
def Has (P : α → Prop) (r : Expr α) : Prop := ∀ w ∈ r.lang, ∃ c ∈ w, P c

variable {P : α → Prop} {t : Expr α}

theorem has_one {p : α → Bool} (h : ∀ c, p c = true → P c) : Has P (one p) := by
  rintro _ ⟨c, hc, rfl⟩
  exact ⟨c, List.mem_singleton.mpr rfl, h c hc⟩

theorem Has.seq_left (h : Has P r) : Has P (seq r t) := by
  intro w hw
  obtain ⟨v, hv, u, -, rfl⟩ := Language.mem_mul.mp hw
  obtain ⟨c, hc, hP⟩ := h v hv
  exact ⟨c, List.mem_append_left u hc, hP⟩

theorem Has.seq_right (h : Has P t) : Has P (seq r t) := by
  intro w hw
  obtain ⟨v, -, u, hu, rfl⟩ := Language.mem_mul.mp hw
  obtain ⟨c, hc, hP⟩ := h u hu
  exact ⟨c, List.mem_append_right v hc, hP⟩

theorem Has.rep {least most : ℕ} (hpos : 0 < least) (h : Has P r) : Has P (rep least most r) := by
  rintro w ⟨k, hk, -, hw⟩
  obtain ⟨k, rfl⟩ := Nat.exists_eq_succ_of_ne_zero (hpos.trans_le hk).ne'
  rw [pow_succ', Language.mem_mul] at hw
  obtain ⟨v, hv, u, -, rfl⟩ := hw
  obtain ⟨c, hc, hP⟩ := h v hv
  exact ⟨c, List.mem_append_left u hc, hP⟩

/-- At most one end. -/
def Deterministic (r : Expr α) : Prop := ∀ s, (r.ends s).length ≤ 1

/-- Longer matches come first. -/
def Greedy (r : Expr α) : Prop := ∀ s, (r.ends s).Pairwise fun a b => a.length ≤ b.length

theorem length_le_of_ends {s rest : List α} (h : rest ∈ r.ends s) : rest.length ≤ s.length := by
  obtain ⟨w, -, rfl⟩ := (finds_ends r s rest).mp h
  simp

theorem Deterministic.cases (h : Deterministic r) (s : List α) : r.ends s = [] ∨ ∃ rest, r.ends s = [rest] := by
  have hlen := h s
  cases hs : r.ends s with
  | nil => exact .inl rfl
  | cons rest more =>
    rw [hs, List.length_cons] at hlen
    exact .inr ⟨rest, by rw [List.eq_nil_of_length_eq_zero (l := more) (by omega)]⟩

theorem Deterministic.greedy_seq (h : Deterministic r) (ht : Greedy t) : Greedy (seq r t) := by
  intro s
  rw [ends]
  rcases h.cases s with hs | ⟨rest, hs⟩
  · rw [hs]
    exact List.Pairwise.nil
  · rw [hs, List.flatMap_cons, List.flatMap_nil, List.append_nil]
    exact ht rest

theorem deterministic_one (p : α → Bool) : Deterministic (one p) := by
  intro s
  cases s with
  | nil => exact Nat.zero_le 1
  | cons c s =>
    rw [ends, single]
    split_ifs <;> simp

theorem Deterministic.greedy_rep (h : Deterministic r) (least most : ℕ) : Greedy (rep least most r) := by
  intro s
  rw [ends]
  induction most generalizing least s with
  | zero =>
    rw [greedy]
    split_ifs <;> simp
  | succ n ih =>
    have hshort : ∀ rest ∈ (r.ends s).flatMap (greedy r.ends (least - 1) n), rest.length ≤ s.length := by
      intro rest hrest
      obtain ⟨mid, hmid, hrest⟩ := List.mem_flatMap.mp hrest
      have hrep : rest ∈ (rep (least - 1) n r).ends mid := hrest
      exact (length_le_of_ends hrep).trans (length_le_of_ends hmid)
    rw [greedy]
    refine List.pairwise_append.mpr ⟨?_, by split_ifs <;> simp, fun a ha b hb => ?_⟩
    · rcases h.cases s with hs | ⟨rest, hs⟩
      · rw [hs]
        exact List.Pairwise.nil
      · rw [hs, List.flatMap_cons, List.flatMap_nil, List.append_nil]
        exact ih (least - 1) rest
    · split_ifs at hb
      · obtain rfl := List.mem_singleton.mp hb
        exact hshort a ha
      · cases hb

end Expr

/-! ### Patterns -/

/-- An expression between two assertions, each about the symbols on its two sides. -/
structure Pattern (α : Type) where
  before : Option α → Option α → Bool
  body : Expr α
  after : Option α → Option α → Bool
  /-- Nothing empty is matched. -/
  nonempty : [] ∉ body.lang

namespace Pattern

variable (p : Pattern α)

/-- The word matches between what precedes it and what follows. -/
structure Match (prev : Option α) (w rest : List α) : Prop where
  before : p.before prev (w ++ rest).head? = true
  word : w ∈ p.body.lang
  after : p.after w.getLast? rest.head? = true

/-- What remains behind the match that the engine finds at this place. -/
def first (prev : Option α) (s : List α) : Option (List α) :=
  if p.before prev s.head? then
    (p.body.ends s).find? fun rest => p.after (s.take (s.length - rest.length)).getLast? rest.head?
  else none

variable {p} {prev : Option α} {s w rest : List α}

theorem Match.ne_nil (h : p.Match prev w rest) : w ≠ [] := by
  rintro rfl
  exact p.nonempty h.word

/-- The engine finds a match where there is one. -/
theorem first_eq_none_iff : p.first prev s = none ↔ ∀ w rest, s = w ++ rest → ¬ p.Match prev w rest := by
  unfold first
  split_ifs with hb
  · rw [List.find?_eq_none]
    constructor
    · rintro h w rest rfl hm
      refine h rest ((finds_ends _ _ _).mpr ⟨w, hm.word, rfl⟩) ?_
      simpa using hm.after
    · intro h rest hrest hafter
      obtain ⟨w, hw, rfl⟩ := (finds_ends _ _ _).mp hrest
      exact h w rest rfl ⟨hb, hw, by simpa using hafter⟩
  · refine iff_of_true rfl ?_
    rintro w rest rfl hm
    exact hb hm.before

theorem match_of_first (h : p.first prev s = some rest) : ∃ w, s = w ++ rest ∧ p.Match prev w rest := by
  unfold first at h
  split_ifs at h with hb
  obtain ⟨w, hw, rfl⟩ := (finds_ends _ _ _).mp (List.mem_of_find?_eq_some h)
  have hafter := List.find?_some h
  exact ⟨w, rfl, hb, hw, by simpa using hafter⟩

/-- With greedy ends the engine finds the longest match. -/
theorem longest_of_first (hg : p.body.Greedy) (h : p.first prev s = some rest) {w' rest' : List α}
    (hs : s = w' ++ rest') (hm : p.Match prev w' rest') : rest.length ≤ rest'.length := by
  unfold first at h
  split_ifs at h
  obtain ⟨-, as, bs, hends, has⟩ := List.find?_eq_some_iff_append.mp h
  have hmem : rest' ∈ p.body.ends s := (finds_ends _ _ _).mpr ⟨w', hm.word, hs⟩
  have hpair := hg s
  rw [hends] at hmem hpair
  rcases List.mem_append.mp hmem with hmem | hmem
  · have hafter := has rest' hmem
    rw [hs] at hafter
    simp [hm.after] at hafter
  · rcases List.mem_cons.mp hmem with rfl | hmem
    · exact le_rfl
    · exact (List.pairwise_cons.mp (List.pairwise_append.mp hpair).2.1).1 rest' hmem

end Pattern

end Regex

import ResilienceKit.Audit.PiiPatterns

/-!
# Audit.CardNumbers — which card numbers the card rule misses

The engine takes the leftmost, longest run that looks like a card number, and the Luhn check sees nothing but
that run.  A card number that begins in a run that the check rejects stays in the text.
-/

namespace ResilienceKit.Audit

open Regex Expr

variable (t : CharTables)

/-! ### Card numbers -/

/-- So many digits, with at most one space or dash between two of them. -/
inductive Digits : ℕ → List Char → Prop
  | single {d : Char} (digit : t.isDigit d = true) : Digits 1 [d]
  | next {n : ℕ} {d : Char} {w : List Char} (digit : t.isDigit d = true) (tail : Digits n w) :
      Digits (n + 1) (d :: w)
  | apart {n : ℕ} {d s : Char} {w : List Char} (digit : t.isDigit d = true) (sep : s = ' ' ∨ s = '-')
      (tail : Digits n w) : Digits (n + 1) (d :: s :: w)

/-- The word looks like a card number where it stands. -/
structure CardAt (prev : Option Char) (w rest : List Char) : Prop where
  start : boundary t prev w.head? = true
  digits : ∃ n, 13 ≤ n ∧ n ≤ 19 ∧ Digits t n w
  stop : boundary t w.getLast? rest.head? = true

/-- No card number stands in the text. -/
def NoCard (s : List Char) : Prop :=
  ∀ front w back, s = front ++ (w ++ back) → CardAt t front.getLast? w back → luhnOk t w = false

/-! ### Where the engine looks -/

/-- No longer word looks like a card number there. -/
structure Longest (prev : Option Char) (w rest : List Char) : Prop where
  card : CardAt t prev w rest
  longest : ∀ w' rest', w ++ rest = w' ++ rest' → CardAt t prev w' rest' → w'.length ≤ w.length

/-- The engine comes to the place between these two parts of the text: it goes on by a symbol where nothing
looks like a card number, and behind the longest word where something does. -/
inductive Looks (s : List Char) : List Char → List Char → Prop
  | start : Looks s [] s
  | pass {x y : List Char} {c : Char} (looks : Looks s x (c :: y))
      (none : ∀ w rest, c :: y = w ++ rest → ¬ CardAt t x.getLast? w rest) : Looks s (x ++ [c]) y
  | take {x w y : List Char} (looks : Looks s x (w ++ y)) (longest : Longest t x.getLast? w y) :
      Looks s (x ++ w) y

/-- The engine picks the word. -/
def Picks (s x w y : List Char) : Prop := Looks t s x (w ++ y) ∧ Longest t x.getLast? w y

/-- The engine picks a card number, which Luhn accepts. -/
def Picked (s : List Char) : Prop := ∃ x w y, Picks t s x w y ∧ luhnOk t w = true

/-- A card number that begins in a run that is picked and rejected, and has nothing in common with a run that
is picked and accepted. -/
def Missed (s : List Char) : Prop :=
  ∃ x w y, Picks t s x w y ∧ luhnOk t w = false ∧ ∃ front q back, s = front ++ (q ++ back) ∧
    CardAt t front.getLast? q back ∧ luhnOk t q = true ∧
    x.length ≤ front.length ∧ front.length < x.length + w.length ∧
    ∀ x' w' y', Picks t s x' w' y' → luhnOk t w' = true →
      x'.length + w'.length ≤ front.length ∨ front.length + q.length ≤ x'.length

/-! ### The pattern -/

section Pattern

variable {t} {prev : Option Char} {s w rest : List Char}

theorem isSep_iff {c : Char} : isSep c = true ↔ c = ' ' ∨ c = '-' := by
  simp [isSep]

theorem not_digit_of_isSep {c : Char} (h : isSep c = true) : t.isDigit c = false := by
  rcases isSep_iff.mp h with rfl | rfl
  · rw [CharTables.isDigit, t.ascii_digit _ (by decide)]
    decide
  · rw [CharTables.isDigit, t.ascii_digit _ (by decide)]
    decide

/-- One more digit, after a separator or not. -/
theorem mem_step_iff {w : List Char} : w ∈ (seq (opt (one isSep)) (one t.isDigit)).lang ↔
    ∃ d, t.isDigit d = true ∧ (w = [d] ∨ ∃ s, isSep s = true ∧ w = [s, d]) := by
  rw [mem_seq]
  constructor
  · rintro ⟨_, ⟨s, hs, rfl⟩ | rfl, _, ⟨d, hd, rfl⟩, rfl⟩
    · exact ⟨d, hd, .inr ⟨s, hs, rfl⟩⟩
    · exact ⟨d, hd, .inl rfl⟩
  · rintro ⟨d, hd, rfl | ⟨s, hs, rfl⟩⟩
    · exact ⟨[], .inr rfl, [d], ⟨d, hd, rfl⟩, rfl⟩
    · exact ⟨[s], .inl ⟨s, hs, rfl⟩, [d], ⟨d, hd, rfl⟩, rfl⟩

theorem digits_iff {k : ℕ} {d : Char} {w : List Char} (hd : t.isDigit d = true) :
    Digits t (k + 1) (d :: w) ↔ w ∈ (seq (opt (one isSep)) (one t.isDigit)).lang ^ k := by
  induction k generalizing d w with
  | zero =>
    rw [pow_zero, Language.mem_one]
    constructor
    · intro h
      cases h with
      | single digit => rfl
      | next digit tail => cases tail
      | apart digit sep tail => cases tail
    · rintro rfl
      exact .single hd
  | succ k ih =>
    rw [pow_succ', Language.mem_mul]
    constructor
    · intro h
      cases h with
      | next digit tail =>
        cases w with
        | nil => cases tail
        | cons e w =>
          have he : t.isDigit e = true := by cases tail <;> assumption
          exact ⟨[e], mem_step_iff.mpr ⟨e, he, .inl rfl⟩, w, (ih he).mp tail, rfl⟩
      | apart digit sep tail =>
        rename_i s w
        cases w with
        | nil => cases tail
        | cons e w =>
          have he : t.isDigit e = true := by cases tail <;> assumption
          exact ⟨[s, e], mem_step_iff.mpr ⟨e, he, .inr ⟨s, isSep_iff.mpr sep, rfl⟩⟩, w, (ih he).mp tail, rfl⟩
    · rintro ⟨v, hv, w, hw, rfl⟩
      obtain ⟨e, he, rfl | ⟨s, hs, rfl⟩⟩ := mem_step_iff.mp hv
      · exact .next hd ((ih he).mpr hw)
      · exact .apart hd (isSep_iff.mp hs) ((ih he).mpr hw)

theorem mem_creditCard_iff : w ∈ (CREDIT_CARD t).body.lang ↔ ∃ n, 13 ≤ n ∧ n ≤ 19 ∧ Digits t n w := by
  change w ∈ (seq (one t.isDigit) (rep 12 18 (seq (opt (one isSep)) (one t.isDigit)))).lang ↔ _
  rw [mem_seq]
  constructor
  · rintro ⟨_, ⟨d, hd, rfl⟩, v, ⟨k, hk, hk', hv⟩, rfl⟩
    exact ⟨k + 1, by omega, by omega, (digits_iff hd).mpr hv⟩
  · rintro ⟨n, hn, hn', h⟩
    obtain ⟨k, rfl⟩ := Nat.exists_eq_succ_of_ne_zero (show n ≠ 0 by omega)
    cases w with
    | nil => cases h
    | cons d w =>
      have hd : t.isDigit d = true := by cases h <;> assumption
      exact ⟨[d], ⟨d, hd, rfl⟩, w, ⟨k, by omega, by omega, (digits_iff hd).mp h⟩, rfl⟩

theorem cardAt_iff : CardAt t prev w rest ↔ (CREDIT_CARD t).Match prev w rest := by
  have hhead : ∀ {n : ℕ}, Digits t n w → (w ++ rest).head? = w.head? := by
    intro n h
    cases h <;> rfl
  constructor
  · rintro ⟨hstart, hdigits, hstop⟩
    have ⟨n, _, _, hn⟩ := hdigits
    exact ⟨by rw [hhead hn]; exact hstart, mem_creditCard_iff.mpr hdigits, hstop⟩
  · rintro ⟨hbefore, hword, hafter⟩
    obtain ⟨n, -, -, hn⟩ := mem_creditCard_iff.mp hword
    exact ⟨by rw [← hhead hn]; exact hbefore, mem_creditCard_iff.mp hword, hafter⟩

theorem CardAt.ne_nil (h : CardAt t prev w rest) : w ≠ [] :=
  (cardAt_iff.mp h).ne_nil

theorem greedy_creditCard : (CREDIT_CARD t).body.Greedy := by
  have hstep : (seq (opt (one isSep)) (one t.isDigit)).Deterministic := by
    intro s
    cases s with
    | nil => exact Nat.zero_le 1
    | cons c s =>
      have hends : (seq (opt (one isSep)) (one t.isDigit)).ends (c :: s) =
          ((if isSep c then [s] else []) ++ [c :: s]).flatMap (one t.isDigit).ends := rfl
      rw [hends]
      cases hc : isSep c with
      | true =>
        have hnone : (one t.isDigit).ends (c :: s) = [] := by
          rw [ends, single, if_neg (by simp [not_digit_of_isSep hc])]
        rw [if_pos rfl, List.flatMap_append, List.flatMap_singleton, List.flatMap_singleton, hnone,
          List.append_nil]
        exact deterministic_one t.isDigit s
      | false =>
        rw [if_neg (by simp), List.nil_append, List.flatMap_singleton]
        exact deterministic_one t.isDigit (c :: s)
  exact (deterministic_one t.isDigit).greedy_seq (hstep.greedy_rep 12 18)

/-- What the engine finds is the longest. -/
theorem longest_of_first (h : (CREDIT_CARD t).first prev (w ++ rest) = some rest)
    (hm : (CREDIT_CARD t).Match prev w rest) : Longest t prev w rest where
  card := cardAt_iff.mpr hm
  longest w' rest' hs hcard := by
    have hlen := Pattern.longest_of_first greedy_creditCard h hs (cardAt_iff.mp hcard)
    have htotal := congrArg List.length hs
    rw [List.length_append, List.length_append] at htotal
    omega

end Pattern

/-! ### The scan picks -/

section Scan

variable {t} {s x w y : List Char}

theorem looks_of_scan {front back : List (Piece Char)} (h : scan (CREDIT_CARD t) none 0 s = front ++ back) :
    Looks t s (source front) (source back) := by
  induction front using List.reverseRecOn generalizing back with
  | nil =>
    have hs := source_scan (CREDIT_CARD t) s
    rw [h] at hs
    rw [show source back = s from hs]
    exact .start
  | append_singleton front z ih =>
    have hscan := scanned_scan (p := CREDIT_CARD t) none s
    rw [List.append_assoc, List.singleton_append] at h
    rw [h] at hscan
    have hlooks := ih h
    cases z with
    | kept c =>
      have hnone := hscan.kept_spec
      rw [Option.or_none] at hnone
      rw [source_append]
      exact hlooks.pass fun w rest hs hcard => Pattern.first_eq_none_iff.mp hnone w rest hs (cardAt_iff.mp hcard)
    | hit w =>
      have hspec := hscan.hit_spec
      rw [Option.or_none] at hspec
      have happ : source (front ++ [Piece.hit w]) = source front ++ w := by simp [source]
      rw [happ]
      exact hlooks.take (longest_of_first hspec.1 hspec.2)

theorem picks_of_hit {front back : List (Piece Char)}
    (h : scan (CREDIT_CARD t) none 0 s = front ++ .hit w :: back) : Picks t s (source front) w (source back) := by
  have hscan := scanned_scan (p := CREDIT_CARD t) none s
  rw [h] at hscan
  have hspec := hscan.hit_spec
  rw [Option.or_none] at hspec
  exact ⟨looks_of_scan h, longest_of_first hspec.1 hspec.2⟩

/-- At a place that the engine comes to, the longest word is taken. -/
theorem hit_of_longest {front back : List (Piece Char)} (h : scan (CREDIT_CARD t) none 0 s = front ++ back)
    (hback : source back = w ++ y) (hl : Longest t (source front).getLast? w y) :
    ∃ back', back = .hit w :: back' ∧ source back' = y := by
  have hscan := scanned_scan (p := CREDIT_CARD t) none s
  rw [h] at hscan
  cases back with
  | nil => exact absurd (List.append_eq_nil_iff.mp hback.symm).1 hl.card.ne_nil
  | cons z back =>
    cases z with
    | kept c =>
      have hnone := hscan.kept_spec
      rw [Option.or_none] at hnone
      exact absurd (cardAt_iff.mp hl.card) (Pattern.first_eq_none_iff.mp hnone w y hback)
    | hit w' =>
      have hspec := hscan.hit_spec
      rw [Option.or_none] at hspec
      have hl' := longest_of_first hspec.1 hspec.2
      have hlen := hl.longest _ _ hback.symm hl'.card
      have hlen' := hl'.longest _ _ hback hl.card
      obtain ⟨rfl, rfl⟩ := List.append_inj hback (by omega)
      exact ⟨back, rfl, rfl⟩

theorem scan_of_looks (h : Looks t s x y) : ∃ front back,
    scan (CREDIT_CARD t) none 0 s = front ++ back ∧ source front = x ∧ source back = y := by
  induction h with
  | start => exact ⟨[], _, rfl, rfl, source_scan _ _⟩
  | @pass x y c looks none ih =>
    obtain ⟨front, back, hscan, rfl, hback⟩ := ih
    cases back with
    | nil => cases hback
    | cons z back =>
      cases z with
      | kept d =>
        obtain ⟨rfl, rfl⟩ := List.cons.inj hback
        exact ⟨front ++ [.kept d], back, by rw [hscan, List.append_assoc]; rfl, by simp [source], rfl⟩
      | hit w =>
        have hpick := (picks_of_hit hscan).2.card
        exact absurd hpick (none w (source back) hback.symm)
  | @take x w y looks longest ih =>
    obtain ⟨front, back, hscan, rfl, hback⟩ := ih
    obtain ⟨back', rfl, rfl⟩ := hit_of_longest hscan hback longest
    exact ⟨front ++ [.hit w], back', by rw [hscan, List.append_assoc]; rfl, by simp [source], rfl⟩

/-- **The scan** takes what the engine picks, and nothing else. -/
theorem picks_iff : Picks t s x w y ↔ ∃ front back,
    scan (CREDIT_CARD t) none 0 s = front ++ .hit w :: back ∧ source front = x ∧ source back = y := by
  constructor
  · rintro ⟨hlooks, hl⟩
    obtain ⟨front, back, hscan, rfl, hback⟩ := scan_of_looks hlooks
    obtain ⟨back', rfl, rfl⟩ := hit_of_longest hscan hback hl
    exact ⟨front, back', hscan, rfl, rfl⟩
  · rintro ⟨front, back, hscan, rfl, rfl⟩
    exact picks_of_hit hscan

end Scan

/-! ### Texts that fall apart -/

section Wall

variable {t} {c : Char} {prev prev' : Option Char} {s A B w rest x y z : List Char}

/-- A symbol that no card number contains, and that makes no difference next to one. -/
structure Wall (t : CharTables) (c : Char) : Prop where
  unused : (CREDIT_CARD t).body.uses c = false
  not_word : t.isWord c = false

theorem wall_bracket (h : c = '[' ∨ c = ']') : Wall t c where
  unused := by
    rcases h with rfl | rfl
    · exact (plain_creditCard t).brackets.1
    · exact (plain_creditCard t).brackets.2
  not_word := (bracket_symbols t h).1

theorem Wall.notMem (hc : Wall t c) (h : CardAt t prev w rest) : c ∉ w := fun hmem => by
  have huses := uses_of_mem (cardAt_iff.mp h).word hmem
  rw [hc.unused] at huses
  cases huses

/-- A word without the symbol lies in front of it. -/
theorem split_before (h : A ++ c :: B = w ++ rest) (hw : c ∉ w) : ∃ y, A = w ++ y ∧ rest = y ++ c :: B := by
  rcases List.append_eq_append_iff.mp h with ⟨v, rfl, hrest⟩ | ⟨y, rfl, hrest⟩
  · cases v with
    | nil => exact ⟨[], by rw [List.append_nil, List.append_nil], hrest.symm⟩
    | cons d v =>
      obtain ⟨rfl, -⟩ := List.cons.inj hrest
      exact absurd (List.mem_append_right A List.mem_cons_self) hw
  · exact ⟨y, rfl, hrest⟩

theorem cardAt_congr (h : holds t.isWord prev = holds t.isWord prev') :
    CardAt t prev w rest ↔ CardAt t prev' w rest := by
  have hb : boundary t prev w.head? = boundary t prev' w.head? := by rw [boundary, h, boundary]
  exact ⟨fun h => ⟨hb ▸ h.start, h.digits, h.stop⟩, fun h => ⟨hb ▸ h.start, h.digits, h.stop⟩⟩

theorem longest_congr (h : holds t.isWord prev = holds t.isWord prev') :
    Longest t prev w rest ↔ Longest t prev' w rest :=
  ⟨fun hl => ⟨(cardAt_congr h).mp hl.card, fun w' rest' hs hcard =>
      hl.longest w' rest' hs ((cardAt_congr h).mpr hcard)⟩,
    fun hl => ⟨(cardAt_congr h).mpr hl.card, fun w' rest' hs hcard =>
      hl.longest w' rest' hs ((cardAt_congr h).mp hcard)⟩⟩

theorem Wall.cardAt_iff (hc : Wall t c) : CardAt t prev w (y ++ c :: B) ↔ CardAt t prev w y := by
  have hb : boundary t w.getLast? (y ++ c :: B).head? = boundary t w.getLast? y.head? := by
    cases y with
    | nil => simp [boundary, holds, hc.not_word]
    | cons d y => rfl
  exact ⟨fun h => ⟨h.start, h.digits, hb ▸ h.stop⟩, fun h => ⟨h.start, h.digits, hb ▸ h.stop⟩⟩

theorem Wall.longest_iff (hc : Wall t c) : Longest t prev w (y ++ c :: B) ↔ Longest t prev w y := by
  constructor
  · rintro ⟨hcard, hmax⟩
    refine ⟨hc.cardAt_iff.mp hcard, fun w' rest' hs hcard' => ?_⟩
    exact hmax w' (rest' ++ c :: B) (by rw [← List.append_assoc, hs, List.append_assoc]) (hc.cardAt_iff.mpr hcard')
  · rintro ⟨hcard, hmax⟩
    refine ⟨hc.cardAt_iff.mpr hcard, fun w' rest' hs hcard' => ?_⟩
    rw [← List.append_assoc] at hs
    obtain ⟨b, hb, rfl⟩ := split_before hs (hc.notMem hcard')
    exact hmax w' b hb (hc.cardAt_iff.mp hcard')

/-- Behind the wall the engine sees what it sees at the start of a text. -/
theorem Wall.holds_getLast? (hc : Wall t c) (A x : List Char) :
    holds t.isWord (A ++ c :: x).getLast? = holds t.isWord x.getLast? := by
  rw [List.getLast?_append, List.getLast?_cons]
  cases hx : x.getLast? with
  | none => simp [holds, hc.not_word]
  | some d => simp

theorem Looks.append_eq (h : Looks t s x y) : x ++ y = s := by
  induction h with
  | start => rfl
  | pass looks none ih => rw [List.append_assoc]; exact ih
  | take looks longest ih => rw [List.append_assoc]; exact ih

/-- In front of the wall or behind it, the engine looks where it would in that part alone. -/
theorem Wall.looks (hc : Wall t c) (h : Looks t (A ++ c :: B) x z) :
    (∃ y, z = y ++ c :: B ∧ Looks t A x y) ∨ ∃ x', x = A ++ c :: x' ∧ Looks t B x' z := by
  generalize hs : A ++ c :: B = s at h
  induction h with
  | start => exact .inl ⟨A, hs.symm, .start⟩
  | @pass x z d looks none ih =>
    rcases ih with ⟨y, hz, hl⟩ | ⟨x', rfl, hl⟩
    · cases y with
      | nil =>
        obtain ⟨rfl, rfl⟩ := List.cons.inj hz
        have hx := hl.append_eq
        rw [List.append_nil] at hx
        exact .inr ⟨[], by rw [hx], .start⟩
      | cons e y =>
        obtain ⟨rfl, rfl⟩ := List.cons.inj hz
        refine .inl ⟨y, rfl, .pass hl fun w rest hw hcard => ?_⟩
        refine none w (rest ++ c :: B) ?_ (hc.cardAt_iff.mpr hcard)
        rw [← List.append_assoc, ← hw]
        rfl
    · refine .inr ⟨x' ++ [d], by rw [List.append_assoc]; rfl, .pass hl fun w rest hw hcard => ?_⟩
      exact none w rest hw ((cardAt_congr (hc.holds_getLast? A x')).mpr hcard)
  | @take x w z looks longest ih =>
    rcases ih with ⟨y, hz, hl⟩ | ⟨x', rfl, hl⟩
    · obtain ⟨b, rfl, rfl⟩ := split_before hz.symm (hc.notMem longest.card)
      exact .inl ⟨b, rfl, .take hl (hc.longest_iff.mp longest)⟩
    · refine .inr ⟨x' ++ w, by rw [List.append_assoc]; rfl, .take hl ?_⟩
      exact (longest_congr (hc.holds_getLast? A x')).mp longest

theorem Looks.before_wall (hc : Wall t c) (h : Looks t A x y) : Looks t (A ++ c :: B) x (y ++ c :: B) := by
  induction h with
  | start => exact .start
  | pass looks none ih =>
    refine .pass ih fun w rest hw hcard => ?_
    obtain ⟨b, hb, rfl⟩ := split_before (A := _ :: _) hw (hc.notMem hcard)
    exact none w b hb (hc.cardAt_iff.mp hcard)
  | take looks longest ih =>
    refine .take ?_ (hc.longest_iff.mpr longest)
    rw [← List.append_assoc]
    exact ih

theorem Looks.behind_wall (hc : Wall t c) (h : Looks t B x y) : Looks t (A ++ c :: B) (A ++ c :: x) y := by
  induction h with
  | start =>
    have hend : Looks t A A [] := by
      have hall := looks_of_scan (List.append_nil (scan (CREDIT_CARD t) none 0 A)).symm
      rwa [source_scan] at hall
    refine .pass (hend.before_wall hc) fun w rest hw hcard => ?_
    obtain ⟨d, w, rfl⟩ := List.exists_cons_of_ne_nil hcard.ne_nil
    obtain ⟨rfl, -⟩ := List.cons.inj hw
    exact hc.notMem hcard List.mem_cons_self
  | @pass x y d looks none ih =>
    have hnext : Looks t (A ++ c :: B) ((A ++ c :: x) ++ [d]) y := .pass ih fun w rest hw hcard =>
      none w rest hw ((cardAt_congr (hc.holds_getLast? A x)).mp hcard)
    rwa [List.append_assoc] at hnext
  | @take x w y looks longest ih =>
    have hnext : Looks t (A ++ c :: B) ((A ++ c :: x) ++ w) y :=
      .take ih ((longest_congr (hc.holds_getLast? A x)).mpr longest)
    rwa [List.append_assoc] at hnext

theorem Wall.picked_iff (hc : Wall t c) : Picked t (A ++ c :: B) ↔ Picked t A ∨ Picked t B := by
  constructor
  · rintro ⟨x, w, z, ⟨hlooks, hlongest⟩, hok⟩
    rcases hc.looks hlooks with ⟨y, hz, hl⟩ | ⟨x', rfl, hl⟩
    · obtain ⟨b, rfl, rfl⟩ := split_before hz.symm (hc.notMem hlongest.card)
      exact .inl ⟨x, w, b, ⟨hl, hc.longest_iff.mp hlongest⟩, hok⟩
    · exact .inr ⟨x', w, z, ⟨hl, (longest_congr (hc.holds_getLast? A x')).mp hlongest⟩, hok⟩
  · rintro (⟨x, w, y, ⟨hlooks, hlongest⟩, hok⟩ | ⟨x, w, y, ⟨hlooks, hlongest⟩, hok⟩)
    · refine ⟨x, w, y ++ c :: B, ⟨?_, hc.longest_iff.mpr hlongest⟩, hok⟩
      rw [← List.append_assoc]
      exact hlooks.before_wall hc
    · exact ⟨A ++ c :: x, w, y, ⟨hlooks.behind_wall hc, (longest_congr (hc.holds_getLast? A x)).mpr hlongest⟩, hok⟩

theorem not_picked_of_digitless (h : ∀ d ∈ s, t.isDigit d = false) : ¬ Picked t s := by
  rintro ⟨x, w, y, ⟨hlooks, hlongest⟩, -⟩
  obtain ⟨n, -, -, hdigits⟩ := hlongest.card.digits
  obtain ⟨d, hd, hdigit⟩ : ∃ d ∈ w, t.isDigit d = true := by
    cases hdigits with
    | single digit => exact ⟨_, List.mem_cons_self, digit⟩
    | next digit tail => exact ⟨_, List.mem_cons_self, digit⟩
    | apart digit sep tail => exact ⟨_, List.mem_cons_self, digit⟩
  have hmem : d ∈ s := by
    rw [← hlooks.append_eq]
    exact List.mem_append_right x (List.mem_append_left y hd)
  rw [h d hmem] at hdigit
  cases hdigit

/-- A mask parts the text. -/
theorem picked_mask_iff : Picked t (A ++ (MASK ++ B)) ↔ Picked t A ∨ Picked t B := by
  have hmask : MASK = '[' :: ("REDACTED".toList ++ [']']) := by decide +kernel
  have hinner : ¬ Picked t "REDACTED".toList := by
    refine not_picked_of_digitless fun d hd => (mask_symbols t ?_).1
    rw [hmask]
    exact List.mem_cons_of_mem '[' (List.mem_append_left [']'] hd)
  rw [hmask, List.cons_append, (wall_bracket (.inl rfl)).picked_iff, List.append_assoc, List.cons_append,
    List.nil_append, (wall_bracket (.inr rfl)).picked_iff]
  exact or_congr_right (or_iff_right hinner)

theorem picked_render_iff {ps : List (Piece Char)} :
    Picked t (A ++ render (fun _ => MASK) ps) ↔ ∃ q ∈ stretches A ps, Picked t q := by
  induction ps generalizing A with
  | nil => simp [render, stretches]
  | cons z ps ih =>
    cases z with
    | kept d =>
      rw [render, stretches, ← ih, List.append_assoc]
      rfl
    | hit w =>
      rw [render, stretches, picked_mask_iff, List.exists_mem_cons_iff]
      exact or_congr_right (ih (A := []))

/-- **Masks part the text**: the engine picks what it picks in the stretches between them. -/
theorem picked_masked_iff (p : Pattern Char) (s : List Char) : Picked t (masked p s) ↔ ∃ q ∈ split p s, Picked t q :=
  picked_render_iff (A := [])

end Wall

/-! ### What is left in the text -/

section Left

variable {t} {u q : List Char} {ps front back : List (Piece Char)}

theorem checked_eq (p : Pattern Char) (check : List Char → Bool) (u : List Char) :
    checked p check u = render (fun _ => MASK) (sift check (scan p none 0 u)) :=
  (render_sift MASK check _).symm

theorem Digits.head_word {n : ℕ} (h : Digits t n q) : ∃ c, q.head? = some c ∧ t.isWord c = true := by
  cases h with
  | single digit => exact ⟨_, rfl, t.digit_word _ digit⟩
  | next digit tail => exact ⟨_, rfl, t.digit_word _ digit⟩
  | apart digit sep tail => exact ⟨_, rfl, t.digit_word _ digit⟩

/-- A card number that was left looks the same in the new text. -/
theorem cardAt_render_iff {p : Pattern Char} (hits : Hits p ps) (hp : Plain t p.body) (ho : Opens t p)
    (hcl : Closes t p) (hps : ps = front ++ (q.map .kept ++ back)) :
    CardAt t (render (fun _ => MASK) front).getLast? q (render (fun _ => MASK) back) ↔
      CardAt t (source front).getLast? q (source back) := by
  have hagree : (∃ n, 13 ≤ n ∧ n ≤ 19 ∧ Digits t n q) →
      (render (fun _ => MASK) front).getLast? = (source front).getLast? ∧
        holds t.isWord (render (fun _ => MASK) back).head? = holds t.isWord (source back).head? := by
    rintro ⟨n, hn, hn', hd⟩
    obtain ⟨c, hc, hword⟩ := hd.head_word
    have hmem := mem_creditCard_iff.mpr ⟨n, hn, hn', hd⟩
    have hne : q ≠ [] := by
      rintro rfl
      cases hc
    have hl := List.getLast?_eq_some_getLast hne
    exact ⟨prev_agrees hits hp hcl hps hc hword,
      (next_agrees hits ho hps hl ((plain_creditCard t).last_word hmem hl)).1⟩
  constructor
  · rintro ⟨hstart, hdigits, hstop⟩
    obtain ⟨hprev, hnext⟩ := hagree hdigits
    rw [boundary, hnext] at hstop
    exact ⟨hprev ▸ hstart, hdigits, hstop⟩
  · rintro ⟨hstart, hdigits, hstop⟩
    obtain ⟨hprev, hnext⟩ := hagree hdigits
    refine ⟨hprev ▸ hstart, hdigits, ?_⟩
    rw [boundary, hnext]
    exact hstop

/-- **The card rule** leaves no card number exactly if it misses none. -/
theorem noCard_checked_iff : NoCard t (checked (CREDIT_CARD t) (luhnOk t) u) ↔ ¬ Missed t u := by
  have hhits : Hits (CREDIT_CARD t) (sift (luhnOk t) (scan (CREDIT_CARD t) none 0 u)) :=
    (hits_scan _ u).sift
  have hsource : source (sift (luhnOk t) (scan (CREDIT_CARD t) none 0 u)) = u := by
    rw [source_sift, source_scan]
  have hlook : ∀ {front back : List (Piece Char)} {q : List Char},
      sift (luhnOk t) (scan (CREDIT_CARD t) none 0 u) = front ++ (q.map .kept ++ back) → _ :=
    fun hps => cardAt_render_iff hhits (plain_creditCard t) opens_bounded closes_bounded hps
  rw [checked_eq]
  constructor
  · rintro hno ⟨x, w, y, -, -, front, q, back, hu, hcard, hluhn, -, -, hfar⟩
    obtain ⟨f, b, hps, rfl, rfl⟩ := kept_of_source hcard.ne_nil (hsource.trans hu) fun front' w' back' hps => by
      obtain ⟨hw', f', b', hscan, hf', -⟩ := sift_hit hps
      have := hfar _ w' _ (picks_of_hit hscan) hw'
      rw [hf'] at this
      exact this
    have hout := hno (render (fun _ => MASK) f) q (render (fun _ => MASK) b)
      (by rw [hps, render_append, render_append, render_kept]) ((hlook hps).mpr hcard)
    rw [hluhn] at hout
    cases hout
  · intro hmiss A q B hout hcard
    by_contra hluhn
    rw [Bool.not_eq_false] at hluhn
    have hmem := (cardAt_iff.mp hcard).word
    obtain ⟨f, b, hps, rfl, rfl⟩ := kept_of_render mask_ends.2.2 ((plain_creditCard t).alien hmem) hout
    replace hcard := (hlook hps).mp hcard
    obtain ⟨c, q, rfl⟩ := List.exists_cons_of_ne_nil hcard.ne_nil
    have hfirst : sift (luhnOk t) (scan (CREDIT_CARD t) none 0 u) = f ++ .kept c :: (q.map .kept ++ b) := hps
    rcases sift_kept hfirst with ⟨f', b', hscan, hf', hb'⟩ | ⟨f', w, b', v, v', hscan, hw, hsplit, hf'⟩
    · -- where nothing was found no card number begins
      refine clear_scan (CREDIT_CARD t) u f' c b' hscan (c :: q) (source b) ?_ (hf' ▸ cardAt_iff.mp hcard)
      rw [hb', source_append, source_kept]
      rfl
    · refine hmiss ⟨source f', w, source b', picks_of_hit hscan, hw, source f, c :: q, source b, ?_, hcard,
        hluhn, ?_, ?_, fun x' w' y' hpick hw' => ?_⟩
      · rw [← hsource, hps, source_append, source_append, source_kept]
      · rw [hf', List.length_append]
        omega
      · rw [hf', hsplit, List.length_append, List.length_append, List.length_cons]
        omega
      · obtain ⟨f1, b1, hscan', rfl, rfl⟩ := picks_iff.mp hpick
        have hsift : sift (luhnOk t) (scan (CREDIT_CARD t) none 0 u) =
            sift (luhnOk t) f1 ++ .hit w' :: sift (luhnOk t) b1 := by
          rw [hscan', sift_append, sift, if_pos hw']
          rfl
        have hapart := apart_of_kept (hps.symm.trans hsift)
        rw [source_sift] at hapart
        exact hapart

end Left

/-- **Card numbers** in the output of the rules for everybody: there is none exactly if the card rule misses
none in the text that it is given. -/
theorem cards_masked_iff (r : DefaultRedactor) (s : String) :
    NoCard t (RegexRedactor.scrub ⟨r, GLOBAL_PII_PATTERNS t⟩ s).toList ↔
      ¬ Missed t (beforeCards t s.toList) := by
  rw [scrub_global, String.toList_ofList]
  exact noCard_checked_iff

theorem digits_of_all {w : List Char} (hne : w ≠ []) (h : w.all t.isDigit = true) :
    Digits t w.length w := by
  induction w with
  | nil => exact absurd rfl hne
  | cons d w ih =>
    rw [List.all_cons, Bool.and_eq_true] at h
    obtain ⟨hd, hw⟩ := h
    cases w with
    | nil => exact .single hd
    | cons e w => exact .next hd (ih (List.cons_ne_nil e w) hw)

/-- The card is followed by its CVV; together they are a run of 19 digits that the Luhn check rejects. -/
theorem card_with_cvv_left : ¬ NoCard asciiTables
    (RegexRedactor.scrub ⟨.init String.toLower none, GLOBAL_PII_PATTERNS asciiTables⟩
      "4111111111111111 123").toList := by
  rw [scrub_global, String.toList_ofList]
  have hout : globalScrub asciiTables "4111111111111111 123".toList = "4111111111111111 123".toList := by
    decide +kernel
  have hdigits : Digits asciiTables "4111111111111111".toList.length "4111111111111111".toList :=
    digits_of_all asciiTables (by decide) (by decide)
  intro hno
  have hluhn := hno [] "4111111111111111".toList " 123".toList (by rw [hout]; decide)
    ⟨by decide, ⟨_, by decide, by decide, hdigits⟩, by decide⟩
  have htrue : luhnOk asciiTables "4111111111111111".toList = true := by
    decide +kernel
  rw [htrue] at hluhn
  cases hluhn

end ResilienceKit.Audit

import ResilienceKit.Audit.CardNumbers

/-!
# Audit.Fixpoint — scrubbing twice

The eight rules of the India pack run once each.  A rule that ends at a word boundary hides no match of an
earlier rule, since what follows it begins with no word symbol.  The mobile rule asks for no more than that
no digit follows, so what stands glued to the number begins at a boundary once the number is masked
(`Surfaces`).  And a card number that the card rule skipped can stand alone once its neighbours are masked
(`Resurfaces`).
-/

namespace ResilienceKit.Audit

open Regex Expr

variable (t : CharTables)

/-! ### Rules that have nothing to do -/

/-- The words that the pattern matches in the text are none of those that count; the flag says whether a word
symbol follows. -/
def Quiet (p : Pattern Char) (counts : List Char → Bool → Prop) (s : List Char) : Prop :=
  ∀ front w back, s = front ++ (w ++ back) → p.Match front.getLast? w back →
    ¬ counts w (holds t.isWord back.head?)

/-- The assertions see whether their neighbours are word symbols and digits, and no more of them. -/
structure Local (p : Pattern Char) : Prop where
  before : ∀ prev prev' next, holds t.isWord prev = holds t.isWord prev' →
    p.before prev next = p.before prev' next
  after : ∀ last next next', holds t.isWord next = holds t.isWord next' →
    holds t.isDigit next = holds t.isDigit next' → p.after last next = p.after last next'

/-- What stands behind a match of `x` begins no match of `p`, once the match of `x` is masked. -/
def Seals (x p : Pattern Char) : Prop := ∀ prev w q y, x.Match prev w (q ++ y) → ¬ p.Match none q y

section Steps

variable {t} {x p : Pattern Char} {s : List Char} {ps : List (Piece Char)}
  {counts : List Char → Bool → Prop}

theorem local_bounded {r : Expr Char} {h : 0 < r.least} : Local t (bounded t r h) where
  before prev prev' next heq := by
    simp only [bounded, boundary, heq]
  after last next next' heq _ := by
    simp only [bounded, boundary, heq]

theorem local_mobile : Local t (MOBILE_IN t) where
  before prev prev' next heq := by
    simp only [MOBILE_IN, heq]
  after last next next' _ heq := by
    simp only [MOBILE_IN, heq]

/-- A masked match ends in the bracket of its mask. -/
theorem getLast?_render_hit (front : List (Piece Char)) (w : List Char) :
    (render (fun _ => MASK) (front ++ [.hit w])).getLast? = some ']' := by
  rw [render_append, render, render, List.append_nil, List.getLast?_append, mask_ends.2.1]
  rfl

/-- **A match in the new text** was one in the old text, or begins behind a masked match. -/
theorem match_of_render (hits : Hits x ps) (hx : Opens t x) (hp : Plain t p.body) (hloc : Local t p)
    {A q B : List Char} (h : render (fun _ => MASK) ps = A ++ (q ++ B)) (hm : p.Match A.getLast? q B) :
    ∃ front back, ps = front ++ (q.map .kept ++ back) ∧ render (fun _ => MASK) front = A ∧
      holds t.isWord B.head? = holds t.isWord (source back).head? ∧
      (p.Match (source front).getLast? q (source back) ∨
        ∃ front' w, front = front' ++ [.hit w] ∧ p.Match none q (source back)) := by
  obtain ⟨front, back, hps, rfl, rfl⟩ := kept_of_render mask_ends.2.2 (hp.alien hm.word) h
  have hl := List.getLast?_eq_some_getLast hm.ne_nil
  obtain ⟨hword, hdigit⟩ := next_agrees hits hx hps hl (hp.last_word hm.word hl)
  have hhead : ∀ rest : List Char, (q ++ rest).head? = q.head? := fun rest => by
    obtain ⟨c, q, rfl⟩ := List.exists_cons_of_ne_nil hm.ne_nil
    rfl
  have hafter := hm.after
  rw [hloc.after _ _ _ hword hdigit] at hafter
  have hbefore := hm.before
  rw [hhead] at hbefore
  refine ⟨front, back, hps, rfl, hword, ?_⟩
  rcases last_cases (fun _ => MASK) front with ⟨front', w, rfl⟩ | heq
  · refine .inr ⟨front', w, rfl, ?_, hm.word, hafter⟩
    rw [getLast?_render_hit] at hbefore
    rw [hhead, ← hloc.before (some ']') none _ (bracket_symbols t (.inr rfl)).1]
    exact hbefore
  · rw [heq] at hbefore
    exact .inl ⟨by rw [hhead]; exact hbefore, hm.word, hafter⟩

/-- **Step lemma**: a rule keeps another one quiet, if nothing that counts begins behind its matches. -/
theorem Quiet.step (h : Quiet t p counts (source ps)) (hits : Hits x ps) (hx : Opens t x) (hp : Plain t p.body)
    (hloc : Local t p) (hfree : ∀ front w back, ps = front ++ .hit w :: back → ∀ q y, source back = q ++ y →
      counts q (holds t.isWord y.head?) → ¬ p.Match none q y) :
    Quiet t p counts (render (fun _ => MASK) ps) := by
  intro A q B hs hm hcounts
  obtain ⟨front, back, rfl, -, hword, hold | ⟨front', w, rfl, hold⟩⟩ := match_of_render hits hx hp hloc hs hm
  · exact h _ q _ (by rw [source_append, source_append, source_kept]) hold (hword ▸ hcounts)
  · refine hfree front' w (q.map .kept ++ back) (by rw [List.append_assoc]; rfl) q (source back) ?_
      (hword ▸ hcounts) hold
    rw [source_append, source_kept]

/-- And it is quiet itself behind its own turn. -/
theorem quiet_masked (s : List Char) (hx : Opens t p) (hp : Plain t p.body) (hloc : Local t p)
    (hfree : ∀ front w back, scan p none 0 s = front ++ .hit w :: back → ∀ q y, source back = q ++ y →
      counts q (holds t.isWord y.head?) → ¬ p.Match none q y) : Quiet t p counts (masked p s) := by
  intro A q B hs hm hcounts
  obtain ⟨front, back, hps, -, hword, hold | ⟨front', w, rfl, hold⟩⟩ :=
    match_of_render (hits_scan p s) hx hp hloc hs hm
  · exact (clear_scan p s).not_match hps hold
  · refine hfree front' w (q.map .kept ++ back) (by rw [hps, List.append_assoc]; rfl) q (source back) ?_
      (hword ▸ hcounts) hold
    rw [source_append, source_kept]

theorem Seals.free (h : Seals x p) (hits : Hits x ps) {front back : List (Piece Char)} {w : List Char}
    (hps : ps = front ++ .hit w :: back) (q y : List Char) (hback : source back = q ++ y) :
    ¬ p.Match none q y :=
  h _ w q y (hback ▸ hits front w back hps)

theorem Quiet.behind (h : Quiet t p counts s) (hx : Opens t x) (hp : Plain t p.body) (hloc : Local t p)
    (hseals : Seals x p) : Quiet t p counts (masked x s) := by
  rw [← source_scan x s] at h
  exact h.step (hits_scan x s) hx hp hloc fun _ w _ hps q y hback _ =>
    hseals.free (hits_scan x s) hps q y hback

/-- A rule that ends at a word boundary hides no rule that begins at one. -/
theorem seals_bounded {r : Expr Char} {h : 0 < r.least} (hx : Closes t x) (hplain : Plain t x.body) :
    Seals x (bounded t r h) := by
  intro prev w q y hm hq
  have hl := List.getLast?_eq_some_getLast hm.ne_nil
  have hnext := hx _ _ hm.after (by rw [hl]; exact hplain.last_word hm.word hl)
  have hbefore : boundary t none (q ++ y).head? = true := hq.before
  rw [boundary, hnext] at hbefore
  cases hbefore

/-- No rule hides one that begins with a digit. -/
theorem seals_digits (hx : ∀ last next, x.after last next = true → holds t.isWord last = true →
    holds t.isDigit next = false) (hplain : Plain t x.body) (hp : ∀ c, p.body.firsts c = true → t.isDigit c = true) :
    Seals x p := by
  intro prev w q y hm hq
  have hl := List.getLast?_eq_some_getLast hm.ne_nil
  have hnext := hx _ _ hm.after (by rw [hl]; exact hplain.last_word hm.word hl)
  obtain ⟨c, q, rfl⟩ := List.exists_cons_of_ne_nil hq.ne_nil
  have hc := hp c (firsts_of_mem hq.word rfl)
  rw [List.cons_append, List.head?_cons] at hnext
  rw [show t.isDigit c = false from hnext] at hc
  cases hc

end Steps

/-! ### The texts between the rules -/

/-- The text that the mobile rule is given. -/
def beforeMobile (s : List Char) : List Char := masked (IFSC t) (masked (PAN t) (globalScrub t s))

def beforeAadhaar (s : List Char) : List Char := masked (MOBILE_IN t) (beforeMobile t s)

def beforeAccounts (s : List Char) : List Char := masked (AADHAAR t) (beforeAadhaar t s)

/-- The rules without a validator. -/
def unvalidated : List (Pattern Char) :=
  [EMAIL t, IBAN t, PAN t, IFSC t, MOBILE_IN t, AADHAAR t, BANK_ACCOUNT t]

/-- A match of `p` stands in the text. -/
def Occurs (p : Pattern Char) (s : List Char) : Prop :=
  ∃ front w back, s = front ++ (w ++ back) ∧ p.Match front.getLast? w back

/-- The engine takes the word at this place. -/
def Taken (p : Pattern Char) (s x w y : List Char) : Prop :=
  ∃ front back, scan p none 0 s = front ++ .hit w :: back ∧ source front = x ∧ source back = y

/-- A match of `x` is taken, and what stands right behind it is what `p` would match on its own. -/
def Glued (x p : Pattern Char) (s : List Char) : Prop :=
  ∃ front w q back, Taken x s front w (q ++ back) ∧ p.Match none q back

/-- The rules, one after the other, leave the word that stands behind `a`. -/
def Spared : List (Pattern Char) → List Char → List Char → List Char → Prop
  | [], _, _, _ => True
  | x :: rules, u, a, q => ∃ front back, scan x none 0 u = front ++ (q.map .kept ++ back) ∧ source front = a ∧
      Spared rules (masked x u) (render (fun _ => MASK) front) q

/-- Right behind a word that `x` takes stands one that `p` would match on its own, and the other rules leave it. -/
def Bared (p x : Pattern Char) (rules : List (Pattern Char)) (u : List Char) : Prop :=
  ∃ front w q back, scan x none 0 u = front ++ .hit w :: (q.map .kept ++ back) ∧ p.Match none q (source back) ∧
    Spared rules (masked x u) (render (fun _ => MASK) (front ++ [.hit w])) q

/-- The same behind a word that one of the rules takes, each in its turn. -/
def Surfaces (p : Pattern Char) : List (Pattern Char) → List Char → Prop
  | [], _ => False
  | x :: rules, u => Bared p x rules u ∨ Surfaces p rules (masked x u)

/-- The rules from the mobile numbers on. -/
def lateRules : List (Pattern Char) := [MOBILE_IN t, AADHAAR t, BANK_ACCOUNT t]

/-- The card rule misses a card number, and the engine picks one in a stretch between the numbers that the account
rule takes. -/
def Resurfaces (s : List Char) : Prop :=
  Missed t (beforeCards t s) ∧ ∃ q ∈ split (BANK_ACCOUNT t) (beforeAccounts t s), Picked t q

/-- Nothing that an earlier rule masks comes to light behind a number that is masked late, and no card number
does that was skipped. -/
structure Separated (s : List Char) : Prop where
  identifiers : ∀ p ∈ [IBAN t, PAN t, IFSC t], ¬ Glued (MOBILE_IN t) p (beforeMobile t s)
  others : ∀ p ∈ [EMAIL t, MOBILE_IN t], ¬ Surfaces p (lateRules t) (beforeMobile t s)
  cards : ¬ Resurfaces t s

/-! ### Rules that stay quiet -/

section Late

variable {t} {p : Pattern Char} {s u : List Char} {counts : List Char → Bool → Prop}

/-- The rules between word boundaries that run last. -/
theorem Quiet.late (h : Quiet t p counts u) (hp : Plain t p.body) (hloc : Local t p)
    (haadhaar : Seals (AADHAAR t) p) (haccount : Seals (BANK_ACCOUNT t) p) :
    Quiet t p counts (masked (BANK_ACCOUNT t) (masked (AADHAAR t) u)) :=
  (h.behind opens_bounded hp hloc haadhaar).behind opens_bounded hp hloc haccount

/-- A rule that begins at a word boundary and is quiet when the mobile rule has its turn. -/
theorem Quiet.identifier {r : Expr Char} {hr : 0 < r.least} (hp : Plain t r)
    (h : Quiet t (bounded t r hr) counts (beforeMobile t s))
    (hglued : ¬ Glued (MOBILE_IN t) (bounded t r hr) (beforeMobile t s)) :
    Quiet t (bounded t r hr) counts (indiaScrub t s) := by
  have hmobile : Quiet t (bounded t r hr) counts (masked (MOBILE_IN t) (beforeMobile t s)) := by
    rw [← source_scan (MOBILE_IN t) (beforeMobile t s)] at h
    refine h.step (hits_scan _ _) opens_mobile hp local_bounded fun front w back hps q y hback _ hm => ?_
    exact hglued ⟨source front, w, q, y, ⟨front, back, hps, rfl, hback⟩, hm⟩
  exact hmobile.late hp local_bounded (seals_bounded closes_bounded (plain_aadhaar t))
    (seals_bounded closes_bounded (plain_bankAccount t))

theorem quiet_bounded {r : Expr Char} {hr : 0 < r.least} (hp : Plain t r) (u : List Char) :
    Quiet t (bounded t r hr) counts (masked (bounded t r hr) u) :=
  quiet_masked u opens_bounded hp local_bounded fun _ _ _ hps q y hback _ =>
    (seals_bounded closes_bounded hp).free (hits_scan _ u) hps q y hback

theorem Quiet.behind_cards {r : Expr Char} {hr : 0 < r.least} (h : Quiet t (bounded t r hr) counts u)
    (hp : Plain t r) : Quiet t (bounded t r hr) counts (checked (CREDIT_CARD t) (luhnOk t) u) := by
  have hhits : Hits (CREDIT_CARD t) (sift (luhnOk t) (scan (CREDIT_CARD t) none 0 u)) := (hits_scan _ u).sift
  rw [← source_scan (CREDIT_CARD t) u, ← source_sift (luhnOk t)] at h
  rw [checked_eq]
  exact h.step hhits opens_bounded hp local_bounded fun _ _ _ hps q y hback _ =>
    (seals_bounded closes_bounded (plain_creditCard t)).free hhits hps q y hback

/-- The rules between the cards and the mobile numbers. -/
theorem Quiet.before_mobile {r : Expr Char} {hr : 0 < r.least} (h : Quiet t (bounded t r hr) counts (globalScrub t s))
    (hp : Plain t r) : Quiet t (bounded t r hr) counts (beforeMobile t s) :=
  (h.behind opens_bounded hp local_bounded (seals_bounded closes_bounded (plain_pan t))).behind opens_bounded hp
    local_bounded (seals_bounded closes_bounded (plain_ifsc t))

theorem quiet_email (s : List Char) : Quiet t (EMAIL t) counts (beforeMobile t s) := by
  have hp := plain_email t
  have hown : Quiet t (EMAIL t) counts (masked (EMAIL t) s) := quiet_bounded hp s
  have hcards : Quiet t (EMAIL t) counts (beforeCards t s) :=
    hown.behind opens_bounded hp local_bounded (seals_bounded closes_bounded (plain_iban t))
  exact (hcards.behind_cards hp).before_mobile hp

theorem quiet_iban (s : List Char) (h : ¬ Glued (MOBILE_IN t) (IBAN t) (beforeMobile t s)) :
    Quiet t (IBAN t) counts (indiaScrub t s) := by
  have hp := plain_iban t
  have hcards : Quiet t (IBAN t) counts (beforeCards t s) := quiet_bounded hp _
  exact ((hcards.behind_cards hp).before_mobile hp).identifier hp h

theorem quiet_pan (s : List Char) (h : ¬ Glued (MOBILE_IN t) (PAN t) (beforeMobile t s)) :
    Quiet t (PAN t) counts (indiaScrub t s) := by
  have hp := plain_pan t
  have hown : Quiet t (PAN t) counts (masked (PAN t) (globalScrub t s)) := quiet_bounded hp _
  have hmobile : Quiet t (PAN t) counts (beforeMobile t s) :=
    hown.behind opens_bounded hp local_bounded (seals_bounded closes_bounded (plain_ifsc t))
  exact hmobile.identifier hp h

theorem quiet_ifsc (s : List Char) (h : ¬ Glued (MOBILE_IN t) (IFSC t) (beforeMobile t s)) :
    Quiet t (IFSC t) counts (indiaScrub t s) := by
  have hp := plain_ifsc t
  have hown : Quiet t (IFSC t) counts (beforeMobile t s) := quiet_bounded hp _
  exact hown.identifier hp h

theorem quiet_aadhaar (s : List Char) : Quiet t (AADHAAR t) counts (indiaScrub t s) := by
  have hp := plain_aadhaar t
  have hown : Quiet t (AADHAAR t) counts (beforeAccounts t s) := quiet_bounded hp _
  exact hown.behind opens_bounded hp local_bounded (seals_bounded closes_bounded (plain_bankAccount t))

theorem quiet_bankAccount (s : List Char) : Quiet t (BANK_ACCOUNT t) counts (indiaScrub t s) :=
  quiet_bounded (plain_bankAccount t) _

theorem mobile_before_digit (last next : Option Char) (h : (MOBILE_IN t).after last next = true) :
    holds t.isDigit next = false := by
  simpa [MOBILE_IN] using h

/-- Card numbers: the mobile rule is followed by no digit, so it hides none. -/
theorem quiet_creditCard (s : List Char) (h : ¬ Missed t (beforeCards t s)) :
    Quiet t (CREDIT_CARD t) (fun w _ => luhnOk t w = true) (indiaScrub t s) := by
  have hp := plain_creditCard t
  have hfirst : ∀ c, (CREDIT_CARD t).body.firsts c = true → t.isDigit c = true := by
    intro c hc
    simpa [CREDIT_CARD, bounded] using hc
  have hown : Quiet t (CREDIT_CARD t) (fun w _ => luhnOk t w = true) (globalScrub t s) := by
    intro front w back hs hm hluhn
    rw [noCard_checked_iff.mpr h front w back hs (cardAt_iff.mpr hm)] at hluhn
    cases hluhn
  have hmobile : Quiet t (CREDIT_CARD t) (fun w _ => luhnOk t w = true)
      (masked (MOBILE_IN t) (beforeMobile t s)) :=
    (hown.before_mobile hp).behind opens_mobile hp local_bounded
      (seals_digits (fun last next hafter _ => mobile_before_digit last next hafter) (plain_mobile t) hfirst)
  exact hmobile.late hp local_bounded (seals_bounded closes_bounded (plain_aadhaar t))
    (seals_bounded closes_bounded (plain_bankAccount t))

end Late

/-! ### What comes to light -/

section Surface

variable {t} {p : Pattern Char} {rules : List (Pattern Char)} {u a q b : List Char}

def maskedAll (rules : List (Pattern Char)) (u : List Char) : List Char := rules.foldl (fun u x => masked x u) u

theorem indiaScrub_eq (s : List Char) : indiaScrub t s = maskedAll (lateRules t) (beforeMobile t s) := by
  simp only [maskedAll, lateRules, List.foldl_cons, List.foldl_nil, indiaScrub, beforeMobile]

theorem opens_late {x : Pattern Char} (hx : x ∈ lateRules t) : Opens t x := by
  simp only [lateRules, List.mem_cons, List.not_mem_nil, or_false] at hx
  rcases hx with rfl | rfl | rfl
  · exact opens_mobile
  · exact opens_bounded
  · exact opens_bounded

/-- **A match behind the rules** came to light behind one of them, or was there before and was left by all. -/
theorem surfaces_or_spared (hp : Plain t p.body) (hloc : Local t p) (hrules : ∀ x ∈ rules, Opens t x)
    (h : Occurs p (maskedAll rules u)) : Surfaces p rules u ∨
      ∃ a q b, u = a ++ (q ++ b) ∧ p.Match a.getLast? q b ∧ Spared rules u a q := by
  induction rules generalizing u with
  | nil =>
    obtain ⟨a, q, b, hu, hm⟩ := h
    exact .inr ⟨a, q, b, hu, hm, trivial⟩
  | cons x rules ih =>
    rcases ih (fun y hy => hrules y (List.mem_cons_of_mem x hy)) h with hs | ⟨A, q, B, hu, hm, hspared⟩
    · exact .inl (.inr hs)
    · obtain ⟨front, back, hps, hA, -, hold⟩ :=
        match_of_render (hits_scan x u) (hrules x List.mem_cons_self) hp hloc hu hm
      rw [← hA] at hspared
      rcases hold with hold | ⟨front', w, rfl, hold⟩
      · refine .inr ⟨source front, q, source back, ?_, hold, front, back, hps, rfl, hspared⟩
        rw [← source_scan x u, hps, source_append, source_append, source_kept]
      · refine .inl (.inl ⟨front', w, q, back, ?_, hold, hspared⟩)
        rw [hps, List.append_assoc]
        rfl

/-- A match behind a mask that the rules leave is one in the end. -/
theorem occurs_of_spared (hp : Plain t p.body) (hloc : Local t p) (hrules : ∀ x ∈ rules, Opens t x)
    (hu : u = a ++ (q ++ b)) (ha : a.getLast? = some ']') (hm : p.Match a.getLast? q b) (hs : Spared rules u a q) :
    Occurs p (maskedAll rules u) := by
  induction rules generalizing u a b with
  | nil => exact ⟨a, q, b, hu, hm⟩
  | cons x rules ih =>
    obtain ⟨front, back, hps, rfl, hrest⟩ := hs
    have hsource := source_scan x u
    rw [hps, hu, source_append, source_append, source_kept] at hsource
    obtain rfl : source back = b := List.append_cancel_left (List.append_cancel_left hsource)
    have hl := List.getLast?_eq_some_getLast hm.ne_nil
    obtain ⟨hword, hdigit⟩ := next_agrees (hits_scan x u) (hrules x List.mem_cons_self) hps hl
      (hp.last_word hm.word hl)
    have hlast : (render (fun _ => MASK) front).getLast? = some ']' := by
      rcases last_cases (fun _ => MASK) front with ⟨front', w, rfl⟩ | heq
      · exact getLast?_render_hit front' w
      · rw [heq, ha]
    refine ih (u := masked x u) (b := render (fun _ => MASK) back)
      (fun y hy => hrules y (List.mem_cons_of_mem x hy)) ?_ hlast ⟨?_, hm.word, ?_⟩ hrest
    · rw [masked, Regex.sub, hps, render_append, render_append, render_kept]
    · have hbefore := hm.before
      obtain ⟨c, q, rfl⟩ := List.exists_cons_of_ne_nil hm.ne_nil
      rw [hlast, ← ha]
      exact hbefore
    · rw [hloc.after _ _ _ hword hdigit]
      exact hm.after

theorem occurs_of_surfaces (hp : Plain t p.body) (hloc : Local t p) (hrules : ∀ x ∈ rules, Opens t x)
    (h : Surfaces p rules u) : Occurs p (maskedAll rules u) := by
  induction rules generalizing u with
  | nil => exact h.elim
  | cons x rules ih =>
    have htail : ∀ y ∈ rules, Opens t y := fun y hy => hrules y (List.mem_cons_of_mem x hy)
    rcases h with ⟨front, w, q, back, hps, hm, hspared⟩ | h
    · have hpieces : scan x none 0 u = (front ++ [.hit w]) ++ (q.map .kept ++ back) := by
        rw [hps, List.append_assoc]
        rfl
      have hl := List.getLast?_eq_some_getLast hm.ne_nil
      obtain ⟨hword, hdigit⟩ := next_agrees (hits_scan x u) (hrules x List.mem_cons_self) hpieces hl
        (hp.last_word hm.word hl)
      refine occurs_of_spared (u := masked x u) (b := render (fun _ => MASK) back) hp hloc htail ?_
        (getLast?_render_hit front w) ⟨?_, hm.word, ?_⟩ hspared
      · simp only [masked, Regex.sub, hpieces, render_append, render_kept]
      · have hbefore := hm.before
        obtain ⟨c, q, rfl⟩ := List.exists_cons_of_ne_nil hm.ne_nil
        rw [getLast?_render_hit, hloc.before (some ']') none _ (bracket_symbols t (.inr rfl)).1]
        exact hbefore
      · rw [hloc.after _ _ _ hword hdigit]
        exact hm.after
    · exact ih htail h

/-- An e-mail that is left came to light behind a late number. -/
theorem occurs_email_iff {s : List Char} :
    Occurs (EMAIL t) (indiaScrub t s) ↔ Surfaces (EMAIL t) (lateRules t) (beforeMobile t s) := by
  rw [indiaScrub_eq]
  refine ⟨fun h => ?_, occurs_of_surfaces (plain_email t) local_bounded fun _ => opens_late⟩
  rcases surfaces_or_spared (plain_email t) local_bounded (fun _ => opens_late) h with hs | ⟨a, q, b, hu, hm, -⟩
  · exact hs
  · have hquiet : Quiet t (EMAIL t) (fun _ _ => True) (beforeMobile t s) := quiet_email s
    exact absurd trivial (hquiet a q b hu hm)

/-- And so did a mobile number. -/
theorem occurs_mobile_iff {s : List Char} :
    Occurs (MOBILE_IN t) (indiaScrub t s) ↔ Surfaces (MOBILE_IN t) (lateRules t) (beforeMobile t s) := by
  rw [indiaScrub_eq]
  refine ⟨fun h => ?_, occurs_of_surfaces (plain_mobile t) local_mobile fun _ => opens_late⟩
  rcases surfaces_or_spared (plain_mobile t) local_mobile (fun _ => opens_late) h with
    hs | ⟨a, q, b, hu, hm, front, back, hps, rfl, -⟩
  · exact hs
  · have hsource := source_scan (MOBILE_IN t) (beforeMobile t s)
    rw [hps, hu, source_append, source_append, source_kept] at hsource
    obtain rfl : source back = b := List.append_cancel_left (List.append_cancel_left hsource)
    exact absurd hm ((clear_scan _ _).not_match hps)

end Surface

/-! ### The fixpoint -/

section Fixpoint

variable {t} {p : Pattern Char} {s u : List Char} {ps : List (Piece Char)}

/-- Every match that is masked brings one more bracket into the text. -/
theorem count_render (h : ∀ front w back, ps = front ++ .hit w :: back → '[' ∉ w) :
    (render (fun _ => MASK) ps).count '[' = (source ps).count '[' + ps.countP Piece.isHit := by
  induction ps with
  | nil => rfl
  | cons x ps ih =>
    have htail := ih fun front w back hps => h (x :: front) w back (by rw [hps]; rfl)
    cases x with
    | kept c =>
      rw [render, source, List.count_cons, List.count_cons, htail, List.countP_cons]
      simp [Piece.isHit]
      omega
    | hit w =>
      have hmask : MASK.count '[' = 1 := by decide +kernel
      rw [render, source, List.count_append, List.count_append, htail, List.countP_cons, hmask,
        List.count_eq_zero_of_not_mem (h [] w ps rfl)]
      simp [Piece.isHit]
      omega

theorem count_hits (hp : Plain t p.body) (hits : Hits p ps) :
    (render (fun _ => MASK) ps).count '[' = (source ps).count '[' + ps.countP Piece.isHit := by
  refine count_render fun front w back hps hmem => ?_
  have := uses_of_mem (hits front w back hps).word hmem
  rw [hp.brackets.1] at this
  cases this

theorem count_masked (hp : Plain t p.body) (u : List Char) :
    (masked p u).count '[' = u.count '[' + (scan p none 0 u).countP Piece.isHit := by
  have hcount := count_hits hp (hits_scan p u)
  rw [source_scan] at hcount
  exact hcount

theorem count_checked (u : List Char) : (checked (CREDIT_CARD t) (luhnOk t) u).count '[' =
    u.count '[' + (sift (luhnOk t) (scan (CREDIT_CARD t) none 0 u)).countP Piece.isHit := by
  have hits : Hits (CREDIT_CARD t) (sift (luhnOk t) (scan (CREDIT_CARD t) none 0 u)) :=
    (hits_scan (CREDIT_CARD t) u).sift
  have hcount := count_hits (plain_creditCard t) hits
  rw [source_sift, source_scan] at hcount
  rw [checked_eq]
  exact hcount

/-- A text in which nothing was taken is what it was. -/
theorem render_of_kept {repl : List Char → List Char}
    (h : ∀ front w back, ps = front ++ .hit w :: back → repl w = w) :
    render repl ps = source ps := by
  induction ps with
  | nil => rfl
  | cons x ps ih =>
    have htail := ih fun front w back hps => h (x :: front) w back (by rw [hps]; rfl)
    cases x with
    | kept c => rw [render, source, htail]
    | hit w => rw [render, source, htail, h [] w ps rfl]

theorem masked_of_not_occurs (h : ¬ Occurs p s) : masked p s = s := by
  have hkept : render (fun _ => MASK) (scan p none 0 s) = source (scan p none 0 s) := by
    refine render_of_kept fun front w back hps => ?_
    refine absurd ⟨source front, w, source back, ?_, hits_scan p s front w back hps⟩ h
    rw [← source_scan p s, hps, source_append]
    rfl
  rw [source_scan] at hkept
  exact hkept

/-- Where a rule takes nothing, it matches nowhere. -/
theorem not_occurs_of_unhit (h : (scan p none 0 s).countP Piece.isHit = 0) : ¬ Occurs p s := by
  rintro ⟨front, w, back, hs, hm⟩
  obtain ⟨f, b, hps, rfl, rfl⟩ := kept_of_source hm.ne_nil ((source_scan p s).trans hs) fun front' v back' hps => by
    rw [hps, List.countP_append, List.countP_cons_of_pos rfl] at h
    omega
  exact (clear_scan p s).not_match hps hm

/-- The card rule does nothing if the engine picks no card number. -/
theorem checked_of_not_picked (h : ¬ Picked t s) : checked (CREDIT_CARD t) (luhnOk t) s = s := by
  have hkept : checked (CREDIT_CARD t) (luhnOk t) s = source (scan (CREDIT_CARD t) none 0 s) :=
    render_of_kept fun front w back hps => if_neg fun hok => h ⟨_, w, _, picks_of_hit hps, hok⟩
  rw [hkept, source_scan]

theorem not_occurs_of_quiet (h : Quiet t p (fun _ _ => True) s) : ¬ Occurs p s := by
  rintro ⟨front, w, back, hs, hm⟩
  exact h front w back hs hm trivial

/-- A text that the rules do not change gives none of them anything to do. -/
theorem idle_of_idempotent (h : indiaScrub t u = u) : (∀ p ∈ unvalidated t, ¬ Occurs p u) ∧
    ¬ Picked t u := by
  have hcount := congrArg (List.count '[') h
  rw [indiaScrub, count_masked (plain_bankAccount t), count_masked (plain_aadhaar t), count_masked (plain_mobile t),
    count_masked (plain_ifsc t), count_masked (plain_pan t), globalScrub, count_checked, beforeCards,
    count_masked (plain_iban t), count_masked (plain_email t)] at hcount
  have hemail := not_occurs_of_unhit (p := EMAIL t) (s := u) (by omega)
  rw [masked_of_not_occurs hemail] at hcount
  have hiban := not_occurs_of_unhit (p := IBAN t) (s := u) (by omega)
  rw [masked_of_not_occurs hiban] at hcount
  have hcards : ¬ Picked t u := by
    rintro ⟨x, w, y, hpick, hok⟩
    obtain ⟨front, back, hps, -, -⟩ := picks_iff.mp hpick
    have hsift : sift (luhnOk t) (scan (CREDIT_CARD t) none 0 u) =
        sift (luhnOk t) front ++ (.hit w :: sift (luhnOk t) back) := by
      rw [hps, sift_append, sift, if_pos hok]
      rfl
    rw [hsift, List.countP_append, List.countP_cons_of_pos rfl] at hcount
    omega
  rw [checked_of_not_picked hcards] at hcount
  have hpan := not_occurs_of_unhit (p := PAN t) (s := u) (by omega)
  rw [masked_of_not_occurs hpan] at hcount
  have hifsc := not_occurs_of_unhit (p := IFSC t) (s := u) (by omega)
  rw [masked_of_not_occurs hifsc] at hcount
  have hmobile := not_occurs_of_unhit (p := MOBILE_IN t) (s := u) (by omega)
  rw [masked_of_not_occurs hmobile] at hcount
  have haadhaar := not_occurs_of_unhit (p := AADHAAR t) (s := u) (by omega)
  rw [masked_of_not_occurs haadhaar] at hcount
  have haccount := not_occurs_of_unhit (p := BANK_ACCOUNT t) (s := u) (by omega)
  refine ⟨fun p hp => ?_, hcards⟩
  simp only [unvalidated, List.mem_cons, List.not_mem_nil, or_false] at hp
  rcases hp with rfl | rfl | rfl | rfl | rfl | rfl | rfl <;> assumption

/-- A card number that the engine picks in the output was skipped. -/
theorem missed_of_picked (h : Picked t (indiaScrub t s)) : Missed t (beforeCards t s) := by
  by_contra hmiss
  obtain ⟨x, w, y, hpick, hok⟩ := h
  obtain ⟨front, back, hps, -, -⟩ := picks_iff.mp hpick
  refine quiet_creditCard s hmiss (source front) w (source back) ?_ (hits_scan _ _ front w back hps) hok
  rw [← source_scan (CREDIT_CARD t) (indiaScrub t s), hps, source_append]
  rfl

theorem resurfaces_iff : Resurfaces t s ↔ Picked t (indiaScrub t s) := by
  have hout : Picked t (indiaScrub t s) ↔ ∃ q ∈ split (BANK_ACCOUNT t) (beforeAccounts t s), Picked t q :=
    picked_masked_iff (BANK_ACCOUNT t) (beforeAccounts t s)
  rw [Resurfaces, ← hout]
  exact and_iff_right_of_imp missed_of_picked

theorem unmatched_of_separated (h : Separated t s) : ∀ p ∈ unvalidated t, ¬ Occurs p (indiaScrub t s) := by
  intro p hp
  have hid := h.identifiers
  have hothers := h.others
  simp only [List.mem_cons, List.not_mem_nil, or_false, forall_eq_or_imp, forall_eq] at hid hothers
  obtain ⟨hiban, hpan, hifsc⟩ := hid
  obtain ⟨hemail, hmobile⟩ := hothers
  simp only [unvalidated, List.mem_cons, List.not_mem_nil, or_false] at hp
  rcases hp with rfl | rfl | rfl | rfl | rfl | rfl | rfl
  · exact mt occurs_email_iff.mp hemail
  · exact not_occurs_of_quiet (quiet_iban s hiban)
  · exact not_occurs_of_quiet (quiet_pan s hpan)
  · exact not_occurs_of_quiet (quiet_ifsc s hifsc)
  · exact mt occurs_mobile_iff.mp hmobile
  · exact not_occurs_of_quiet (quiet_aadhaar s)
  · exact not_occurs_of_quiet (quiet_bankAccount s)

/-- **Nothing is left to do** where nothing comes to light. -/
theorem idempotent_of_separated (h : Separated t s) : indiaScrub t (indiaScrub t s) = indiaScrub t s := by
  have hid : ∀ p ∈ unvalidated t, masked p (indiaScrub t s) = indiaScrub t s := fun p hp =>
    masked_of_not_occurs (unmatched_of_separated h p hp)
  simp only [unvalidated, List.mem_cons, List.not_mem_nil, or_false, forall_eq_or_imp, forall_eq] at hid
  obtain ⟨hemail, hiban, hpan, hifsc, hmobile, haadhaar, haccount⟩ := hid
  have hcards : checked (CREDIT_CARD t) (luhnOk t) (indiaScrub t s) = indiaScrub t s :=
    checked_of_not_picked fun hpick => h.cards (resurfaces_iff.mpr hpick)
  generalize indiaScrub t s = out at hemail hiban hpan hifsc hmobile haadhaar haccount hcards ⊢
  rw [indiaScrub, globalScrub, beforeCards, hemail, hiban, hcards, hpan, hifsc, hmobile, haadhaar, haccount]

end Fixpoint

/-! ### Identifiers that are glued to a mobile number -/

section Glue

variable {t} {x p : Pattern Char} {s u A q B : List Char}

/-- An identifier: word symbols, of which the first is a capital. -/
structure Identifier (t : CharTables) (r : Expr Char) : Prop where
  words : ∀ c, r.uses c = true → t.isWord c = true
  capital : ∀ c, r.firsts c = true → c.isUpper = true

theorem identifier_iban : Identifier t (IBAN t).body where
  words c h := by
    have hc : c.isUpper = true ∨ t.isDigit c = true ∨ c.isAlphanum = true := by
      simpa [IBAN, bounded, times] using h
    rcases hc with hc | hc | hc
    · exact isWord_of_isAlphanum t (by simp [Char.isAlphanum, Char.isAlpha, hc])
    · exact t.digit_word c hc
    · exact isWord_of_isAlphanum t hc
  capital c h := by simpa [IBAN, bounded, times] using h

theorem identifier_pan : Identifier t (PAN t).body where
  words c h := by
    have hc : c.isUpper = true ∨ c.isDigit = true ∨ c.isUpper = true := by
      simpa [PAN, bounded, times] using h
    rcases hc with hc | hc | hc <;> exact isWord_of_isAlphanum t (by simp [Char.isAlphanum, Char.isAlpha, hc])
  capital c h := by simpa [PAN, bounded, times] using h

theorem identifier_ifsc : Identifier t (IFSC t).body where
  words c h := by
    have hc : c.isAlphanum = true := by
      simp only [IFSC, bounded, uses, times, literal, Bool.or_eq_true, decide_eq_true_eq] at h
      rcases h with h | rfl | h | h
      · simp [Char.isAlphanum, Char.isAlpha, h]
      · decide
      · simp [Char.isAlphanum, Char.isAlpha, h]
      · simp [Char.isAlphanum, h]
    exact isWord_of_isAlphanum t hc
  capital c h := by simpa [IFSC, bounded, times] using h

theorem not_digit_of_isUpper {c : Char} (h : c.isUpper = true) : t.isDigit c = false := by
  have halnum : c.isAlphanum = true := by simp [Char.isAlphanum, Char.isAlpha, h]
  have hno : c.isDigit = false := by
    simp only [Char.isUpper, ge_iff_le, decide_eq_true_eq, UInt32.le_iff_toNat_le] at h
    simp only [Char.isDigit, ge_iff_le, Bool.and_eq_false_iff, decide_eq_false_iff_not,
      UInt32.le_iff_toNat_le]
    change 65 ≤ c.val.toNat ∧ c.val.toNat ≤ 90 at h
    change ¬ 48 ≤ c.val.toNat ∨ ¬ c.val.toNat ≤ 57
    omega
  rw [CharTables.isDigit, t.ascii_digit c (toNat_lt_of_isAlphanum halnum), if_neg (by simp [hno])]
  rfl

/-- No match begins in a row of word symbols behind a word symbol. -/
theorem not_match_inside {prev : Option Char} {v w rest : List Char} {c : Char} (hx : Opens t x)
    (hprev : holds t.isWord prev = true) (hc : t.isWord c = true) (h : c :: v = w ++ rest) :
    ¬ x.Match prev w rest := by
  intro hm
  have hnext := hx _ _ hm.before hprev
  rw [← h, List.head?_cons, show holds t.isWord (some c) = t.isWord c from rfl, hc] at hnext
  cases hnext

theorem holds_getLast? {o : Option Char} {v : List Char} (ho : holds t.isWord o = true)
    (hv : ∀ c ∈ v, t.isWord c = true) : holds t.isWord (v.getLast?.or o) = true := by
  cases hl : v.getLast? with
  | none => exact ho
  | some c => exact hv c (List.mem_of_getLast? hl)

/-- An identifier behind a match is left, since every match in it would begin behind a word symbol. -/
theorem kept_behind_hit (hx : Opens t x) (hplain : Plain t x.body) (hq : ∀ c ∈ q, t.isWord c = true)
    {front back : List (Piece Char)} {w : List Char} (hps : scan x none 0 u = front ++ .hit w :: back)
    (hback : source back = q ++ B) : ∃ back', back = q.map .kept ++ back' ∧ source back' = B := by
  have hw : holds t.isWord w.getLast? = true := by
    have hit := hits_scan x u front w back hps
    have hl := List.getLast?_eq_some_getLast hit.ne_nil
    rw [hl]
    exact hplain.last_word hit.word hl
  refine kept_of_source_prefix hback fun front' w' back' hback' => ?_
  by_contra hlt
  have hit := hits_scan x u (front ++ .hit w :: front') w' back' (by rw [hps, hback', List.append_assoc]; rfl)
  have hsplit : source front' ++ (w' ++ source back') = q ++ B := by
    rw [← hback, hback', source_append]
    rfl
  rcases List.append_eq_append_iff.mp hsplit with ⟨v, hv, hrest⟩ | ⟨v, hv, -⟩
  · cases v with
    | nil =>
      rw [List.append_nil] at hv
      exact hlt (by rw [hv])
    | cons c v =>
      have hprev : holds t.isWord (source (front ++ .hit w :: front')).getLast? = true := by
        rw [source_append, source, List.getLast?_append, List.getLast?_append]
        have hmid := holds_getLast? hw fun c hc => hq c (hv ▸ List.mem_append_left _ hc)
        cases hl : ((source front').getLast?.or w.getLast?) with
        | none =>
          rw [hl] at hmid
          cases hmid
        | some d =>
          rw [hl] at hmid
          exact hmid
      have hc : t.isWord c = true := hq c (hv ▸ List.mem_append_right _ List.mem_cons_self)
      exact not_match_inside hx hprev hc (v := v ++ B) hrest.symm hit
  · exact hlt (by rw [hv, List.length_append]; omega)

/-- Nor does a rule that begins with a digit match from a place in an identifier that begins with none. -/
theorem not_match_in_identifier (hx : Opens t x) (hfirst : ∀ c, x.body.firsts c = true → t.isDigit c = true)
    (hq : ∀ c ∈ q, t.isWord c = true) (hhead : ∀ c ∈ q.head?, t.isDigit c = false)
    {v q' w rest : List Char} {c : Char} (hqv : q = v ++ c :: q')
    (hrest : c :: (q' ++ B) = w ++ rest) : ¬ x.Match (A ++ v).getLast? w rest := by
  intro hm
  have hc : t.isWord c = true := hq c (hqv ▸ List.mem_append_right v List.mem_cons_self)
  cases hl : v.getLast? with
  | none =>
    rw [List.getLast?_eq_none_iff] at hl
    obtain ⟨e, w', rfl⟩ := List.exists_cons_of_ne_nil hm.ne_nil
    obtain ⟨rfl, -⟩ := List.cons.inj hrest
    have hdigit := hfirst c (firsts_of_mem hm.word rfl)
    rw [hhead c (by rw [hqv, hl]; rfl)] at hdigit
    cases hdigit
  | some e =>
    have hprev : holds t.isWord (A ++ v).getLast? = true := by
      rw [List.getLast?_append, hl]
      exact hq e (hqv ▸ List.mem_append_left _ (List.mem_of_getLast? hl))
    exact not_match_inside hx hprev hc hrest hm

/-- So a match of such a rule ends before the end of the mask in front of the identifier, or begins behind it. -/
theorem apart_behind_mask (hx : Opens t x) (hplain : Plain t x.body)
    (hfirst : ∀ c, x.body.firsts c = true → t.isDigit c = true) (hq : ∀ c ∈ q, t.isWord c = true)
    (hhead : ∀ c ∈ q.head?, t.isDigit c = false) (hne : q ≠ []) (hA : A.getLast? = some ']') {C w D : List Char}
    (hm : x.Match C.getLast? w D) (hsplit : C ++ (w ++ D) = A ++ (q ++ B)) :
    C.length + w.length ≤ A.length ∨ A.length + q.length ≤ C.length := by
  by_contra hover
  rw [not_or, not_le, not_le] at hover
  obtain ⟨d, q', hqd⟩ := List.exists_cons_of_ne_nil hne
  rcases List.append_eq_append_iff.mp hsplit with ⟨a, rfl, hrest⟩ | ⟨v, rfl, hrest⟩
  · rcases List.eq_nil_or_concat' a with rfl | ⟨a, c, rfl⟩
    · have hstart : d :: (q' ++ B) = w ++ D := by
        rw [hrest, hqd]
        rfl
      refine not_match_in_identifier (A := C) hx hfirst hq hhead (v := []) hqd hstart ?_
      rwa [List.append_nil]
    · -- the match would reach over the end of the mask
      have hc : c = ']' := by
        rw [← List.append_assoc, List.getLast?_append] at hA
        exact Option.some.inj hA
      rcases List.append_eq_append_iff.mp hrest with ⟨r, hr, -⟩ | ⟨r, hr, -⟩
      · have h2 := congrArg List.length hr
        simp only [List.length_append] at h2 hover
        omega
      · refine (hplain.alien hm.word).last ']' mask_ends.2.1 ?_
        rw [hr, ← hc]
        exact List.mem_append_left r (List.mem_append_right a (List.mem_singleton.mpr rfl))
  · rcases List.append_eq_append_iff.mp hrest with ⟨r, hr, -⟩ | ⟨r, hr, hrest'⟩
    · have h2 := congrArg List.length hr
      simp only [List.length_append] at h2 hover
      omega
    · cases r with
      | nil =>
        rw [List.append_nil] at hr
        rw [hr, List.length_append] at hover
        omega
      | cons e r => exact not_match_in_identifier hx hfirst hq hhead hr hrest'.symm hm

/-- An identifier behind a masked number is left by the rules that begin with a digit. -/
theorem left_behind_mask (hx : Opens t x) (hplain : Plain t x.body)
    (hfirst : ∀ c, x.body.firsts c = true → t.isDigit c = true) (hq : ∀ c ∈ q, t.isWord c = true)
    (hhead : ∀ c ∈ q.head?, t.isDigit c = false) (hne : q ≠ []) (hu : u = A ++ (q ++ B))
    (hA : A.getLast? = some ']') : ∃ A' B', masked x u = A' ++ (q ++ B') ∧ A'.getLast? = some ']' ∧
      holds t.isWord B'.head? = holds t.isWord B.head? ∧
      holds t.isDigit B'.head? = holds t.isDigit B.head? := by
  obtain ⟨front, back, hps, rfl, rfl⟩ := kept_of_source hne ((source_scan x u).trans hu) fun front' w back' hps => by
    refine apart_behind_mask hx hplain hfirst hq hhead hne hA (hits_scan x u front' w back' hps) (B := B) ?_
    rw [← hu, ← source_scan x u, hps, source_append]
    rfl
  have hl := List.getLast?_eq_some_getLast hne
  refine ⟨render (fun _ => MASK) front, render (fun _ => MASK) back, ?_, ?_,
    next_agrees (hits_scan x u) hx hps hl (hq _ (List.getLast_mem hne))⟩
  · rw [masked, Regex.sub, hps, render_append, render_append, render_kept]
  · rcases last_cases (fun _ => MASK) front with ⟨front', w, rfl⟩ | heq
    · exact getLast?_render_hit front' w
    · rw [heq, hA]

/-- **What is glued to a mobile number** stays in the output, and matches there. -/
theorem occurs_of_glued (hloc : Local t p) (hid : Identifier t p.body)
    (h : Glued (MOBILE_IN t) p (beforeMobile t s)) : Occurs p (indiaScrub t s) := by
  obtain ⟨_, w, q, y, ⟨front, back, hps, rfl, hback⟩, hm⟩ := h
  have hwords : ∀ c ∈ q, t.isWord c = true := fun c hc => hid.words c (uses_of_mem hm.word hc)
  have hhead : ∀ c ∈ q.head?, t.isDigit c = false := by
    intro c hc
    exact not_digit_of_isUpper (hid.capital c (firsts_of_mem hm.word hc))
  obtain ⟨back', rfl, rfl⟩ := kept_behind_hit opens_mobile (plain_mobile t) hwords hps hback
  have hl := List.getLast?_eq_some_getLast hm.ne_nil
  have hmobile : beforeAadhaar t s = render (fun _ => MASK) (front ++ [.hit w]) ++
      (q ++ render (fun _ => MASK) back') := by
    rw [beforeAadhaar, masked, Regex.sub, hps, render_append, render_append, render, render, render_append,
      render_kept, render, List.append_nil, List.append_assoc]
  have hpieces : scan (MOBILE_IN t) none 0 (beforeMobile t s) = (front ++ [.hit w]) ++ (q.map .kept ++ back') := by
    rw [hps, List.append_assoc]
    rfl
  obtain ⟨hword, hdigit⟩ := next_agrees (hits_scan _ _) opens_mobile hpieces hl
    (hwords _ (List.getLast_mem hm.ne_nil))
  have hfirst : ∀ c, (AADHAAR t).body.firsts c = true → t.isDigit c = true := by
    intro c hc
    simpa [AADHAAR, bounded, times] using hc
  have hfirst' : ∀ c, (BANK_ACCOUNT t).body.firsts c = true → t.isDigit c = true := by
    intro c hc
    simpa [BANK_ACCOUNT, bounded] using hc
  obtain ⟨A, B, haadhaar, hA, hwordA, hdigitA⟩ := left_behind_mask opens_bounded (plain_aadhaar t) hfirst hwords
    hhead hm.ne_nil hmobile (getLast?_render_hit front w)
  obtain ⟨A', B', haccount, hA', hwordB, hdigitB⟩ := left_behind_mask opens_bounded (plain_bankAccount t) hfirst'
    hwords hhead hm.ne_nil haadhaar hA
  refine ⟨A', q, B', haccount, ?_, hm.word, ?_⟩
  · have hbefore := hm.before
    obtain ⟨c, q, rfl⟩ := List.exists_cons_of_ne_nil hm.ne_nil
    rw [hA', hloc.before (some ']') none _ (bracket_symbols t (.inr rfl)).1]
    exact hbefore
  · rw [hloc.after _ _ _ (hwordB.trans (hwordA.trans hword)) (hdigitB.trans (hdigitA.trans hdigit))]
    exact hm.after

end Glue

/-- Behind a fixpoint nothing comes to light. -/
theorem separated_of_idempotent {t : CharTables} {s : List Char}
    (h : indiaScrub t (indiaScrub t s) = indiaScrub t s) : Separated t s := by
  obtain ⟨hunmatched, hcards⟩ := idle_of_idempotent h
  have hno : ∀ p ∈ unvalidated t, ¬ Occurs p (indiaScrub t s) := hunmatched
  simp only [unvalidated, List.mem_cons, List.not_mem_nil, or_false, forall_eq_or_imp, forall_eq] at hno
  obtain ⟨hemail, hiban, hpan, hifsc, hmobile, -, -⟩ := hno
  refine ⟨fun p hp => ?_, fun p hp => ?_, fun hresurface => hcards (resurfaces_iff.mp hresurface)⟩
  · simp only [List.mem_cons, List.not_mem_nil, or_false] at hp
    rcases hp with rfl | rfl | rfl
    · exact mt (occurs_of_glued local_bounded identifier_iban) hiban
    · exact mt (occurs_of_glued local_bounded identifier_pan) hpan
    · exact mt (occurs_of_glued local_bounded identifier_ifsc) hifsc
  · simp only [List.mem_cons, List.not_mem_nil, or_false] at hp
    rcases hp with rfl | rfl
    · exact mt occurs_email_iff.mpr hemail
    · exact mt occurs_mobile_iff.mpr hmobile

/-- **The India pack** changes its output no more exactly where nothing comes to light behind a number that is
masked late, nor any card number that was skipped; and then no rule without a validator matches there. -/
theorem india_fixpoint (lower : String → String) (fields : Option (List String)) (s : String) :
    ((IndiaFintechRedactor t lower fields none).scrub ((IndiaFintechRedactor t lower fields none).scrub s) =
        (IndiaFintechRedactor t lower fields none).scrub s ↔ Separated t s.toList) ∧
      (Separated t s.toList →
        ∀ p ∈ unvalidated t, ¬ Occurs p ((IndiaFintechRedactor t lower fields none).scrub s).toList) := by
  rw [scrub_india, scrub_india, String.toList_ofList]
  refine ⟨⟨fun h => separated_of_idempotent (String.ofList_injective h), fun h => ?_⟩, unmatched_of_separated⟩
  rw [idempotent_of_separated h]

/-! ### Some texts -/

/-- A mobile number next to a PAN and next to another mobile number; and two card numbers that the card rule
skips, of which one is masked as an account number and the other stays. -/
theorem india_fixpoint_neighbours :
    ∀ s ∈ ["ABCDE1234F 9812345678,9812345679", "4111111111111111 123", "4111-1111-1111-1111 123"],
      Separated asciiTables s.toList ∧ ∀ p ∈ unvalidated asciiTables,
        ¬ Occurs p ((IndiaFintechRedactor asciiTables String.toLower none none).scrub s).toList := by
  intro s hs
  have hfix : indiaScrub asciiTables (indiaScrub asciiTables s.toList) = indiaScrub asciiTables s.toList := by
    revert s
    decide +kernel
  obtain ⟨hiff, hunmatched⟩ := india_fixpoint asciiTables String.toLower none s
  rw [scrub_india, scrub_india, String.toList_ofList] at hiff
  have hsep := hiff.mp (congrArg String.ofList hfix)
  exact ⟨hsep, hunmatched hsep⟩

/-- A PAN that is glued to a mobile number is left by the first scrub and masked by the second. -/
theorem glued_pan_left : (IndiaFintechRedactor asciiTables String.toLower none none).scrub
      ((IndiaFintechRedactor asciiTables String.toLower none none).scrub "9812345678ABCDE1234F") ≠
    (IndiaFintechRedactor asciiTables String.toLower none none).scrub "9812345678ABCDE1234F" := by
  rw [scrub_india, scrub_india, String.toList_ofList]
  decide +kernel

/-- A skipped card number stands alone once the Aadhaar number behind it is masked. -/
example : let s := "4222-2222-22222 1234 5678 9012".toList
    String.ofList (indiaScrub asciiTables s) = "4222-2222-22222 [REDACTED]" ∧
      String.ofList (indiaScrub asciiTables (indiaScrub asciiTables s)) = "[REDACTED] [REDACTED]" := by
  decide +kernel

end ResilienceKit.Audit
